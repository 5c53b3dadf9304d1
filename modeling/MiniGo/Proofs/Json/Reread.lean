import MiniGo.Proofs.Json.Scalar

/-!
Values read back from their own text. Strings, integers and marks come back, arrays and objects come
back item by item as far as the levels reach, and a double comes back as whatever its decimal text
denotes to the reader. Main statement: this describes reading exactly, so that the text of a value is
read if and only if the value is not nested too deeply and each of its doubles is read.
-/
namespace MiniGo.Json

@[elab_as_elim]
theorem induction_on {motive : Json → Prop} (null : motive .null) (bool : ∀ b, motive (.bool b))
    (natural : ∀ n, motive (.natural n)) (real : ∀ x, motive (.real x))
    (string : ∀ s, motive (.string s))
    (array : ∀ items, (∀ v ∈ items, motive v) → motive (.array items))
    (object : ∀ members, (∀ m ∈ members, motive m.2) → motive (.object members)) :
    ∀ v, motive v
  | .null => null
  | .bool b => bool b
  | .natural n => natural n
  | .real x => real x
  | .string s => string s
  | .array items => array items fun v _ =>
    induction_on null bool natural real string array object v
  | .object members => object members fun m _ =>
    induction_on null bool natural real string array object m.2
termination_by v => sizeOf v
decreasing_by
  · rename_i hv
    have := List.sizeOf_lt_of_mem hv
    simp +arith only [Json.array.sizeOf_spec]
    omega
  · rename_i hm
    have := List.sizeOf_lt_of_mem hm
    cases m
    simp +arith only [Json.object.sizeOf_spec, Prod.mk.sizeOf_spec] at *
    omega

mutual

/-- How deep arrays and objects nest. -/
def nesting : Json → Nat
  | .array items => nestingItems items + 1
  | .object members => nestingMembers members + 1
  | _ => 0

def nestingItems : List Json → Nat
  | [] => 0
  | v :: vs => max v.nesting (nestingItems vs)

def nestingMembers : List (String × Json) → Nat
  | [] => 0
  | (_, v) :: ms => max v.nesting (nestingMembers ms)

end

private theorem nestingItems_le {vs : List Json} {levels : Nat} :
    nestingItems vs ≤ levels ↔ ∀ v ∈ vs, v.nesting ≤ levels := by
  induction vs with
  | nil => simp [nestingItems]
  | cons v vs ih => rw [nestingItems, Nat.max_le, ih, List.forall_mem_cons]

private theorem nestingMembers_le {ms : List (String × Json)} {levels : Nat} :
    nestingMembers ms ≤ levels ↔ ∀ m ∈ ms, m.2.nesting ≤ levels := by
  induction ms with
  | nil => simp [nestingMembers]
  | cons m ms ih => rw [nestingMembers, Nat.max_le, ih, List.forall_mem_cons]

/-- What a double is read as. -/
def rereadReal (x : Binary64) : Option Json := (scalar? (writeReal x [])).map Prod.fst

mutual

/-- What a value is read as from its text, if arrays and objects may nest `levels` deep. -/
def reread : Json → Nat → Option Json
  | .real x, _ => rereadReal x
  | .array _, 0 => none
  | .array items, levels + 1 => (rereadItems items levels).map .array
  | .object _, 0 => none
  | .object members, levels + 1 => (rereadMembers members levels).map .object
  | v, _ => some v

def rereadItems : List Json → Nat → Option (List Json)
  | [], _ => some []
  | v :: vs, levels => return (← v.reread levels) :: (← rereadItems vs levels)

def rereadMembers : List (String × Json) → Nat → Option (List (String × Json))
  | [], _ => some []
  | (k, v) :: ms, levels => return (k, ← v.reread levels) :: (← rereadMembers ms levels)

end

theorem rereadItems_eq_mapM (vs : List Json) (levels : Nat) :
    rereadItems vs levels = vs.mapM (·.reread levels) := by
  induction vs with
  | nil => rfl
  | cons v vs ih => rw [rereadItems, List.mapM_cons, ih]

theorem rereadMembers_eq_mapM (ms : List (String × Json)) (levels : Nat) :
    rereadMembers ms levels = ms.mapM fun m => (m.2.reread levels).map fun v => (m.1, v) := by
  induction ms with
  | nil => rfl
  | cons m ms ih =>
    rw [rereadMembers, List.mapM_cons, ih]
    cases m.2.reread levels <;> rfl

theorem mapM_eq_none {α β : Type} {get : β → Option α} {bs : List β} {b : β} (hb : b ∈ bs)
    (h : get b = none) : bs.mapM get = none := by
  induction bs with
  | nil => cases hb
  | cons a bs ih =>
    rw [List.mapM_cons]
    cases hb with
    | head => rw [h]; rfl
    | tail _ hb => rw [ih hb]; cases get a <;> rfl

theorem mapM_eq_some_iff {α β : Type} {get : β → Option α} {bs : List β} {as : List α} :
    bs.mapM get = some as ↔ bs.map get = as.map some := by
  induction bs generalizing as with
  | nil => cases as <;> simp
  | cons b bs ih =>
    cases as with
    | nil => simp [Option.bind_eq_some_iff]
    | cons a as => simp [Option.bind_eq_some_iff, ← ih]

theorem reread_of_lt_nesting (v : Json) {levels : Nat} (h : levels < v.nesting) :
    v.reread levels = none := by
  induction v using induction_on generalizing levels with
  | null | bool | natural | real | string => simp [nesting] at h
  | array items ih =>
    cases levels with
    | zero => rfl
    | succ levels =>
      have hdeep : ∃ v ∈ items, levels < v.nesting := by
        rw [nesting, Nat.add_lt_add_iff_right, ← Nat.not_le, nestingItems_le] at h
        simpa using h
      obtain ⟨v, hv, hlt⟩ := hdeep
      rw [reread, rereadItems_eq_mapM, mapM_eq_none hv (ih v hv hlt)]
      rfl
  | object members ih =>
    cases levels with
    | zero => rfl
    | succ levels =>
      have hdeep : ∃ m ∈ members, levels < m.2.nesting := by
        rw [nesting, Nat.add_lt_add_iff_right, ← Nat.not_le, nestingMembers_le] at h
        simpa using h
      obtain ⟨m, hm, hlt⟩ := hdeep
      rw [reread, rereadMembers_eq_mapM, mapM_eq_none hm (by simp [ih m hm hlt])]
      rfl

/-- The value comes back from its text as it is, if there are levels enough. -/
def Kept (v : Json) : Prop := ∀ levels, v.nesting ≤ levels → v.reread levels = some v

theorem kept_array {items : List Json} (h : ∀ v ∈ items, v.Kept) : (array items).Kept := by
  intro levels hlevels
  cases levels with
  | zero => simp [nesting] at hlevels
  | succ levels =>
    rw [nesting, Nat.add_le_add_iff_right, nestingItems_le] at hlevels
    have hitems : items.mapM (·.reread levels) = some items := by
      rw [mapM_eq_some_iff]
      exact List.map_congr_left fun v hv => h v hv levels (hlevels v hv)
    rw [reread, rereadItems_eq_mapM, hitems]
    rfl

theorem kept_object {members : List (String × Json)} (h : ∀ m ∈ members, m.2.Kept) :
    (object members).Kept := by
  intro levels hlevels
  cases levels with
  | zero => simp [nesting] at hlevels
  | succ levels =>
    rw [nesting, Nat.add_le_add_iff_right, nestingMembers_le] at hlevels
    have hmembers : (members.mapM fun m => (m.2.reread levels).map fun v => (m.1, v)) =
        some members := by
      rw [mapM_eq_some_iff]
      exact List.map_congr_left fun m hm => by simp [h m hm levels (hlevels m hm)]
    rw [reread, rereadMembers_eq_mapM, hmembers]
    rfl

section Sequence

variable {α β : Type} {item : List Char → Option (α × List Char)} {close : Char}
  {put : β → List Char → List Char} {get : β → Option α} {rest : List Char}

def putMore (put : β → List Char → List Char) (bs : List β) (rest : List Char) : List Char :=
  bs.foldr (fun b more => ',' :: put b more) rest

private theorem delimited_putMore (put : β → List Char → List Char) (bs : List β) (hrest : Delimited rest) :
    Delimited (putMore put bs rest) := by
  cases bs with
  | nil => exact hrest
  | cons b bs => exact delimited_cons (by simp)

theorem skipSpace_cons {c : Char} (hc : isSpace c = false) (cs : List Char) :
    skipSpace (c :: cs) = c :: cs := by
  simp [skipSpace, hc]

theorem sequence_written (hclose : close = ']' ∨ close = '\x7d') {turns : List Char} {b : β}
    {bs : List β} (hturns : bs.length < turns.length)
    (h : ∀ a ∈ b :: bs, ∀ rest, Delimited rest → item (put a rest) = (get a).map fun v => (v, rest)) :
    sequence item close turns (put b (putMore put bs (close :: rest))) =
      ((b :: bs).mapM get).map fun vs => (vs, rest) := by
  have hspace : isSpace close = false := by rcases hclose with rfl | rfl <;> rfl
  have hcomma : ',' ≠ close := by rcases hclose with rfl | rfl <;> decide
  have hend : Delimited (close :: rest) := delimited_cons (.inr hclose)
  induction turns generalizing b bs with
  | nil => simp at hturns
  | cons turn turns ih =>
    have hb := h b List.mem_cons_self _ (delimited_putMore put bs hend)
    rw [sequence, hb, List.mapM_cons]
    cases hget : get b with
    | none => rfl
    | some v =>
      cases bs with
      | nil => simp [putMore, skipSpace_cons hspace]
      | cons a bs =>
        have hmore := @ih a bs (by simpa using hturns)
          fun a' ha' => h a' (List.mem_cons_of_mem b ha')
        have hcons : putMore put (a :: bs) (close :: rest) =
          ',' :: put a (putMore put bs (close :: rest)) := rfl
        simp only [hcons, Option.map_some, Option.bind_eq_bind, Option.bind_some,
          skipSpace_cons (c := ',') rfl, hcomma, if_false, if_true, hmore]
        cases (a :: bs).mapM get <;> rfl

theorem length_le_putMore {bs : List β}
    (h : ∀ b ∈ bs, ∀ more, more.length ≤ (put b more).length) (rest : List Char) :
    bs.length + rest.length ≤ (putMore put bs rest).length := by
  induction bs with
  | nil => simp [putMore]
  | cons b bs ih =>
    have hmore := ih fun a ha => h a (List.mem_cons_of_mem b ha)
    have hb := h b List.mem_cons_self (putMore put bs rest)
    have hcons : putMore put (b :: bs) rest = ',' :: put b (putMore put bs rest) := rfl
    rw [hcons, List.length_cons, List.length_cons]
    omega

def Opens (cs : List Char) : Prop :=
  ∃ c more, cs = c :: more ∧ isSpace c = false ∧ c ≠ ']' ∧ c ≠ '\x7d'

theorem enclosed_written (hclose : close = ']' ∨ close = '\x7d') {b : β} {bs : List β}
    (hopens : Opens (put b (putMore put bs (close :: rest))))
    (hlength : ∀ a ∈ b :: bs, ∀ more, more.length ≤ (put a more).length)
    (h : ∀ a ∈ b :: bs, ∀ rest, Delimited rest → item (put a rest) = (get a).map fun v => (v, rest)) :
    enclosed item close (put b (putMore put bs (close :: rest))) =
      ((b :: bs).mapM get).map fun vs => (vs, rest) := by
  obtain ⟨c, more, hcons, hspace, hne⟩ := hopens
  have hcclose : c ≠ close := by
    rcases hclose with rfl | rfl
    · exact hne.1
    · exact hne.2
  have hturns : bs.length < (c :: more).length := by
    have hb := hlength b List.mem_cons_self (putMore put bs (close :: rest))
    have hbs := length_le_putMore (fun a ha => hlength a (List.mem_cons_of_mem b ha)) (close :: rest)
    rw [← hcons]
    simp only [List.length_cons] at hbs
    omega
  rw [enclosed, hcons, skipSpace_cons hspace]
  simp only [hcclose, if_false]
  rw [← hcons] at hturns ⊢
  exact sequence_written hclose hturns h

end Sequence

section Write

variable {rest : List Char}

def writeMember (m : String × Json) (rest : List Char) : List Char :=
  writeString m.1 (':' :: write m.2 rest)

@[simp] theorem write_real (x : Binary64) (rest : List Char) : write (.real x) rest = writeReal x rest := rfl

@[simp] theorem write_string (s : String) (rest : List Char) :
    write (.string s) rest = writeString s rest := rfl

private theorem writeItems_eq (vs : List Json) (rest : List Char) :
    writeItems vs rest = putMore write vs rest := by
  induction vs with
  | nil => rfl
  | cons v vs ih => exact congrArg (fun more => ',' :: write v more) ih

private theorem writeMembers_eq (ms : List (String × Json)) (rest : List Char) :
    writeMembers ms rest = putMore writeMember ms rest := by
  induction ms with
  | nil => rfl
  | cons m ms ih => exact congrArg (fun more => ',' :: writeMember m more) ih

@[simp] theorem write_array_cons (v : Json) (vs : List Json) (rest : List Char) :
    write (.array (v :: vs)) rest = '[' :: write v (putMore write vs (']' :: rest)) := by
  rw [← writeItems_eq]
  rfl

@[simp] theorem write_object_cons (m : String × Json) (ms : List (String × Json)) (rest : List Char) :
    write (.object (m :: ms)) rest =
      '\x7b' :: writeMember m (putMore writeMember ms ('\x7d' :: rest)) := by
  rw [← writeMembers_eq]
  rfl

theorem length_le_writeMember {m : String × Json}
    (h : ∀ rest, rest.length ≤ (write m.2 rest).length) (rest : List Char) :
    rest.length ≤ (writeMember m rest).length := by
  have hm := h rest
  simp only [writeMember, writeString, List.length_cons, List.length_append]
  omega

theorem length_le_write (v : Json) (rest : List Char) : rest.length ≤ (write v rest).length := by
  induction v using induction_on generalizing rest with
  | null | natural | real => exact (List.suffix_append _ rest).length_le
  | bool b => cases b <;> exact (List.suffix_append _ rest).length_le
  | string s =>
    simp only [write_string, writeString, List.length_cons, List.length_append]
    omega
  | array items ih =>
    cases items with
    | nil => exact (List.suffix_append ['[', ']'] rest).length_le
    | cons v vs =>
      have hv := ih v List.mem_cons_self (putMore write vs (']' :: rest))
      have hvs := length_le_putMore (fun a ha => ih a (List.mem_cons_of_mem v ha)) (']' :: rest)
      simp only [write_array_cons, List.length_cons] at *
      omega
  | object members ih =>
    cases members with
    | nil => exact (List.suffix_append ['\x7b', '\x7d'] rest).length_le
    | cons m ms =>
      have hm := length_le_writeMember (ih m List.mem_cons_self)
        (putMore writeMember ms ('\x7d' :: rest))
      have hms : ms.length + ('\x7d' :: rest).length ≤
          (putMore writeMember ms ('\x7d' :: rest)).length :=
        length_le_putMore (fun a ha => length_le_writeMember (ih a (List.mem_cons_of_mem m ha))) _
      simp only [write_object_cons, List.length_cons] at *
      omega

def startsScalar (c : Char) : Bool := startsNumber c || ['n', 't', 'f', '"'].contains c

theorem ne_of_startsScalar {c d : Char} (hc : startsScalar c = true) (hd : startsScalar d = false) :
    c ≠ d := by
  rintro rfl
  simp [hc] at hd

private theorem isSpace_of_startsScalar {c : Char} (hc : startsScalar c = true) : isSpace c = false := by
  have hne : ∀ d, isSpace d = true → startsScalar d = false := by
    intro d hd
    simp only [isSpace, Bool.or_eq_true, beq_iff_eq] at hd
    rcases hd with ((rfl | rfl) | rfl) | rfl <;> rfl
  cases h : isSpace c with
  | false => rfl
  | true => simp [hne c h] at hc

def isScalar : Json → Bool
  | .array _ => false
  | .object _ => false
  | _ => true

theorem exists_startsScalar (v : Json) (hv : v.isScalar = true) (rest : List Char) :
    ∃ c more, write v rest = c :: more ∧ startsScalar c = true := by
  cases v with
  | null => exact ⟨'n', _, rfl, rfl⟩
  | bool b => cases b with
    | true => exact ⟨'t', _, rfl, rfl⟩
    | false => exact ⟨'f', _, rfl, rfl⟩
  | natural n =>
    obtain ⟨c, more, hcons, hc⟩ := exists_startsNumber false (digits_toDigits n.toNat) rest
    exact ⟨c, more, hcons, by simp [startsScalar, hc]⟩
  | real x =>
    rw [write_real, writeReal]
    split
    next =>
      obtain ⟨whole, part, htext, hwhole, -⟩ := exists_text x
      obtain ⟨c, more, hcons, hc⟩ := exists_startsNumber x.isNegative hwhole (part ++ rest)
      refine ⟨c, more, ?_, by simp [startsScalar, hc]⟩
      rw [htext, ← hcons, List.append_assoc, List.append_assoc]
    next => exact ⟨'n', _, rfl, rfl⟩
  | string s => exact ⟨'"', _, rfl, rfl⟩
  | array => cases hv
  | object => cases hv

private theorem opens_write (v : Json) (rest : List Char) : Opens (write v rest) := by
  by_cases hv : v.isScalar = true
  · obtain ⟨c, more, hcons, hc⟩ := exists_startsScalar v hv rest
    exact ⟨c, more, hcons, isSpace_of_startsScalar hc, ne_of_startsScalar hc rfl,
      ne_of_startsScalar hc rfl⟩
  · cases v with
    | array items => cases items <;> exact ⟨'[', _, rfl, rfl, by decide, by decide⟩
    | object members => cases members <;> exact ⟨'\x7b', _, rfl, rfl, by decide, by decide⟩
    | _ => simp [isScalar] at hv

theorem value?_scalar (v : Json) (hv : v.isScalar = true) (levels : Nat) (rest : List Char) :
    value? levels (write v rest) = scalar? (write v rest) := by
  obtain ⟨c, more, hcons, hc⟩ := exists_startsScalar v hv rest
  have hspace := skipSpace_cons (isSpace_of_startsScalar hc) more
  rw [hcons]
  cases levels with
  | zero => rw [value?, hspace]
  | succ levels =>
    simp only [value?, hspace, ne_of_startsScalar hc (d := '[') rfl,
      ne_of_startsScalar hc (d := '\x7b') rfl, if_false]

private theorem scalar?_bracket {c : Char} (hc : c = '[' ∨ c = '\x7b') (cs : List Char) :
    scalar? (c :: cs) = none := by
  rcases hc with rfl | rfl <;> rfl

theorem scalar?_writeReal (x : Binary64) (hrest : Delimited rest) :
    scalar? (writeReal x rest) = (rereadReal x).map fun v => (v, rest) := by
  unfold rereadReal writeReal
  split
  next =>
    obtain ⟨v, hv⟩ := exists_scalar?_text x
    rw [hv rest hrest, hv [] delimited_nil]
    cases v <;> rfl
  next => rfl

theorem rereadReal_of_not_finite {x : Binary64} (hx : x.isFinite = false) :
    rereadReal x = some .null := by
  rw [rereadReal, writeReal, hx]
  rfl

theorem member?_write {value : List Char → Option (Json × List Char)} {m : String × Json}
    {o : Option Json} (h : value (write m.2 rest) = o.map fun v => (v, rest)) :
    member? value (writeMember m rest) =
      (o.map fun v => (m.1, v)).map fun read => (read, rest) := by
  have hquote : ∀ cs, behind? ['"'] (skipSpace ('"' :: cs)) = some cs := fun _ => rfl
  have hcolon : ∀ cs, behind? [':'] (skipSpace (':' :: cs)) = some cs := fun _ => rfl
  simp only [member?, writeMember, writeString, hquote, stringRest?_flatMap_escaped,
    Option.bind_eq_bind, Option.bind_some, hcolon, h]
  cases o <;> simp

/-- A value is read as its text says, and reading stops at the end of that text. -/
theorem value?_write (v : Json) (levels : Nat) {rest : List Char} (hrest : Delimited rest) :
    value? levels (write v rest) = (v.reread levels).map fun v => (v, rest) := by
  induction v using induction_on generalizing levels rest with
  | null => rw [value?_scalar .null rfl]; rfl
  | bool b => rw [value?_scalar (.bool b) rfl]; cases b <;> rfl
  | natural n => rw [value?_scalar (.natural n) rfl]; exact scalar?_natural n hrest
  | real x => rw [value?_scalar (.real x) rfl]; exact scalar?_writeReal x hrest
  | string s =>
    rw [value?_scalar (.string s) rfl]
    simp [writeString, scalar?, stringRest?_flatMap_escaped, reread]
  | array items ih =>
    cases levels with
    | zero => cases items <;> exact scalar?_bracket (.inl rfl) _
    | succ levels =>
      cases items with
      | nil => rfl
      | cons v vs =>
        have hitems := enclosed_written (.inl rfl) (opens_write v (putMore write vs (']' :: rest)))
          (fun a _ => length_le_write a) fun a ha rest hrest => ih a ha levels hrest
        simp only [write_array_cons, value?, skipSpace_cons (c := '[') rfl, if_true, hitems, reread,
          rereadItems_eq_mapM]
        cases (v :: vs).mapM (·.reread levels) <;> rfl
  | object members ih =>
    cases levels with
    | zero => cases members <;> exact scalar?_bracket (.inr rfl) _
    | succ levels =>
      cases members with
      | nil => rfl
      | cons m ms =>
        have hopens : Opens (writeMember m (putMore writeMember ms ('\x7d' :: rest))) :=
          ⟨'"', _, rfl, rfl, by decide, by decide⟩
        have hmembers := enclosed_written (.inr rfl) hopens
          (fun a _ => length_le_writeMember (length_le_write a.2))
          fun a ha rest hrest => member?_write (ih a ha levels hrest)
        simp only [write_object_cons, value?, skipSpace_cons (c := '\x7b') rfl, if_true, hmembers,
          reread, rereadMembers_eq_mapM]
        cases (m :: ms).mapM fun m => (m.2.reread levels).map fun v => (m.1, v) <;> rfl

end Write

theorem parse?_text (v : Json) (levels : Nat) : parse? levels v.text = v.reread levels := by
  rw [parse?, text, String.toList_ofList, value?_write v levels delimited_nil]
  cases v.reread levels <;> rfl

end MiniGo.Json
