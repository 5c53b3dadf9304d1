import MiniGo.Json.Reader
import MiniGo.Json.Writer

/-!
Scalars in front of other text. A string and an integer are read back as they were written, and the
text of a double is read up to its end, whatever value it gives, as long as a comma, a closing
bracket or nothing follows.
-/
namespace MiniGo.Json
open Decimal (isDigit digitValue digitsValue)

/-- What may follow a written value. -/
def Delimited (rest : List Char) : Prop := ∀ c ∈ rest.head?, c = ',' ∨ c = ']' ∨ c = '\x7d'

@[simp] theorem delimited_nil : Delimited [] := by simp [Delimited]

theorem delimited_cons {c : Char} {cs : List Char} (h : c = ',' ∨ c = ']' ∨ c = '\x7d') :
    Delimited (c :: cs) := by
  simpa [Delimited] using h

def Digits (ds : List Char) : Prop := ds ≠ [] ∧ ∀ d ∈ ds, isDigit d = true

def NoDigit (cs : List Char) : Prop := ∀ c ∈ cs.head?, isDigit c = false

section Text

private theorem stringRest?_plain {c : Char} (hquote : c ≠ '"') (hbackslash : c ≠ '\\')
    (hcontrol : ¬ c.toNat < 0x20) (cs : List Char) :
    stringRest? (c :: cs) = (stringRest? cs).map fun (text, rest) => (c :: text, rest) := by
  rw [stringRest?.eq_def]
  simp only [hquote, hbackslash, hcontrol, if_false]

theorem stringRest?_named {e d : Char} (he : e ≠ 'u') (h : namedEscape? e = some d)
    (cs : List Char) :
    stringRest? ('\\' :: e :: cs) = (stringRest? cs).map fun (text, rest) => (d :: text, rest) := by
  rw [stringRest?.eq_def]
  simp [he, h]

private theorem stringRest?_unit {p q r s : Char} {n : Nat} (h : unit? p q r s = some n) (hn : n < 0x20)
    (cs : List Char) :
    stringRest? ('\\' :: 'u' :: p :: q :: r :: s :: cs) =
      (stringRest? cs).map fun (text, rest) => (Char.ofNat n :: text, rest) := by
  have hlow : isLowSurrogate n = false := by
    simp only [isLowSurrogate, Bool.and_eq_false_iff, decide_eq_false_iff_not]
    omega
  have hhigh : isHighSurrogate n = false := by
    simp only [isHighSurrogate, Bool.and_eq_false_iff, decide_eq_false_iff_not]
    omega
  rw [stringRest?.eq_def]
  simp [h, hlow, hhigh]

private theorem unit?_control : ∀ n < 0x20,
    unit? '0' '0' (Nat.digitChar (n / 16)) (Nat.digitChar (n % 16)) = some n := by
  decide

theorem stringRest?_escaped (c : Char) (cs : List Char) :
    stringRest? (escaped c ++ cs) = (stringRest? cs).map fun (text, rest) => (c :: text, rest) := by
  unfold escaped
  split
  next h => subst h; exact stringRest?_named (by decide) rfl cs
  next hquote =>
  split
  next h => subst h; exact stringRest?_named (by decide) rfl cs
  next hbackslash =>
  iterate 5
    split
    next h => subst h; exact stringRest?_named (by decide) rfl cs
  split
  next hcontrol =>
    have hunit := stringRest?_unit (unit?_control c.toNat hcontrol) hcontrol cs
    rwa [Char.ofNat_toNat] at hunit
  next hcontrol => exact stringRest?_plain hquote hbackslash hcontrol cs

theorem stringRest?_flatMap_escaped (s rest : List Char) :
    stringRest? (s.flatMap escaped ++ '"' :: rest) = some (s, rest) := by
  induction s with
  | nil =>
    rw [List.flatMap_nil, List.nil_append, stringRest?.eq_def]
    rfl
  | cons c s ih =>
    rw [List.flatMap_cons, List.append_assoc, stringRest?_escaped, ih]
    rfl

end Text

section Number

variable {ds cs rest : List Char}

theorem Delimited.noDigit (h : Delimited rest) : NoDigit rest := by
  intro c hc
  rcases h c hc with rfl | rfl | rfl <;> rfl

theorem digits_toDigits (n : Nat) : Digits (Nat.toDigits 10 n) :=
  ⟨Nat.toDigits_ne_nil, fun _ => Nat.isDigit_of_mem_toDigits (by decide) (by decide)⟩

private theorem digits_append {es : List Char} (hne : ds ++ es ≠ []) (hd : ∀ d ∈ ds, isDigit d = true)
    (he : ∀ e ∈ es, isDigit e = true) : Digits (ds ++ es) := by
  refine ⟨hne, fun c hc => ?_⟩
  rcases List.mem_append.1 hc with h | h
  · exact hd c h
  · exact he c h

theorem takeWhile_digits (hd : Digits ds) (hcs : NoDigit cs) :
    (ds ++ cs).takeWhile isDigit = ds := by
  rw [List.takeWhile_append_of_pos hd.2]
  cases cs with
  | nil => simp
  | cons c cs => simp [hcs c rfl]

theorem dropWhile_digits (hd : Digits ds) (hcs : NoDigit cs) :
    (ds ++ cs).dropWhile isDigit = cs := by
  rw [List.dropWhile_append_of_pos hd.2]
  cases cs with
  | nil => simp
  | cons c cs => simp [hcs c rfl]

private theorem fraction?_point (hd : Digits ds) (hcs : NoDigit cs) :
    fraction? ('.' :: (ds ++ cs)) = some (some ds, cs) := by
  rw [fraction?, takeWhile_digits hd hcs, dropWhile_digits hd hcs]
  simp [hd.1]

private theorem fraction?_of_ne (h : cs.head? ≠ some '.') : fraction? cs = some (none, cs) := by
  unfold fraction?
  split
  · simp at h
  · rfl

def signed (negative : Bool) (ds : List Char) : List Char := (if negative then '-' else '+') :: ds

private theorem exponent?_letter (negative : Bool) (hd : Digits ds) (hcs : NoDigit cs) :
    exponent? ('e' :: (signed negative ds ++ cs)) =
      some (some (if negative then -(digitsValue ds : Int) else digitsValue ds), cs) := by
  have hsign : Decimal.splitSign (signed negative ds ++ cs) = (negative, ds ++ cs) := by
    cases negative <;> rfl
  simp [exponent?, hsign, takeWhile_digits hd hcs, dropWhile_digits hd hcs, hd.1]

private theorem exponent?_delimited (h : Delimited rest) : exponent? rest = some (none, rest) := by
  cases rest with
  | nil => rfl
  | cons c cs => rcases h c rfl with rfl | rfl | rfl <;> rfl

/-- What stands behind the whole digits of a number: a fraction and an exponent, or one of them. -/
inductive Tail : List Char → Prop where
  | fraction {ds : List Char} (hd : Digits ds) : Tail ('.' :: ds)
  | exponent {es : List Char} (negative : Bool) (he : Digits es) : Tail ('e' :: signed negative es)
  | both {ds es : List Char} (negative : Bool) (hd : Digits ds) (he : Digits es) :
      Tail ('.' :: (ds ++ 'e' :: signed negative es))

theorem NoDigit.of_cons {c : Char} (hc : isDigit c = false) : NoDigit (c :: cs) := by
  simpa [NoDigit] using hc

theorem Tail.reads {part : List Char} (h : Tail part) :
    ∃ f e, ∀ rest, Delimited rest → NoDigit (part ++ rest) ∧
      ∃ middle, fraction? (part ++ rest) = some (f, middle) ∧ exponent? middle = some (e, rest) := by
  cases h with
  | @fraction ds hd =>
    refine ⟨some ds, none, fun rest hrest => ⟨.of_cons rfl, rest, ?_, exponent?_delimited hrest⟩⟩
    exact fraction?_point hd hrest.noDigit
  | @exponent es negative he =>
    exact ⟨none, _, fun rest hrest => ⟨.of_cons rfl, _, fraction?_of_ne (by simp),
      exponent?_letter negative he hrest.noDigit⟩⟩
  | @both ds es negative hd he =>
    refine ⟨some ds, _, fun rest hrest => ⟨.of_cons rfl, 'e' :: (signed negative es ++ rest), ?_,
      exponent?_letter negative he hrest.noDigit⟩⟩
    rw [List.cons_append, List.append_assoc]
    exact fraction?_point hd (.of_cons rfl)

def minus (negative : Bool) : List Char := if negative then ['-'] else []

theorem Digits.exists_cons (hd : Digits ds) : ∃ d es, ds = d :: es ∧ isDigit d = true := by
  obtain ⟨d, es, rfl⟩ := List.exists_cons_of_ne_nil hd.1
  exact ⟨d, es, rfl, hd.2 d List.mem_cons_self⟩

theorem numberText?_digits (negative : Bool) (hd : Digits ds) (hcs : NoDigit cs)
    {f : Option (List Char)} {e : Option Int} {middle : List Char}
    (hf : fraction? cs = some (f, middle)) (he : exponent? middle = some (e, rest)) :
    numberText? (minus negative ++ (ds ++ cs)) =
      if ds.head? = some '0' ∧ ds.length ≠ 1 then none
      else some (⟨negative, ds, f, e⟩, rest) := by
  obtain ⟨d, es, rfl, hdigit⟩ := hd.exists_cons
  have hne : d ≠ '-' := by
    rintro rfl
    cases hdigit
  have htake : (d :: (es ++ cs)).takeWhile isDigit = d :: es := takeWhile_digits hd hcs
  have hdrop : (d :: (es ++ cs)).dropWhile isDigit = cs := dropWhile_digits hd hcs
  cases negative <;> simp [numberText?, minus, hne, htake, hdrop, hf, he, apply_ite]

end Number

section Layout

variable {ds : List Char}

private theorem isDigit_replicate (n : Nat) : ∀ d ∈ List.replicate n '0', isDigit d = true := by
  intro d hd
  rw [List.eq_of_mem_replicate hd]
  rfl

@[simp] theorem digits_zero : Digits ['0'] := ⟨by simp, by simp; rfl⟩

theorem exists_layout (hd : Digits ds) (point : Int) :
    ∃ whole part, Decimal.layout ds point = whole ++ part ∧ Digits whole ∧ Tail part := by
  unfold Decimal.layout
  dsimp only
  split
  next =>
    exact ⟨_, ['.', '0'], rfl, digits_append (by simp [hd.1]) hd.2 (isDigit_replicate _),
      .fraction digits_zero⟩
  next hlong =>
  split
  next hpoint =>
    have hsplit : 0 < point.toNat ∧ point.toNat < ds.length := by
      simp only [Bool.and_eq_true, decide_eq_true_eq] at hlong hpoint
      omega
    refine ⟨_, _, rfl, ⟨?_, fun d h => hd.2 d (List.mem_of_mem_take h)⟩,
      .fraction ⟨?_, fun d h => hd.2 d (List.mem_of_mem_drop h)⟩⟩
    · simp [hd.1]; omega
    · simp; omega
  next =>
  split
  next =>
    exact ⟨['0'], '.' :: (List.replicate (-point).toNat '0' ++ ds), by simp, digits_zero,
      .fraction (digits_append (by simp [hd.1]) (isDigit_replicate _) hd.2)⟩
  next =>
    have hpower : ((if point - 1 < 0 then '-' else '+') :: Nat.toDigits 10 (point - 1).natAbs) =
        signed (decide (point - 1 < 0)) (Nat.toDigits 10 (point - 1).natAbs) := by
      simp [signed]
    obtain ⟨d, es, rfl, hdigit⟩ := hd.exists_cons
    have hone : Digits [d] := ⟨by simp, by simpa using hdigit⟩
    rw [hpower]
    cases es with
    | nil => exact ⟨[d], _, rfl, hone, .exponent _ (digits_toDigits _)⟩
    | cons e es =>
      have hmore : Digits (e :: es) := ⟨by simp, fun c h => hd.2 c (List.mem_cons_of_mem d h)⟩
      exact ⟨[d], _, rfl, hone, .both _ hmore (digits_toDigits _)⟩

theorem exists_text (x : Binary64) : ∃ whole part,
    Decimal.text x = minus x.isNegative ++ (whole ++ part) ∧ Digits whole ∧ Tail part := by
  unfold Decimal.text
  dsimp only
  split
  next => exact ⟨['0'], ['.', '0'], rfl, digits_zero, .fraction digits_zero⟩
  next =>
    obtain ⟨whole, part, hlayout, hwhole, hpart⟩ := exists_layout (digits_toDigits _) _
    exact ⟨whole, part, by rw [hlayout]; rfl, hwhole, hpart⟩

end Layout

section Value

variable {ds cs rest : List Char}

def startsNumber (c : Char) : Bool := isDigit c || c == '-'

theorem ne_of_startsNumber {c d : Char} (hc : startsNumber c = true) (hd : startsNumber d = false) :
    c ≠ d := by
  rintro rfl
  simp [hc] at hd

theorem exists_startsNumber (negative : Bool) (hd : Digits ds) (cs : List Char) :
    ∃ c more, minus negative ++ (ds ++ cs) = c :: more ∧ startsNumber c = true := by
  obtain ⟨d, es, rfl, hdigit⟩ := hd.exists_cons
  cases negative with
  | true => exact ⟨'-', _, rfl, rfl⟩
  | false => exact ⟨d, _, rfl, by simp [startsNumber, hdigit]⟩

theorem scalar?_number {c : Char} (hc : startsNumber c = true) :
    scalar? (c :: cs) =
      (numberText? (c :: cs)).bind fun read => read.1.value?.map fun v => (v, read.2) := by
  simp only [scalar?, ne_of_startsNumber hc (d := '"') rfl, ne_of_startsNumber hc (d := 'n') rfl,
    ne_of_startsNumber hc (d := 't') rfl, ne_of_startsNumber hc (d := 'f') rfl, if_false]
  cases numberText? (c :: cs) with
  | none => rfl
  | some read => cases h : read.1.value? <;> simp [h]

theorem scalar?_digits (negative : Bool) (hd : Digits ds) (hcs : NoDigit cs)
    {f : Option (List Char)} {e : Option Int} {middle : List Char}
    (hf : fraction? cs = some (f, middle)) (he : exponent? middle = some (e, rest)) :
    scalar? (minus negative ++ (ds ++ cs)) =
      (if ds.head? = some '0' ∧ ds.length ≠ 1 then none
        else NumberText.value? ⟨negative, ds, f, e⟩).map fun v => (v, rest) := by
  obtain ⟨c, more, hcons, hc⟩ := exists_startsNumber negative hd cs
  rw [hcons, scalar?_number hc, ← hcons, numberText?_digits negative hd hcs hf he]
  split <;> rfl

/-- The text of a double is read as a value up to its end, or not at all. -/
theorem exists_scalar?_text (x : Binary64) : ∃ v : Option Json, ∀ rest, Delimited rest →
    scalar? (Decimal.text x ++ rest) = v.map fun v => (v, rest) := by
  obtain ⟨whole, part, htext, hwhole, hpart⟩ := exists_text x
  obtain ⟨f, e, hreads⟩ := hpart.reads
  refine ⟨if whole.head? = some '0' ∧ whole.length ≠ 1 then none
    else NumberText.value? ⟨x.isNegative, whole, f, e⟩, fun rest hrest => ?_⟩
  obtain ⟨hnoDigit, middle, hf, he⟩ := hreads rest hrest
  rw [htext, List.append_assoc, List.append_assoc]
  exact scalar?_digits x.isNegative hwhole hnoDigit hf he

private theorem head?_toDigits {n : Nat} (hn : 0 < n) : (Nat.toDigits 10 n).head? ≠ some '0' := by
  have hdigit : ∀ d < 10, 0 < d → Nat.digitChar d ≠ '0' := by decide
  induction n using Nat.strongRecOn with
  | ind n ih =>
    by_cases hlt : n < 10
    · simpa [Nat.toDigits_of_lt_base hlt] using hdigit n hlt hn
    · rw [Nat.toDigits_of_base_le (by decide) (by omega), List.head?_append]
      obtain ⟨d, ds, hcons⟩ := List.exists_cons_of_ne_nil (Nat.toDigits_ne_nil (n := n / 10) (b := 10))
      have h := ih (n / 10) (by omega) (by omega)
      simpa [hcons] using h

private theorem length_toDigits_of_head? {n : Nat} (h : (Nat.toDigits 10 n).head? = some '0') :
    (Nat.toDigits 10 n).length = 1 := by
  cases n with
  | zero => rfl
  | succ n => exact absurd h (head?_toDigits n.succ_pos)

private theorem le_extended (n : Nat) (ds : List Char) :
    n ≤ ds.foldl (fun n d => 10 * n + digitValue d) n := by
  induction ds generalizing n with
  | nil => exact Nat.le_refl n
  | cons d ds ih => exact Nat.le_trans (by omega) (ih (10 * n + digitValue d))

private theorem extend_of_lt {n : Nat} {ds : List Char}
    (h : ds.foldl (fun n d => 10 * n + digitValue d) n < Nat.pow 2 64) :
    extend n ds = (ds.foldl (fun n d => 10 * n + digitValue d) n, 0) := by
  induction ds generalizing n with
  | nil => rfl
  | cons d ds ih =>
    rw [extend, if_pos (Nat.lt_of_le_of_lt (le_extended _ ds) h)]
    exact ih h

private theorem extend_toDigits (n : UInt64) : extend 0 (Nat.toDigits 10 n.toNat) = (n.toNat, 0) := by
  have hvalue : (Nat.toDigits 10 n.toNat).foldl (fun n d => 10 * n + digitValue d) 0 = n.toNat :=
    Nat.ofDigitChars_toDigits (by decide) (by decide)
  rw [extend_of_lt (by rw [hvalue]; exact n.toNat_lt), hvalue]

theorem scalar?_natural (n : UInt64) (hrest : Delimited rest) :
    scalar? (Nat.toDigits 10 n.toNat ++ rest) = some (.natural n, rest) := by
  have hpoint : rest.head? ≠ some '.' := by
    intro h
    have := hrest '.' h
    revert this
    decide
  have h := scalar?_digits false (digits_toDigits n.toNat) hrest.noDigit (fraction?_of_ne hpoint)
    (exponent?_delimited hrest)
  rw [if_neg fun hzero => hzero.2 (length_toDigits_of_head? hzero.1)] at h
  refine h.trans ?_
  simp [NumberText.value?, extend_toDigits]

end Value

end MiniGo.Json
