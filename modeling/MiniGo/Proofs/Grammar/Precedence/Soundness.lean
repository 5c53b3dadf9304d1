import MiniGo.Proofs.Grammar.Precedence
import MiniGo.Proofs.Grammar.Run

/-!
The expression rule reads only what the precedence grammar derives. The loop behind an operand keeps
that the left side is an expression of a level to which the operator at the current token may still
apply; a right operand stops in front of exactly those operators.
-/
namespace MiniGo.Grammar

def Power.level : Power → Level
  | .lowest | .logicalOr => .or
  | .logicalAnd => .and
  | .relational => .relational
  | .additive => .additive
  | .multiplicative => .multiplicative
  | .unary => .unary
  | .call | .member => .suffixed
  | .primary => .primary

def Power.above : Power → Level
  | .lowest => .or
  | .logicalOr => .and
  | .logicalAnd => .relational
  | .relational => .additive
  | .additive => .multiplicative
  | .multiplicative | .unary | .call | .member | .primary => .unary

theorem Power.above_rank_le {p q : Power} (h : p.rank < q.rank) : p.above.rank ≤ q.level.rank := by
  revert h
  cases p <;> cases q <;> decide

theorem Power.above_rank_le_unary (p : Power) : p.above.rank ≤ Level.unary.rank := by
  cases p <;> decide

theorem Power.level_rank_le {p q : Power} (h : p.rank ≤ q.rank) : p.level.rank ≤ q.level.rank := by
  revert h
  cases p <;> cases q <;> decide

/-- The operator that continues an expression: the one at the current token, except that a brace
behind anything but a name, or where struct literals are not allowed, opens a block. -/
def Continues (s : State) (left : Node) (q : Power) (form : OperatorForm) : Prop :=
  Table.standard.operator s.current.kind = some (q, form) ∧
    (s.current.kind = .openCurly → s.structLiterals = true ∧ isIdentifier left = true)

/-- The expression that was read does not go on with an operator above a power. -/
def Stops (p : Power) (e : Node) (t : State) : Prop :=
  ∀ q form, Continues t e q form → q.rank ≤ p.rank

section Table

variable {k : TokenKind} {q : Power}

private theorem operator_ne_eof {form : OperatorForm} (h : Table.standard.operator k = some (q, form)) :
    k ≠ .eof := by
  rintro rfl
  exact absurd h nofun

theorem operator_rank_le {form : OperatorForm} (h : Table.standard.operator k = some (q, form)) :
    q.level.rank ≤ Level.suffixed.rank := by
  cases k <;> cases h <;> decide

private theorem operator_binary (h : Table.standard.operator k = some (q, .binary)) :
    k ∈ q.level.operators ∧ q.above = q.level.tighter := by
  cases k <;> cases h <;> decide

private theorem operator_suffixed {form : OperatorForm} (h : Table.standard.operator k = some (q, form))
    (hform : form ≠ .binary) : q.level = .suffixed := by
  cases k <;> cases h <;> first | rfl | exact absurd rfl hform

private theorem operator_structLiteral (h : Table.standard.operator k = some (q, .structLiteral)) :
    k = .openCurly := by
  cases k <;> cases h
  rfl

end Table

variable {c : Setting} {below : Below}

theorem runs_tailTurn (hc : c.table = .standard) {p : Power} {left : Node} {h : Nat} {s t : State}
    {x : Turn (Node × Nat)} :
    Rule.Runs (tailTurn below p (left, h)) c s x t ↔
      (x = .done (left, h) ∧ t = s ∧ Stops p left s) ∨
        ∃ q form e n u, Continues s left q form ∧ p.rank < q.rank ∧
          Rule.Runs (measured (operatorOf below left q form)) c s (e, n) u ∧
            Rule.Runs (reach (max n (h + 1))) c u () t ∧ x = .more (e, max n (h + 1)) := by
  have hblocked : (decide (s.current.kind = .openCurly) &&
      !(s.structLiterals && isIdentifier left)) = true ↔
        ¬ (s.current.kind = .openCurly → s.structLiterals = true ∧ isIdentifier left = true) := by
    cases s.structLiterals <;> simp
  simp only [tailTurn, runs_kind_bind, runs_get_bind, runs_read_bind, runs_ite, runs_pure, hblocked,
    hc, Classical.not_not]
  unfold Stops Continues
  by_cases hb : s.current.kind = .openCurly → s.structLiterals = true ∧ isIdentifier left = true
  · simp only [eq_true hb, not_true_eq_false, false_and, false_or, true_and, and_true]
    split
    · rename_i hop
      simp [hop]
    · rename_i q form hop
      simp only [hop, runs_ite, runs_pure, runs_bind, Option.some.injEq, Prod.mk.injEq, and_assoc]
      constructor
      · rintro (⟨hle, hx, ht⟩ | ⟨hlt, ⟨e, n⟩, u, hm, _, _, hr, hx, rfl⟩)
        · exact .inl ⟨hx, ht, fun _ _ hq => hq.1 ▸ hle⟩
        · exact .inr ⟨q, form, e, n, u, rfl, rfl, Nat.not_le.1 hlt, hm, hr, hx⟩
      · rintro (⟨hx, ht, hle⟩ | ⟨_, _, e, n, u, rfl, rfl, hlt, hm, hr, hx⟩)
        · exact .inl ⟨hle q form ⟨rfl, rfl⟩, hx, ht⟩
        · exact .inr ⟨Nat.not_le.2 hlt, (e, n), u, hm, (), t, hr, hx, rfl⟩
  · simp only [eq_false hb, not_false_eq_true, true_and, and_false, false_and, or_false]
    simp

/-- A state on tokens without function literals, of which the last is the end of the input. -/
structure Plain (s : State) : Prop where
  ended : s.Ended
  noFunc : ∀ k ∈ s.tokens, k.kind ≠ .funcWord

theorem Plain.of_passes {s t : State} {w : List Token} (hs : Plain s) (h : Passes s w t) :
    Plain t := by
  refine ⟨hs.ended.of_passes h, ?_⟩
  intro k hk
  apply hs.noFunc
  rw [h.1]
  exact List.mem_append_right w hk

theorem Plain.withFlag {s : State} (hs : Plain s) (f : Bool) :
    Plain { s with structLiterals := f } := ⟨hs.ended, hs.noFunc⟩

theorem Plain.next {s : State} {k : TokenKind} (hs : Plain s) (hk : s.current.kind = k)
    (hne : k ≠ .eof) : Passes s [s.current] s.next ∧ Plain s.next := by
  have hp := hs.ended.passes_next (hk ▸ hne)
  exact ⟨hp, hs.of_passes hp⟩

/-- The rules one level down read expressions of the grammar, up to where they stop. -/
def Sound (c : Setting) (below : Below) : Prop :=
  ∀ p s e t, Plain s → Rule.Runs (below (.expression p)) c s e t →
    ∃ w, w ≠ [] ∧ Passes s w t ∧ Derives s.structLiterals p.above w e ∧ Stops p e t

section Lists

variable {close : TokenKind} {message : String} {item : Rule Node} {P : List Token → Node → Prop}

theorem separated_sound
    (hitem : ∀ s a t, Plain s → s.structLiterals = true → Rule.Runs item c s a t →
      ∃ w, w ≠ [] ∧ Passes s w t ∧ P w a)
    {s t : State} {as : List Node} (hs : Plain s) (hf : s.structLiterals = true)
    (h : Rule.Runs (separated close message item) c s as t) :
    ∃ (parts : List (List Token × Node)) (v : List Token), as = parts.map Prod.snd ∧
      (∀ q ∈ parts, P q.1 q.2) ∧ Separated (parts.map Prod.fst) v ∧ Passes s v t := by
  have hcomma : ∀ u : State, Plain u → u.current.kind = .comma →
      Passes u [u.current] u.next ∧ Plain u.next := fun u hu hk => hu.next hk (by decide)
  have hprogress : ∀ s a t, (Plain s ∧ s.structLiterals = true) →
      Rule.Runs (separatedItem close message item) c s (some a) t →
        (Plain t ∧ t.structLiterals = true) ∧ t.later.length < s.later.length := by
    rintro s a t ⟨hs, hf⟩ h
    obtain ⟨-, u, hu, hcase⟩ := runs_separatedItem_some.1 h
    obtain ⟨w, hne, hp, -⟩ := hitem s a u hs hf hu
    rcases hcase with ⟨-, rfl⟩ | ⟨-, hk, rfl⟩
    · exact ⟨⟨hs.of_passes hp, hp.2.trans hf⟩, hp.length_lt hne⟩
    · obtain ⟨hp', hplain⟩ := hcomma u (hs.of_passes hp) hk
      have hpass := hp.trans hp'
      exact ⟨⟨hplain, hpass.2.trans hf⟩, hpass.length_lt (by simp)⟩
  rw [separated_eq] at h
  have hrepeats := repeats_of_many hprogress ⟨hs, hf⟩ h
  clear h
  induction hrepeats with
  | done h =>
    obtain ⟨-, rfl⟩ := runs_separatedItem_none.1 h
    exact ⟨[], [], rfl, nofun, .nil, .refl _⟩
  | @more s t u a as ha _ hrest ih =>
    obtain ⟨-, v, hv, hcase⟩ := runs_separatedItem_some.1 ha
    obtain ⟨w, -, hp, hP⟩ := hitem s a v hs hf hv
    rcases hcase with ⟨hk, rfl⟩ | ⟨-, hk, rfl⟩
    · cases hrest with
      | done h =>
        obtain ⟨-, rfl⟩ := runs_separatedItem_none.1 h
        exact ⟨[(w, a)], w, rfl, by simpa using hP, .last, hp⟩
      | more h _ _ => exact absurd hk (runs_separatedItem_some.1 h).1
    · obtain ⟨hp', hplain⟩ := hcomma v (hs.of_passes hp) hk
      obtain ⟨parts, x, rfl, hparts, hsep, hpx⟩ := ih hplain ((hp.trans hp').2.trans hf)
      refine ⟨(w, a) :: parts, w ++ v.current :: x, rfl, ?_, .cons hk hsep, ?_⟩
      · simpa using ⟨hP, fun a b => hparts (a, b)⟩
      · simpa using (hp.trans hp').trans hpx

end Lists

section Operators

variable {s t : State} {w : List Token} {left e : Node} {q : Power}

theorem bracketed_sound (hb : Sound c below) (hs : Plain s)
    (h : Rule.Runs (withStructLiterals true (below (.expression .lowest))) c s e t) :
    ∃ v, Passes s v t ∧ Derives true .or v e := by
  obtain ⟨u, hu, rfl⟩ := runs_withStructLiterals.1 h
  obtain ⟨v, -, hp, hd, -⟩ := hb _ _ _ _ (hs.withFlag true) hu
  exact ⟨v, ⟨hp.1, rfl⟩, hd⟩

theorem binary_sound (hb : Sound c below) (hs : Plain s)
    (hop : Table.standard.operator s.current.kind = some (q, .binary))
    (hleft : Derives s.structLiterals q.level w left)
    (h : Rule.Runs (binary below left q) c s e t) :
    ∃ v, v ≠ [] ∧ Passes s v t ∧ Derives s.structLiterals q.level (w ++ v) e ∧
      ∀ q' form, Continues t e q' form → q'.level.rank ≤ q.level.rank := by
  simp only [binary, runs_advance_bind] at h
  obtain ⟨r, u, hr, h⟩ := runs_bind.1 h
  obtain ⟨rfl, rfl⟩ := runs_pure.1 h
  obtain ⟨hkind, habove⟩ := operator_binary hop
  obtain ⟨hp, hplain⟩ := hs.next rfl (operator_ne_eof hop)
  obtain ⟨v, -, hp', hd, hstops⟩ := hb _ _ _ _ hplain hr
  rw [hp.2, habove] at hd
  refine ⟨s.current :: v, by simp, hp.trans hp', .binary hkind hleft hd, ?_⟩
  intro q' form hcont
  have hnot : t.current.kind ≠ .openCurly := fun hk => by simpa [isIdentifier] using hcont.2 hk
  exact Power.level_rank_le (hstops q' form ⟨hcont.1, fun hk => absurd hk hnot⟩)

theorem call_sound (hb : Sound c below) (hs : Plain s)
    (hleft : Derives s.structLiterals .suffixed w left) (h : Rule.Runs (call below left) c s e t) :
    ∃ v, v ≠ [] ∧ Passes s v t ∧ Derives s.structLiterals .suffixed (w ++ v) e := by
  simp only [call, runs_expect_bind] at h
  obtain ⟨hopen, h⟩ := h
  obtain ⟨args, u, hargs, h⟩ := runs_bind.1 h
  simp only [runs_expect_bind, runs_pure] at h
  obtain ⟨hclose, rfl, rfl⟩ := h
  obtain ⟨hp, hplain⟩ := hs.next hopen (by decide)
  obtain ⟨x, hx, rfl⟩ := runs_withStructLiterals.1 hargs
  have hitem : ∀ s a t, Plain s → s.structLiterals = true →
      Rule.Runs (below (.expression .lowest)) c s a t →
        ∃ w, w ≠ [] ∧ Passes s w t ∧ Derives true .or w a := by
    intro s a t hs hf h
    obtain ⟨w, hne, hp, hd, -⟩ := hb _ _ _ _ hs h
    exact ⟨w, hne, hp, hf ▸ hd⟩
  obtain ⟨parts, v, rfl, hparts, hsep, hpv⟩ :=
    separated_sound hitem (hplain.withFlag true) rfl hx
  have hp' : Passes s.next v { x with structLiterals := s.next.structLiterals } := ⟨hpv.1, rfl⟩
  obtain ⟨hp'', -⟩ := (hplain.of_passes hp').next hclose (by decide)
  exact ⟨_, by simp, (hp.trans hp').trans hp'', .call hopen hclose hleft hparts hsep⟩

theorem index_sound (hb : Sound c below) (hs : Plain s)
    (hleft : Derives s.structLiterals .suffixed w left) (h : Rule.Runs (index below left) c s e t) :
    ∃ v, v ≠ [] ∧ Passes s v t ∧ Derives s.structLiterals .suffixed (w ++ v) e := by
  simp only [index, runs_expect_bind] at h
  obtain ⟨hopen, h⟩ := h
  obtain ⟨i, u, hi, h⟩ := runs_bind.1 h
  simp only [runs_expectOr_bind, runs_pure] at h
  obtain ⟨hclose, rfl, rfl⟩ := h
  obtain ⟨hp, hplain⟩ := hs.next hopen (by decide)
  obtain ⟨v, hp', hd⟩ := bracketed_sound hb hplain hi
  obtain ⟨hp'', -⟩ := (hplain.of_passes hp').next hclose (by decide)
  exact ⟨_, by simp, (hp.trans hp').trans hp'', .index hopen hclose hleft hd⟩

theorem member_sound (hs : Plain s) (hleft : Derives s.structLiterals .suffixed w left)
    (h : Rule.Runs (member left) c s e t) :
    ∃ v, v ≠ [] ∧ Passes s v t ∧ Derives s.structLiterals .suffixed (w ++ v) e := by
  simp only [member, runs_expect_bind, runs_expectOr_bind, runs_pure] at h
  obtain ⟨hdot, hfield, rfl, rfl⟩ := h
  obtain ⟨hp, hplain⟩ := hs.next hdot (by decide)
  obtain ⟨hp', -⟩ := hplain.next hfield (by decide)
  exact ⟨_, by simp, hp.trans hp', .member hdot hfield hleft⟩

theorem fieldValue_sound (hb : Sound c below) (hs : Plain s) (hf : s.structLiterals = true)
    (h : Rule.Runs (fieldValue below) c s e t) :
    ∃ v, v ≠ [] ∧ Passes s v t ∧
      ∃ p : Field, v = p.tokens ∧ e = p.node ∧ Derives true .or p.value p.tree := by
  simp only [fieldValue, runs_expectOr_bind] at h
  obtain ⟨hname, hcolon, h⟩ := h
  obtain ⟨a, u, ha, h⟩ := runs_bind.1 h
  obtain ⟨rfl, rfl⟩ := runs_pure.1 h
  obtain ⟨hp, hplain⟩ := hs.next hname (by decide)
  obtain ⟨hp', hplain'⟩ := hplain.next hcolon (by decide)
  obtain ⟨v, -, hp'', hd, -⟩ := hb _ _ _ _ hplain' ha
  rw [hp'.2, hp.2, hf] at hd
  exact ⟨_, by simp, (hp.trans hp').trans hp'', ⟨_, _, v, a, hname, hcolon⟩, rfl, rfl, hd⟩

private theorem exists_fields {parts : List (List Token × Node)}
    (h : ∀ q ∈ parts, ∃ p : Field, q.1 = p.tokens ∧ q.2 = p.node ∧ Derives true .or p.value p.tree) :
    ∃ fields : List Field, parts = fields.map (fun p => (p.tokens, p.node)) ∧
      ∀ p ∈ fields, Derives true .or p.value p.tree := by
  induction parts with
  | nil => exact ⟨[], rfl, List.forall_mem_nil _⟩
  | cons q parts ih =>
    obtain ⟨fields, rfl, hfields⟩ := ih fun q hq => h q (List.mem_cons_of_mem _ hq)
    obtain ⟨p, htokens, hnode, hd⟩ := h q List.mem_cons_self
    refine ⟨p :: fields, ?_, List.forall_mem_cons.2 ⟨hd, hfields⟩⟩
    rw [List.map_cons, ← htokens, ← hnode]

theorem structLiteral_sound (hb : Sound c below) (hs : Plain s) (hf : s.structLiterals = true)
    (hleft : Derives s.structLiterals .suffixed w left)
    (h : Rule.Runs (structLiteral below left) c s e t) :
    ∃ v, v ≠ [] ∧ Passes s v t ∧ Derives s.structLiterals .suffixed (w ++ v) e := by
  unfold structLiteral at h
  split at h
  · simp only [runs_expect_bind] at h
    obtain ⟨hopen, h⟩ := h
    obtain ⟨fields, u, hfields, h⟩ := runs_bind.1 h
    simp only [runs_expect_bind, runs_pure] at h
    obtain ⟨hclose, rfl, rfl⟩ := h
    obtain ⟨hp, hplain⟩ := hs.next hopen (by decide)
    obtain ⟨x, hx, rfl⟩ := runs_withStructLiterals.1 hfields
    obtain ⟨parts, v, rfl, hparts, hsep, hpv⟩ :=
      separated_sound (fun _ _ _ hs hf h => fieldValue_sound hb hs hf h) (hplain.withFlag true) rfl hx
    obtain ⟨fields, rfl, hd⟩ := exists_fields hparts
    have hp' : Passes s.next v { x with structLiterals := s.next.structLiterals } := ⟨hpv.1, rfl⟩
    obtain ⟨hp'', -⟩ := (hplain.of_passes hp').next hclose (by decide)
    rw [List.map_map] at hsep ⊢
    rw [hf] at hleft ⊢
    exact ⟨_, by simp, (hp.trans hp').trans hp'', .structLiteral hopen hclose hleft hd hsep⟩
  · exact absurd h not_runs_unexpected

theorem operatorOf_sound (hb : Sound c below) (hs : Plain s) {form : OperatorForm}
    (hcont : Continues s left q form) (hleft : Derives s.structLiterals q.level w left)
    (h : Rule.Runs (operatorOf below left q form) c s e t) :
    ∃ v, v ≠ [] ∧ Passes s v t ∧ Derives s.structLiterals q.level (w ++ v) e ∧
      ∀ q' form, Continues t e q' form → q'.level.rank ≤ q.level.rank := by
  have hop := hcont.1
  by_cases hform : form = .binary
  · subst hform
    exact binary_sound hb hs hop hleft h
  · rw [operator_suffixed hop hform] at hleft ⊢
    have hsuffix : ∃ v, v ≠ [] ∧ Passes s v t ∧ Derives s.structLiterals .suffixed (w ++ v) e := by
      cases form with
      | binary => exact absurd rfl hform
      | call => exact call_sound hb hs hleft h
      | index => exact index_sound hb hs hleft h
      | structLiteral =>
        have hallowed := (hcont.2 (operator_structLiteral hop)).1
        exact structLiteral_sound hb hs hallowed hleft h
      | member => exact member_sound hs hleft h
    obtain ⟨v, hne, hp, hd⟩ := hsuffix
    exact ⟨v, hne, hp, hd, fun _ _ h => operator_rank_le h.1⟩

end Operators

section Operands

variable {s t : State} {e : Node}

theorem primary_sound (hs : Plain s) (h : Rule.Runs primary c s e t) :
    Passes s [s.current] t ∧ Derives s.structLiterals .primary [s.current] e := by
  simp only [primary, runs_advance_bind] at h
  split at h
  · rename_i hk
    split at h
    · rename_i x hx
      obtain ⟨rfl, rfl⟩ := runs_pure.1 h
      exact ⟨(hs.next hk (by decide)).1, .number hk hx⟩
    · exact absurd h not_runs_failAt
  · rename_i hk
    obtain ⟨rfl, rfl⟩ := runs_pure.1 h
    exact ⟨(hs.next hk (by decide)).1, .string hk⟩
  · rename_i hk
    obtain ⟨rfl, rfl⟩ := runs_pure.1 h
    exact ⟨(hs.next hk (by decide)).1, .boolean hk⟩
  · rename_i hk
    obtain ⟨rfl, rfl⟩ := runs_pure.1 h
    exact ⟨(hs.next hk (by decide)).1, .identifier hk⟩
  · exact absurd h not_runs_failAt

theorem grouping_sound (hb : Sound c below) (hs : Plain s)
    (h : Rule.Runs (grouping below) c s e t) :
    ∃ v, v ≠ [] ∧ Passes s v t ∧ Derives s.structLiterals .primary v e := by
  simp only [grouping, runs_expect_bind] at h
  obtain ⟨hopen, h⟩ := h
  obtain ⟨a, u, ha, h⟩ := runs_bind.1 h
  simp only [runs_expectOr_bind, runs_pure] at h
  obtain ⟨hclose, rfl, rfl⟩ := h
  obtain ⟨hp, hplain⟩ := hs.next hopen (by decide)
  obtain ⟨v, hp', hd⟩ := bracketed_sound hb hplain ha
  obtain ⟨hp'', -⟩ := (hplain.of_passes hp').next hclose (by decide)
  exact ⟨_, by simp, (hp.trans hp').trans hp'', .grouping hopen hclose hd⟩

theorem prefixed_sound (hb : Sound c below) (hs : Plain s) {k : TokenKind} {a : Node}
    (hk : s.current.kind = k) (hne : k ≠ .eof) (he : isIdentifier e = false)
    (hd : ∀ v, Derives s.structLiterals .unary v a →
      Derives s.structLiterals .unary (s.current :: v) e)
    (h : Rule.Runs (below (.expression .unary)) c s.next a t) :
    ∃ v, v ≠ [] ∧ Passes s v t ∧ Derives s.structLiterals .unary v e ∧
      ∀ q form, Continues t e q form → q.level.rank ≤ Level.unary.rank := by
  obtain ⟨hp, hplain⟩ := hs.next hk hne
  obtain ⟨v, -, hp', hv, hstops⟩ := hb _ _ _ _ hplain h
  rw [hp.2] at hv
  refine ⟨_, by simp, hp.trans hp', hd v hv, ?_⟩
  intro q form hcont
  have hnot : t.current.kind ≠ .openCurly := fun hk => by simpa [he] using hcont.2 hk
  exact Power.level_rank_le (hstops q form ⟨hcont.1, fun hk => absurd hk hnot⟩)

theorem operand_unary_iff {k : TokenKind} :
    Table.standard.operand k = some .unary ↔ k ∈ [TokenKind.bang, .dash] := by
  cases k <;> decide

private theorem operand_function {k : TokenKind} (h : Table.standard.operand k = some .function) :
    k = .funcWord := by
  cases k <;> cases h
  rfl

theorem operandOf_sound (hb : Sound c below) (hs : Plain s) {form : OperandForm}
    (hform : Table.standard.operand s.current.kind = some form)
    (h : Rule.Runs (operandOf below form) c s e t) :
    ∃ ℓ v, v ≠ [] ∧ Passes s v t ∧ Derives s.structLiterals ℓ v e ∧
      Level.unary.rank ≤ ℓ.rank ∧ ∀ q form, Continues t e q form → q.level.rank ≤ ℓ.rank := by
  have hsuffix : ∀ q form, Continues t e q form → q.level.rank ≤ Level.primary.rank :=
    fun q form h => Nat.le_trans (operator_rank_le h.1) (by decide)
  cases form with
  | primary =>
    obtain ⟨hp, hd⟩ := primary_sound hs h
    exact ⟨.primary, _, by simp, hp, hd, by decide, hsuffix⟩
  | grouping =>
    obtain ⟨v, hne, hp, hd⟩ := grouping_sound hb hs h
    exact ⟨.primary, v, hne, hp, hd, by decide, hsuffix⟩
  | unary =>
    simp only [operandOf, unary, runs_advance_bind] at h
    obtain ⟨a, u, ha, h⟩ := runs_bind.1 h
    obtain ⟨rfl, rfl⟩ := runs_pure.1 h
    have hk := operand_unary_iff.1 hform
    have hne : s.current.kind ≠ .eof := fun heof => by simp [heof] at hk
    obtain ⟨v, hv, hp, hd, hnext⟩ := prefixed_sound hb hs rfl hne rfl (fun _ => .unary hk) ha
    exact ⟨.unary, v, hv, hp, hd, Nat.le_refl _, hnext⟩
  | receive =>
    simp only [operandOf, receive, runs_expect_bind] at h
    obtain ⟨hk, h⟩ := h
    obtain ⟨a, u, ha, h⟩ := runs_bind.1 h
    obtain ⟨rfl, rfl⟩ := runs_pure.1 h
    obtain ⟨v, hv, hp, hd, hnext⟩ :=
      prefixed_sound hb hs hk (by decide) rfl (fun _ => .receive hk) ha
    exact ⟨.unary, v, hv, hp, hd, Nat.le_refl _, hnext⟩
  | function => exact absurd (operand_function hform) (hs.noFunc _ List.mem_cons_self)

end Operands

section Expressions

/-- The left side of the loop: an expression of a level that may stand at the power of the loop and
at every operator that continues it. -/
structure LeftSide (s : State) (p : Power) (left : Node) (t : State) : Prop where
  plain : Plain t
  derives : ∃ ℓ w, w ≠ [] ∧ Passes s w t ∧ Derives s.structLiterals ℓ w left ∧
    p.above.rank ≤ ℓ.rank ∧ ∀ q form, Continues t left q form → q.level.rank ≤ ℓ.rank

theorem LeftSide.withPeak {s t : State} {p : Power} {left : Node} (h : LeftSide s p left t)
    (n : Nat) : LeftSide s p left { t with peak := n } :=
  ⟨⟨h.plain.ended, h.plain.noFunc⟩, h.derives⟩

/-- A turn that folds an operator passes a token and keeps a left side. -/
theorem tailTurn_sound (hc : c.table = .standard) (hb : Sound c below) {s₀ s t : State} {p : Power}
    {left e : Node} {h h' : Nat} (hl : LeftSide s₀ p left s)
    (hr : Rule.Runs (tailTurn below p (left, h)) c s (.more (e, h')) t) :
    LeftSide s₀ p e t ∧ t.later.length < s.later.length := by
  obtain ⟨ℓ, w, hw, hp, hd, -, hnext⟩ := hl.derives
  rcases (runs_tailTurn hc).1 hr with ⟨hx, -⟩ | ⟨q, form, e', n, u, hcont, hlt, hm, hreach, hx⟩
  · exact absurd hx nofun
  · cases hx
    obtain ⟨x, hx, -, rfl⟩ := runs_measured.1 hm
    obtain ⟨-, rfl⟩ := runs_reach.1 hreach
    have hs : Plain { s with peak := s.depth } := ⟨hl.plain.ended, hl.plain.noFunc⟩
    have hleft : Derives s.structLiterals q.level w left := by
      rw [hp.2]
      exact .looser (hnext q form hcont) hd
    obtain ⟨v, hv, hpv, hdv, hstop⟩ := operatorOf_sound hb hs hcont hleft hx
    have hpass : Passes s v x := hpv
    have hx' : LeftSide s₀ p e x := by
      refine ⟨hl.plain.of_passes hpass, q.level, w ++ v, by simp [hw], hp.trans hpass, ?_,
        Power.above_rank_le hlt, hstop⟩
      rw [← hp.2]
      exact hdv
    exact ⟨(hx'.withPeak _).withPeak _, hpass.length_lt hv⟩

theorem tail_sound (hc : c.table = .standard) (hb : Sound c below) {s₀ s t : State} {p : Power}
    {left e : Node} {h : Nat} (hl : LeftSide s₀ p left s)
    (hr : Rule.Runs (tail below left h p) c s e t) : LeftSide s₀ p e t ∧ Stops p e t := by
  obtain ⟨⟨b, n⟩, u, hloop, hpure⟩ := runs_bind.1 hr
  obtain ⟨rfl, rfl⟩ := runs_pure.1 hpure
  refine loop_induction
    (I := fun x s => LeftSide s₀ p x.1 s) (Q := fun x s => LeftSide s₀ p x.1 s ∧ Stops p x.1 s)
    ?_ ?_ hloop hl
  · rintro ⟨left, h⟩ s ⟨e, h'⟩ t hl hr
    exact tailTurn_sound hc hb hl hr
  · rintro ⟨left, h⟩ s ⟨e, h'⟩ t hl hr
    rcases (runs_tailTurn hc).1 hr with ⟨hx, rfl, hstop⟩ | ⟨_, _, _, _, _, _, _, _, _, hx⟩
    · cases hx
      exact ⟨hl, hstop⟩
    · exact absurd hx nofun

theorem expressionBody_sound (hc : c.table = .standard) (hb : Sound c below) {s t : State}
    {p : Power} {e : Node} (hs : Plain s) (h : Rule.Runs (expressionBody below p) c s e t) :
    ∃ w, w ≠ [] ∧ Passes s w t ∧ Derives s.structLiterals p.above w e ∧ Stops p e t := by
  simp only [expressionBody, runs_read_bind, runs_kind_bind, hc] at h
  split at h
  · exact absurd h not_runs_unexpected
  · rename_i form hform
    obtain ⟨⟨left, n⟩, u, hm, h⟩ := runs_bind.1 h
    obtain ⟨x, hx, -, rfl⟩ := runs_measured.1 hm
    have hs' : Plain { s with peak := s.depth } := ⟨hs.ended, hs.noFunc⟩
    obtain ⟨ℓ, v, hv, hp, hd, hℓ, hnext⟩ := operandOf_sound hb hs' hform hx
    have hpass : Passes s v x := hp
    have hl : LeftSide s p left x :=
      ⟨hs.of_passes hpass, ℓ, v, hv, hpass, hd, Nat.le_trans p.above_rank_le_unary hℓ, hnext⟩
    obtain ⟨⟨-, m, w, hw, hpw, hdw, hm, -⟩, hstop⟩ := tail_sound hc hb (hl.withPeak _) h
    exact ⟨w, hw, hpw, .looser hm hdw, hstop⟩

/-- Whatever the number of levels left, expressions are read as the grammar says. -/
theorem produce_sound (hc : c.table = .standard) (levels : Nat) : Sound c (produce levels) := by
  induction levels with
  | zero =>
    intro p s e t _ h
    exact absurd h not_runs_fail
  | succ levels ih =>
    intro p s e t hs h
    obtain ⟨-, u, hu, rfl⟩ := runs_nested.1 h
    have hs' : Plain { s with depth := s.depth + 1, peak := max s.peak (s.depth + 1) } :=
      ⟨hs.ended, hs.noFunc⟩
    obtain ⟨w, hw, hp, hd, hstop⟩ := expressionBody_sound hc ih hs' hu
    exact ⟨w, hw, hp, hd, hstop⟩

theorem expression_sound (hc : c.table = .standard) {p : Power} {s t : State} {e : Node}
    (hs : Plain s) (h : Rule.Runs (expression p) c s e t) :
    ∃ w, Passes s w t ∧ Derives s.structLiterals p.above w e := by
  obtain ⟨w, -, hp, hd, -⟩ := produce_sound hc _ p s e t hs h
  exact ⟨w, hp, hd⟩

end Expressions

end MiniGo.Grammar
