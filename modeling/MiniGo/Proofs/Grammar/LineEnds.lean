import MiniGo.Proofs.Grammar.Run

/-!
Names, types and expressions never end behind a semicolon, so the semicolon behind a line of a declaration
is left for the rule that asks for the end of the line. What a rule has passed last is decided by its last
step: most rules end with a token of a given kind or with a rule one level down, and the others with a
repetition that keeps what was there before.
-/
namespace MiniGo.Grammar

/-- The last token that was passed is no semicolon. Where the tokens do not end with the end of the input,
the state may also still be at their last one. -/
def State.Unbroken (s : State) : Prop :=
  (∀ k ∈ s.behind.head?, k.kind ≠ .semicolon) ∨ s.later = [] ∧ s.current.kind ≠ .eof

theorem State.unbroken_next {s : State} (hsemi : s.current.kind ≠ .semicolon)
    (heof : s.current.kind ≠ .eof) : s.next.Unbroken := by
  unfold State.next
  split
  · rename_i hlater
    exact .inr ⟨hlater, heof⟩
  · refine .inl fun k hk => ?_
    obtain rfl := Option.some.inj hk
    exact hsemi

/-- Whatever was passed before, the rule does not end behind a semicolon. -/
def Firm {α : Type} (c : Setting) (x : Rule α) : Prop :=
  ∀ s a t, Rule.Runs x c s a t → t.Unbroken

/-- The rule does not end behind a semicolon that it has passed itself. -/
def Steady {α : Type} (c : Setting) (x : Rule α) : Prop :=
  ∀ s a t, s.Unbroken → Rule.Runs x c s a t → t.Unbroken

section Blocks

variable {α β : Type} {c : Setting} {x y : Rule α} {g : α → Rule β}

theorem Firm.steady (h : Firm c x) : Steady c x := fun s a t _ => h s a t

theorem firm_of_not_runs (h : ∀ s a t, ¬ Rule.Runs x c s a t) : Firm c x :=
  fun s a t hrun => absurd hrun (h s a t)

theorem firm_failAt {offset : Text.Offset} {cause : Cause} : Firm c (failAt offset cause : Rule α) :=
  firm_of_not_runs fun _ _ _ => not_runs_failAt

theorem firm_fail {cause : Cause} : Firm c (fail cause : Rule α) := firm_of_not_runs fun _ _ _ => not_runs_fail

theorem firm_unexpected {message : String} : Firm c (unexpected message : Rule α) :=
  firm_of_not_runs fun _ _ _ => not_runs_unexpected

theorem steady_pure {a : α} : Steady c (pure a) := by
  intro s b t hs hrun
  obtain ⟨-, rfl⟩ := runs_pure.1 hrun
  exact hs

theorem firm_bind (hg : ∀ a, Firm c (g a)) : Firm c (x >>= g) := by
  intro s b t hrun
  obtain ⟨a, u, -, hb⟩ := runs_bind.1 hrun
  exact hg a u b t hb

theorem Firm.bind (hx : Firm c x) (hg : ∀ a, Steady c (g a)) : Firm c (x >>= g) := by
  intro s b t hrun
  obtain ⟨a, u, ha, hb⟩ := runs_bind.1 hrun
  exact hg a u b t (hx s a u ha) hb

theorem Steady.bind (hx : Steady c x) (hg : ∀ a, Steady c (g a)) : Steady c (x >>= g) := by
  intro s b t hs hrun
  obtain ⟨a, u, ha, hb⟩ := runs_bind.1 hrun
  exact hg a u b t (hx s a u hs ha) hb

theorem firm_ite {p : Prop} [Decidable p] (hx : Firm c x) (hy : Firm c y) :
    Firm c (if p then x else y) := by
  by_cases hp : p
  · rwa [if_pos hp]
  · rwa [if_neg hp]

theorem steady_ite {p : Prop} [Decidable p] (hx : Steady c x) (hy : Steady c y) :
    Steady c (if p then x else y) := by
  by_cases hp : p
  · rwa [if_pos hp]
  · rwa [if_neg hp]

theorem steady_kind_bind {g : TokenKind → Rule β} (hg : ∀ k, Steady c (g k)) : Steady c (kind >>= g) :=
  fun s b t hs hrun => hg _ s b t hs (runs_kind_bind.1 hrun)

theorem steady_get_bind {g : State → Rule β} (hg : ∀ s, Steady c (g s)) : Steady c (get >>= g) :=
  fun s b t hs hrun => hg _ s b t hs (runs_get_bind.1 hrun)

theorem steady_read_bind {g : Setting → Rule β} (hg : Steady c (g c)) : Steady c (read >>= g) :=
  fun s b t hs hrun => hg s b t hs (runs_read_bind.1 hrun)

theorem firm_expect_bind {k : TokenKind} {g : Token → Rule β} (hsemi : k ≠ .semicolon) (heof : k ≠ .eof)
    (hg : ∀ x, Steady c (g x)) : Firm c (expect k >>= g) := by
  intro s b t hrun
  obtain ⟨rfl, hrest⟩ := runs_expect_bind.1 hrun
  exact hg _ _ b t (State.unbroken_next hsemi heof) hrest

theorem firm_expectOr_bind {k : TokenKind} {message : String} {g : Token → Rule β}
    (hsemi : k ≠ .semicolon) (heof : k ≠ .eof) (hg : ∀ x, Steady c (g x)) :
    Firm c (expectOr k message >>= g) := by
  intro s b t hrun
  obtain ⟨rfl, hrest⟩ := runs_expectOr_bind.1 hrun
  exact hg _ _ b t (State.unbroken_next hsemi heof) hrest

/-! The rest of the state does not matter. -/

theorem Firm.measured (hx : Firm c x) : Firm c (measured x) := by
  rintro s ⟨a, n⟩ t hrun
  obtain ⟨u, hu, -, rfl⟩ := runs_measured.1 hrun
  have hunbroken := hx _ _ _ hu
  exact hunbroken

theorem Firm.nested (hx : Firm c x) : Firm c (nested x) := by
  intro s a t hrun
  obtain ⟨-, u, hu, rfl⟩ := runs_nested.1 hrun
  have hunbroken := hx _ _ _ hu
  exact hunbroken

theorem steady_reach {levels : Nat} : Steady c (reach levels) := by
  intro s i t hs hrun
  obtain ⟨-, rfl⟩ := runs_reach.1 hrun
  exact hs

theorem steady_loop {turn : α → Rule (Turn α)} (h : ∀ a, Steady c (turn a)) (a : α) :
    Steady c (loop a turn) := by
  intro s b t hs hrun
  exact loop_invariant (I := fun _ s => s.Unbroken) (fun a s _ t hs hmore => h a s _ t hs hmore)
    (fun a s _ t hs hdone => h a s _ t hs hdone) hrun hs

theorem steady_many {rule : Rule (Option α)} (h : Steady c rule) : Steady c (many rule) := by
  refine steady_loop (fun found => h.bind fun o => ?_) []
  cases o <;> exact steady_pure

end Blocks

structure BelowFirm (c : Setting) (below : Below) : Prop where
  type : Firm c (below .type)
  expression (power : Power) : Firm c (below (.expression power))

variable {c : Setting} {below : Below}

theorem namedType_firm : Firm c namedType := by
  refine firm_expect_bind nofun nofun fun t => ?_
  split <;> exact steady_pure

theorem startsResultType_steady : Steady c startsResultType :=
  steady_kind_bind fun _ => steady_read_bind steady_pure

theorem nameEnd_steady {found : List Node × List String} : Steady c (nameEnd found) := by
  intro s x t hs hrun
  rw [nameEnd, runs_kind_bind, runs_ite] at hrun
  rcases hrun with ⟨hcomma, hrun⟩ | ⟨-, hrun⟩
  · have hrun := runs_advance_bind.1 hrun
    obtain ⟨-, rfl⟩ := runs_pure.1 hrun
    exact State.unbroken_next (by rw [hcomma]; decide) (by rw [hcomma]; decide)
  · exact steady_pure s x t hs hrun

theorem primary_firm : Firm c primary := by
  intro s n t hrun
  have hnext : t = s.next ∧ s.current.kind ≠ .semicolon ∧ s.current.kind ≠ .eof := by
    have hrun := runs_advance_bind.1 hrun
    split at hrun <;> rename_i hk
    · split at hrun
      · exact ⟨(runs_pure.1 hrun).2, by rw [hk]; decide, by rw [hk]; decide⟩
      · exact absurd hrun not_runs_failAt
    · exact ⟨(runs_pure.1 hrun).2, by rw [hk]; decide, by rw [hk]; decide⟩
    · exact ⟨(runs_pure.1 hrun).2, by rw [hk]; decide, by rw [hk]; decide⟩
    · exact ⟨(runs_pure.1 hrun).2, by rw [hk]; decide, by rw [hk]; decide⟩
    · exact absurd hrun not_runs_failAt
  obtain ⟨rfl, hsemi, heof⟩ := hnext
  exact State.unbroken_next hsemi heof

theorem member_firm {left : Node} : Firm c (member left) :=
  firm_bind fun _ => firm_expectOr_bind nofun nofun fun _ => steady_pure

theorem block_firm : Firm c (block below) :=
  firm_bind fun _ => firm_bind fun _ => firm_expect_bind nofun nofun fun _ => steady_pure

theorem functionRest_firm {name : Option Node} : Firm c (functionRest below name) := by
  refine firm_bind fun _ => firm_bind fun _ => firm_bind fun _ => firm_bind fun _ => firm_ite ?_ ?_
  · exact block_firm.bind fun _ => steady_pure
  · exact firm_bind fun _ => block_firm.bind fun _ => steady_pure

theorem structType_firm : Firm c (structType below) :=
  firm_bind fun _ => firm_bind fun _ => firm_bind fun _ =>
    firm_expect_bind nofun nofun fun _ => steady_pure

theorem call_firm {left : Node} : Firm c (call below left) :=
  firm_bind fun _ => firm_bind fun _ => firm_expect_bind nofun nofun fun _ => steady_pure

theorem index_firm {left : Node} : Firm c (index below left) :=
  firm_bind fun _ => firm_bind fun _ => firm_expectOr_bind nofun nofun fun _ => steady_pure

theorem grouping_firm : Firm c (grouping below) :=
  firm_bind fun _ => firm_bind fun _ => firm_expectOr_bind nofun nofun fun _ => steady_pure

theorem structLiteral_firm {left : Node} : Firm c (structLiteral below left) := by
  unfold structLiteral
  split
  · exact firm_bind fun _ => firm_bind fun _ => firm_expect_bind nofun nofun fun _ => steady_pure
  · exact firm_unexpected

section Types

variable (hb : BelowFirm c below)
include hb

theorem resultType_firm : Firm c (resultType below) := by
  refine firm_bind fun _ => firm_ite ?_ hb.type
  exact firm_bind fun _ => firm_bind fun _ => firm_expectOr_bind nofun nofun fun _ => steady_pure

theorem arrayType_firm : Firm c (arrayType below) := by
  refine firm_bind fun _ => firm_bind fun _ => firm_ite ?_ ?_
  · exact firm_bind fun _ => hb.type.bind fun _ => steady_pure
  · refine firm_bind fun t => ?_
    split
    · exact firm_failAt
    · exact firm_bind fun _ => hb.type.bind fun _ => steady_pure

theorem chanType_firm : Firm c (chanType below) := by
  refine firm_bind fun _ => firm_bind fun _ => firm_ite ?_ ?_
  · exact firm_bind fun _ => hb.type.bind fun _ => steady_pure
  · exact hb.type.bind fun _ => steady_pure

theorem receiveChanType_firm : Firm c (receiveChanType below) :=
  firm_bind fun _ => firm_bind fun _ => hb.type.bind fun _ => steady_pure

theorem functionType_firm : Firm c (functionType below) := by
  refine firm_bind fun _ => firm_bind fun _ => firm_bind fun _ => firm_expect_bind nofun nofun fun _ => ?_
  refine startsResultType_steady.bind fun _ => steady_ite ?_ steady_pure
  exact ((resultType_firm hb).bind fun _ => steady_pure).steady

theorem typeBody_firm : Firm c (typeBody below) := by
  refine firm_bind fun setting => firm_bind fun k => ?_
  cases setting.table.type k with
  | none => exact firm_unexpected
  | some form =>
    cases form with
    | named => exact namedType_firm
    | array => exact arrayType_firm hb
    | chan => exact chanType_firm hb
    | receiveChan => exact receiveChanType_firm hb
    | function => exact functionType_firm hb
    | struct => exact structType_firm

theorem nameTurn_steady {terminators : List TokenKind} (found : List Node × List String) :
    Steady c (nameTurn below terminators found) := by
  obtain ⟨ids, pending⟩ := found
  refine steady_kind_bind fun _ => steady_ite steady_pure (Firm.steady ?_)
  refine firm_expectOr_bind nofun nofun fun _ => steady_kind_bind fun _ => steady_ite ?_ nameEnd_steady
  exact (hb.type.bind fun _ => nameEnd_steady).steady

theorem typedNames_steady {terminators : List TokenKind} {list : NameList} :
    Steady c (typedNames below terminators list) := by
  refine (steady_loop (nameTurn_steady hb) _).bind ?_
  rintro ⟨ids, pending⟩
  cases pending with
  | nil => exact steady_ite firm_unexpected.steady steady_pure
  | cons untyped pending => exact steady_ite steady_pure firm_fail.steady

end Types

section Expressions

variable (hb : BelowFirm c below)
include hb

theorem unary_firm : Firm c (unary below) :=
  firm_bind fun _ => (hb.expression .unary).bind fun _ => steady_pure

theorem receive_firm : Firm c (receive below) :=
  firm_bind fun _ => (hb.expression .unary).bind fun _ => steady_pure

theorem operandOf_firm (form : OperandForm) : Firm c (operandOf below form) := by
  cases form with
  | primary => exact primary_firm
  | unary => exact unary_firm hb
  | receive => exact receive_firm hb
  | grouping => exact grouping_firm
  | function => exact firm_bind fun _ => functionRest_firm

theorem operatorOf_firm {left : Node} {power : Power} (form : OperatorForm) :
    Firm c (operatorOf below left power form) := by
  cases form with
  | binary => exact firm_bind fun _ => (hb.expression power).bind fun _ => steady_pure
  | call => exact call_firm
  | index => exact index_firm
  | structLiteral => exact structLiteral_firm
  | member => exact member_firm

theorem tailTurn_steady {power : Power} (found : Node × Nat) : Steady c (tailTurn below power found) := by
  obtain ⟨left, height⟩ := found
  refine steady_kind_bind fun k => steady_get_bind fun _ => steady_ite steady_pure (steady_read_bind ?_)
  cases c.table.operator k with
  | none => exact steady_pure
  | some found =>
    refine steady_ite steady_pure (Firm.steady ?_)
    exact (operatorOf_firm hb found.2).measured.bind fun _ => steady_reach.bind fun _ => steady_pure

theorem expressionBody_firm {power : Power} : Firm c (expressionBody below power) := by
  refine firm_bind fun setting => firm_bind fun k => ?_
  cases setting.table.operand k with
  | none => exact firm_unexpected
  | some form =>
    refine (operandOf_firm hb form).measured.bind fun _ => ?_
    exact (steady_loop (tailTurn_steady hb) _).bind fun _ => steady_pure

theorem expressionList_firm : Firm c (expressionList below) := by
  refine (hb.expression .lowest).bind fun _ => (steady_many ?_).bind fun _ => steady_pure
  refine steady_kind_bind fun _ => steady_ite (Firm.steady ?_) steady_pure
  exact firm_bind fun _ => (hb.expression .lowest).bind fun _ => steady_pure

theorem declarationLine_steady : Steady c (declarationLine below) := by
  refine (typedNames_steady hb).bind fun _ => steady_kind_bind fun _ => steady_ite (Firm.steady ?_) steady_pure
  exact firm_bind fun _ => (expressionList_firm hb).bind fun _ => steady_pure

end Expressions

theorem produce_firm (c : Setting) (levels : Nat) : BelowFirm c (produce levels) := by
  induction levels with
  | zero => exact ⟨firm_bind fun _ => firm_fail, fun _ => firm_bind fun _ => firm_fail⟩
  | succ levels ih => exact ⟨(typeBody_firm ih).nested, fun _ => (expressionBody_firm ih).nested⟩

end MiniGo.Grammar
