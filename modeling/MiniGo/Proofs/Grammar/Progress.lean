import MiniGo.Proofs.Grammar.Bookkeeping
import MiniGo.Proofs.Grammar.Concatenation

/-!
Progress. The last token is an end of the input and is never passed, so a rule that passes a token wherever it
succeeds fails there, and a loop of which every turn but the last passes one comes to its end. Main statement:
all rules and all loops do, whatever the tokens are and wherever among them they start. So the tokens that are
left, by which loops are bounded, are always enough.
-/
namespace MiniGo.Grammar

variable {α : Type} {c : Setting} {s t : State}

theorem produce_advances (c : Setting) (levels : Nat) : BelowAdvances c (produce levels) := by
  refine ⟨produce_restores c levels, ?_⟩
  induction levels with
  | zero => exact fun goal s n t _ hrun => absurd hrun nofun
  | succ levels ih =>
    intro goal s n t hs hrun _
    obtain ⟨-, u, hu, rfl⟩ := runs_nested.1 hrun
    have hbody := (goalBody_advancing goal).advances ⟨produce_restores c levels, ih⟩
    exact hbody { s with depth := s.depth + 1, peak := max s.peak (s.depth + 1) } n u hs hu trivial

section Rules

/-- The state is on the tokens of a list, behind which an end of the input stands if it is not the last of
them. -/
def State.On (tokens : List Token) (s : State) : Prop := s.allTokens = (State.ofTokens tokens).allTokens

theorem State.On.ended {tokens : List Token} (hs : s.On tokens) : s.Ended :=
  (State.ended_ofTokens tokens).of_allTokens hs

/-- If the rule succeeds here it passes a token, and here is not the last one. -/
def PassesFrom (c : Setting) (s : State) (x : Rule α) : Prop :=
  ∀ a t, Rule.Runs x c s a t → s.position < t.position ∧ s.later ≠ []

theorem AdvancingTo.close {x : Below → Rule α} (hx : Advancing x) :
    Restores c (close x) ∧ Advances c (fun _ => True) (close x) :=
  ⟨fun s => hx.uniform.restores (produce_restores c (c.limit - s.depth)) s,
    fun s a t hs hrun => hx.advances (produce_advances c (c.limit - s.depth)) s a t hs hrun⟩

theorem AdvancingTo.passesFrom {x : Below → Rule α} (hx : Advancing x) (hs : s.Ended) :
    PassesFrom c s (Grammar.close x) := by
  intro a t hrun
  have hlt := hx.close.2 s a t hs hrun trivial
  have hlater := (hx.close.1.comesTo hrun).later_lt hlt
  exact ⟨hlt, List.ne_nil_of_length_pos (Nat.zero_lt_of_lt hlater)⟩

end Rules

section Loops

/-- A loop without a bound: `n` turns one behind the other, each of which passes a token, and then one that ends
the loop or fails. -/
inductive Iterates (turn : α → Rule (Turn α)) (c : Setting) :
    Nat → α → State → EStateM.Result Error State α → Prop where
  | done {a b : α} {s t : State} (h : turn a c s = .ok (.done b) t) : Iterates turn c 0 a s (.ok b t)
  | error {a : α} {e : Error} {s t : State} (h : turn a c s = .error e t) :
      Iterates turn c 0 a s (.error e t)
  | more {n : Nat} {a b : α} {s t : State} {r : EStateM.Result Error State α}
      (h : turn a c s = .ok (.more b) t) (hlt : s.position < t.position) (hrest : Iterates turn c n b t r) :
      Iterates turn c (n + 1) a s r

variable {turn : α → Rule (Turn α)}

/-- If every turn that goes on passes a token, the loop comes to its end before its bound. -/
theorem loop_iterates (hrestores : ∀ a, Restores c (turn a)) (hadvances : ∀ a, Advances c Turn.GoesOn (turn a))
    (hs : s.Ended) (a : α) : ∃ n ≤ s.later.length, Iterates turn c n a s (loop a turn c s) := by
  have key : ∀ turns a s, s.Ended → s.later.length ≤ turns.length →
      ∃ n ≤ s.later.length, Iterates turn c n a s (loopFrom turn turns a c s) := by
    intro turns
    induction turns with
    | nil =>
      intro a s hs hlength
      rw [loopFrom, bind_apply]
      cases hturn : turn a c s with
      | error e t => exact ⟨0, Nat.zero_le _, .error hturn⟩
      | ok x t =>
        cases x with
        | done b => exact ⟨0, Nat.zero_le _, .done hturn⟩
        | more b =>
          have hlt := ((hrestores a).comesTo hturn).later_lt (hadvances a s _ t hs hturn trivial)
          rw [List.length_nil] at hlength
          omega
    | cons k turns ih =>
      intro a s hs hlength
      rw [loopFrom, bind_apply]
      cases hturn : turn a c s with
      | error e t => exact ⟨0, Nat.zero_le _, .error hturn⟩
      | ok x t =>
        cases x with
        | done b => exact ⟨0, Nat.zero_le _, .done hturn⟩
        | more b =>
          have hst := (hrestores a).comesTo hturn
          have hposition := hadvances a s _ t hs hturn trivial
          have hlt := hst.later_lt hposition
          rw [List.length_cons] at hlength
          obtain ⟨n, hn, hrest⟩ := ih b t (hs.comesTo hst) (by omega)
          exact ⟨n + 1, by omega, .more hturn hposition hrest⟩
  exact key s.later a s hs (Nat.le_refl _)

theorem Iterates.exists_failing (hrestores : ∀ a, Restores c (turn a)) {n : Nat} {a : α} {e : Error}
    (h : Iterates turn c n a s (.error e t)) :
    ∃ b u, s.ComesTo c.limit u ∧ s.position + n ≤ u.position ∧ turn b c u = .error e t := by
  generalize hr : EStateM.Result.error e t = r at h
  induction h with
  | done => cases hr
  | @error a e s t hturn =>
    cases hr
    exact ⟨a, s, .refl c.limit s, Nat.le_refl _, hturn⟩
  | @more n a b s v r hturn hlt _ ih =>
    obtain ⟨d, u, hvu, hposition, hfails⟩ := ih hr
    exact ⟨d, u, ((hrestores a).comesTo hturn).trans hvu, by omega, hfails⟩

theorem Iterates.length_eq {rule : Rule (Option α)} {n : Nat} {found as : List α}
    (h : Iterates (manyTurn rule) c n found s (.ok as t)) : as.length = found.length + n := by
  generalize hr : EStateM.Result.ok as t = r at h
  induction h with
  | done hturn =>
    cases hr
    rcases runs_manyTurn.1 hturn with ⟨a, -, hdone⟩ | ⟨-, hdone⟩
    · cases hdone
    · cases hdone
      rfl
  | error => cases hr
  | more hturn _ _ ih =>
    rcases runs_manyTurn.1 hturn with ⟨a, -, hmore⟩ | ⟨-, hmore⟩
    · cases hmore
      rw [ih hr, List.length_append, List.length_singleton]
      omega
    · cases hmore

/-- The loops of the rules, by what one turn does: `skipSemicolons`, `program`, `block`, `caseBody`,
`selectStatement`, `declarationLines`, `structType`, `call`, `structLiteral`, `typeList`, `moreExpressions`,
`typedNames` and `tail` have one each, and no other rule has any. -/
inductive IsLoop (below : Below) : {α : Type} → (α → Rule (Turn α)) → Prop where
  | semicolons : IsLoop below semicolonTurn
  | program : IsLoop below (manyTurn item)
  | block : IsLoop below (manyTurn (blockItem below))
  | caseBody : IsLoop below (manyTurn (caseItem below))
  | selectCases : IsLoop below (manyTurn (selectArm below))
  | group : IsLoop below (manyTurn (groupLine below))
  | structFields : IsLoop below (manyTurn (fieldLine below))
  | operands (message : String) :
      IsLoop below (manyTurn (separatedItem .closeParen message (below (.expression .lowest))))
  | fieldValues (message : String) :
      IsLoop below (manyTurn (separatedItem .closeCurly message (fieldValue below)))
  | types (message : String) : IsLoop below (manyTurn (separatedItem .closeParen message (below .type)))
  | expressions : IsLoop below (manyTurn (commaExpression below))
  | names (terminators : List TokenKind) : IsLoop below (nameTurn below terminators)
  | operators (power : Power) : IsLoop below (tailTurn below power)

private theorem semicolonTurn_advances (i : Unit) :
    Restores c (semicolonTurn i) ∧ Advances c Turn.GoesOn (semicolonTurn i) := by
  refine ⟨fun s => ?_, fun s x t hs hrun hx => ?_⟩
  · rw [semicolonTurn_apply]
    split
    · exact s.comesTo_next c.limit
    · exact .refl c.limit s
  · rw [Rule.Runs, semicolonTurn_apply] at hrun
    split at hrun
    · rename_i hk
      cases hrun
      exact hs.position_lt_next (by rw [hk]; decide)
    · cases hrun
      exact hx.elim

theorem item_restores : Restores c item := by
  refine Restores.bind (fun s => (Script.entry .skipSemicolons).restores s) fun _ s => ?_
  rw [kind_bind_apply]
  split
  · exact .refl c.limit s
  · exact ((Script.entry (.goal .statement)).bind fun n => .pure (some n)).restores s

theorem item_advances : Advances c (·.isSome) item := by
  intro s o t hs hrun ho
  obtain ⟨_, u, hskip, hrun⟩ := runs_bind.1 hrun
  have hsu := (Script.entry .skipSemicolons).restores.comesTo hskip
  rw [runs_kind_bind] at hrun
  rcases runs_ite.1 hrun with ⟨-, hnone⟩ | ⟨-, hrun⟩
  · obtain ⟨rfl, -⟩ := runs_pure.1 hnone
    cases ho
  · obtain ⟨n, v, hstatement, hrun⟩ := runs_bind.1 hrun
    obtain ⟨-, rfl⟩ := runs_pure.1 hrun
    have hlt := (advancing_goal .statement).close.2 u n _ (hs.comesTo hsu) hstatement trivial
    exact Nat.lt_of_le_of_lt hsu.position hlt

/-- Every loop passes a token on each turn that is not its last. -/
theorem IsLoop.advances {levels : Nat} (h : IsLoop (produce levels) turn) (a : α) :
    Restores c (turn a) ∧ Advances c Turn.GoesOn (turn a) := by
  have hb := produce_advances c levels
  have hmany : ∀ {β : Type} {rule : Below → Rule (Option β)}, AdvancingTo (·.isSome) rule → ∀ found,
      Restores c (manyTurn (rule (produce levels)) found) ∧
        Advances c Turn.GoesOn (manyTurn (rule (produce levels)) found) := fun hrule found =>
    ⟨(hrule.uniform.restores hb.restores).manyTurn found, (hrule.advances hb).manyTurn found⟩
  cases h with
  | semicolons => exact semicolonTurn_advances a
  | program => exact ⟨item_restores.manyTurn a, item_advances.manyTurn a⟩
  | block => exact hmany blockItem_advancing a
  | caseBody => exact hmany caseItem_advancing a
  | selectCases => exact hmany selectArm_advancing a
  | group => exact hmany groupLine_advancing a
  | structFields => exact hmany fieldLine_advancing a
  | operands message => exact hmany ((advancing_goal _).separatedItem .closeParen message) a
  | fieldValues message => exact hmany (fieldValue_advancing.separatedItem .closeCurly message) a
  | types message => exact hmany ((advancing_goal _).separatedItem .closeParen message) a
  | expressions => exact hmany commaExpression_advancing a
  | names terminators =>
    have hturn := (@nameTurn_advancing terminators a).mono (Q := Turn.GoesOn) (by
      rintro _ hx rfl
      exact hx)
    exact ⟨hturn.uniform.restores hb.restores, hturn.advances hb⟩
  | operators power =>
    have hturn := tailTurn_advancing power a
    exact ⟨hturn.uniform.restores hb.restores, hturn.advances hb⟩

end Loops

section Programs

variable {tokens : List Token} {file : String} {limit : Nat}

theorem State.length_later_ofTokens_le (tokens : List Token) :
    (State.ofTokens tokens).later.length ≤ tokens.length := by
  have hlength : (State.ofTokens tokens).tokens.length = (State.ofTokens tokens).later.length + 1 := rfl
  rcases State.tokens_ofTokens tokens with h | ⟨offset, h⟩
  · rw [h] at hlength
    omega
  · rw [h, List.length_append, List.length_singleton] at hlength
    omega

theorem item_of_later_eq_nil (hs : s.Ended) (hlater : s.later = []) : item c s = .ok none s := by
  have heof : s.current.kind = .eof := by
    rw [State.Ended, State.tokens, hlater] at hs
    exact Option.some.inj hs
  have hskip : skipSemicolons c s = .ok () s := skipSemicolons_of_ne (by rw [heof]; decide)
  rw [item, bind_apply, hskip]
  dsimp only
  rw [kind_bind_apply, if_pos heof]
  rfl

private theorem ofTokens_eq_many : Node.ofTokens tokens file limit =
    match many item ⟨file, limit, .standard⟩ (.ofTokens tokens) with
    | .ok items _ => .ok (.program items)
    | .error e _ => .error e := by
  have hprogram : program = many item >>= fun items => pure (.program items) := rfl
  rw [Node.ofTokens, hprogram, bind_apply]
  cases many item ⟨file, limit, .standard⟩ (.ofTokens tokens) <;> rfl

/-- Reading a program ends behind some statements, of which there are no more than tokens even with the one that
fails. -/
def ProgramEnds (tokens : List Token) (file : String) (limit : Nat) : Prop :=
  ∃ n r, Iterates (manyTurn item) ⟨file, limit, .standard⟩ n [] (.ofTokens tokens) r ∧
    match r with
    | .ok items _ => Node.ofTokens tokens file limit = .ok (.program items) ∧ items.length = n ∧
        n ≤ tokens.length
    | .error e _ => Node.ofTokens tokens file limit = .error e ∧ n < tokens.length

theorem programEnds (tokens : List Token) (file : String) (limit : Nat) : ProgramEnds tokens file limit := by
  have hended := State.ended_ofTokens tokens
  have hlength := State.length_later_ofTokens_le tokens
  obtain ⟨n, hn, hrun⟩ := loop_iterates (c := ⟨file, limit, .standard⟩) item_restores.manyTurn
    item_advances.manyTurn hended []
  refine ⟨n, _, hrun, ?_⟩
  rw [← many_eq] at hrun ⊢
  rw [ofTokens_eq_many]
  revert hrun
  cases many item ⟨file, limit, .standard⟩ (.ofTokens tokens) with
  | ok items t =>
    intro hrun
    have hitems := hrun.length_eq
    rw [List.length_nil, Nat.zero_add] at hitems
    exact ⟨rfl, hitems, Nat.le_trans hn hlength⟩
  | error e t =>
    intro hrun
    refine ⟨rfl, ?_⟩
    obtain ⟨found, u, hsu, hposition, hfails⟩ := hrun.exists_failing item_restores.manyTurn
    have hlater : u.later ≠ [] := by
      intro hlater
      rw [manyTurn, bind_apply, item_of_later_eq_nil (hended.comesTo hsu) hlater] at hfails
      cases hfails
    have hpositive := List.length_pos_iff.2 hlater
    have htokens := congrArg List.length hsu.allTokens
    rw [State.length_allTokens, State.length_allTokens] at htokens
    omega

end Programs

/-- From every state on the tokens of a list, be it at an end of the input among them, the rules pass a token
wherever they succeed, and the last token is where they do not. Every loop from there on comes to its end in
turns that pass a token each, and so does reading the program, in no more statements than tokens. -/
theorem rules_progress {tokens : List Token} (hs : s.On tokens) (c : Setting) :
    (PassesFrom c s statement ∧ PassesFrom c s (close simpleStatement) ∧
      (∀ power, PassesFrom c s (expression power)) ∧ PassesFrom c s type ∧ PassesFrom c s (close block) ∧
      PassesFrom c s (close declarationStatement)) ∧
    (∀ levels (β : Type) (turn : β → Rule (Turn β)), IsLoop (produce levels) turn → ∀ b,
      ∃ n ≤ s.later.length, Iterates turn c n b s (loop b turn c s)) ∧
    ∀ file limit, ProgramEnds tokens file limit := by
  have hended := hs.ended
  refine ⟨⟨?_, ?_, fun power => ?_, ?_, ?_, ?_⟩, fun levels β turn hloop b => ?_, programEnds tokens⟩
  · exact (advancing_goal .statement).passesFrom hended
  · exact simpleStatement_advancing.passesFrom hended
  · exact (advancing_goal (.expression power)).passesFrom hended
  · exact (advancing_goal .type).passesFrom hended
  · exact block_advancing.passesFrom hended
  · exact declaration_advancing.terminated.passesFrom hended
  · exact loop_iterates (fun b => (hloop.advances b).1) (fun b => (hloop.advances b).2) hended b

def innerEnd : List Token := [⟨.identifier, "x", 0, 1⟩, Token.endOfInput 1, ⟨.identifier, "y", 1, 2⟩]

def atInnerEnd : State :=
  ⟨[⟨.identifier, "x", 0, 1⟩], Token.endOfInput 1, [⟨.identifier, "y", 1, 2⟩, Token.endOfInput 2], 3, 1, false⟩

theorem rules_progress_innerEnd :
    atInnerEnd.On innerEnd ∧
      (∃ t, Rule.Runs (close declarationStatement) ⟨"shell", 4, .standard⟩ atInnerEnd
        (.declaration .var [.name "y"] []) t ∧ atInnerEnd.position < t.position) ∧
      (∃ n ≤ 2, Iterates semicolonTurn ⟨"shell", 4, .standard⟩ n () atInnerEnd
        (loop () semicolonTurn ⟨"shell", 4, .standard⟩ atInnerEnd)) ∧
      ProgramEnds innerEnd "shell" 4 := by
  have hon : atInnerEnd.On innerEnd := rfl
  obtain ⟨⟨-, -, -, -, -, hdeclaration⟩, hloops, hprogram⟩ := rules_progress hon ⟨"shell", 4, .standard⟩
  have hrun : Rule.Runs (close declarationStatement) ⟨"shell", 4, .standard⟩ atInnerEnd
      (.declaration .var [.name "y"] []) ⟨[⟨.identifier, "y", 1, 2⟩, Token.endOfInput 1,
        ⟨.identifier, "x", 0, 1⟩], Token.endOfInput 2, [], 3, 1, false⟩ := rfl
  exact ⟨hon, ⟨_, hrun, (hdeclaration _ _ hrun).1⟩, hloops 0 Unit semicolonTurn .semicolons (),
    hprogram "shell" 4⟩

end MiniGo.Grammar
