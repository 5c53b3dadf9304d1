import MiniGo.Proofs.Grammar.Conduct.Statements

/-!
Well-bracketed sources. What the rules accept has its brackets in properly nested pairs, and every statement
stands behind a token that separates it from what comes before. That a closing bracket may end a
statement without being passed hides nothing: it is passed by the rule that opened it, or it is refused.
-/
namespace MiniGo

open Grammar

namespace Grammar

section Guards

variable (allowed : State → Prop) [DecidablePred allowed]

/-- The rules one level down, which refuse to look for a statement where it is not allowed. -/
def Below.guarded (below : Below) : Below
  | .statement => do
    if allowed (← get) then below .statement else fail (.unexpectedToken (← current).describe)
  | goal => below goal

def produceGuarded : Nat → Goal → Rule Node
  | 0, _ => do fail (.limitExceeded (← read).limit)
  | levels + 1, goal => nested (goalBody (Below.guarded allowed (produceGuarded levels)) goal)

def statementGuarded : Rule Node := do
  Below.guarded allowed (produceGuarded allowed ((← read).limit - (← get).depth)) .statement

/-- A program in which statements stand only where they are allowed. -/
def programGuarded : Rule Node := do
  let items ← many do
    skipSemicolons
    if (← kind) = .eof then return none else return some (← statementGuarded allowed)
  return .program items

variable {allowed}

private theorem guarded_statement_apply (below : Below) (c : Setting) (s : State) :
    Below.guarded allowed below .statement c s = if allowed s then below .statement c s
      else .error ⟨.unexpectedToken s.current.describe, s.current.start, c.file⟩ s := by
  change (if allowed s then below .statement
    else do fail (.unexpectedToken (← current).describe)) c s = _
  split <;> rfl

theorem guarded_of_forall (h : ∀ s, allowed s) (below : Below) : Below.guarded allowed below = below := by
  funext goal
  cases goal with
  | statement =>
    funext c s
    rw [guarded_statement_apply, if_pos (h s)]
  | expression | type | elseIf => rfl

private theorem produceGuarded_of_forall (h : ∀ s, allowed s) (levels : Nat) (goal : Goal) :
    produceGuarded allowed levels goal = produce levels goal := by
  induction levels generalizing goal with
  | zero => rfl
  | succ levels ih =>
    have hbelow : produceGuarded allowed levels = produce levels := funext ih
    rw [produceGuarded, guarded_of_forall h, hbelow]
    rfl

theorem programGuarded_of_forall (h : ∀ s, allowed s) : programGuarded allowed = program := by
  have hstatement : statementGuarded allowed = statement := by
    funext c s
    change Below.guarded allowed (produceGuarded allowed (c.limit - s.depth)) .statement c s =
      produce (c.limit - s.depth) .statement c s
    rw [guarded_of_forall h, produceGuarded_of_forall h]
  rw [programGuarded, hstatement]
  rfl

end Guards

section Runs

variable {v : Course}

theorem BelowBehaves.guarded {below below' : Below} (hb : BelowBehaves v below below') :
    BelowBehaves v below (Below.guarded State.Separated below') := by
  intro goal s hs
  cases goal with
  | statement =>
    intro hwithin
    have hconduct := hb .statement s hs hwithin
    rw [guarded_statement_apply]
    revert hconduct
    generalize below .statement v.setting s = r, below' .statement v.setting s = r'
    rintro (⟨h, hQ⟩ | ⟨h, he⟩)
    · rw [if_pos (hs.separated h hQ.1)]
      exact .ok h hQ
    · exact .error h he
  | expression | type | elseIf => exact hb _ s hs

theorem produce_behaves (v : Course) (levels : Nat) :
    BelowBehaves v (produce levels) (produceGuarded State.Separated levels) := by
  induction levels with
  | zero => exact fun goal s _ => behaves_read_bind (behaves_fail trivial)
  | succ levels ih =>
    intro goal s hs
    refine behaves_nested (goalBody_behaves ih.guarded goal ?_) fun n w t depth h => ?_
    · cases goal <;> exact hs
    · cases goal <;> exact h

theorem program_behaves {s : State} (hs : s.AtStart) :
    Behaves v s program (programGuarded State.Separated) fun _ w t =>
      Bracketed w ∧ t.current.kind = .eof := by
  refine (behaves_many (I := State.AtStart) (D := fun t => t.current.kind = .eof)
    (fun t ht => ?_) hs).map
  refine behaves_skipSemicolons.bind fun _ w u _ ⟨hw, hu⟩ => behaves_kind_bind ?_
  refine behaves_ite (fun heof => behaves_pure ⟨hw.append .nil, heof⟩) fun _ => ?_
  have hstatement : Behaves v u statement (statementGuarded State.Separated) fun _ w t =>
      Passage w ∧ t.AtStart :=
    (produce_behaves v (v.setting.limit - u.depth)).guarded.statement (hu ht)
  refine hstatement.bind fun n w' z _ ⟨hw', hz⟩ => behaves_pure ⟨?_, hz⟩
  exact (hw'.append .nil).prepend hw

@[simp] theorem State.behind_ofTokens (tokens : List Token) : (State.ofTokens tokens).behind = [] := by
  unfold State.ofTokens
  dsimp only
  split <;> rfl

def Course.ofTokens (tokens : List Token) (file : String) (limit : Nat) : Course :=
  ⟨⟨file, limit, .standard⟩, rfl, (State.ofTokens tokens).tokens⟩

theorem conduct_ofTokens (tokens : List Token) (file : String) (limit : Nat) :
    Conduct (.ofTokens tokens file limit) (.ofTokens tokens)
      (fun _ w t => Bracketed w ∧ t.current.kind = .eof)
      (program ⟨file, limit, .standard⟩ (.ofTokens tokens))
      (programGuarded State.Separated ⟨file, limit, .standard⟩ (.ofTokens tokens)) := by
  have hstart : (State.ofTokens tokens).AtStart := by
    left
    intro k hk
    rw [State.behind_ofTokens] at hk
    cases hk
  exact program_behaves hstart ⟨State.ended_ofTokens tokens, fun k hk => hk⟩

end Runs

theorem takeWhile_tokens_ofTokens {tokens w : List Token} {t : State}
    (h : (State.ofTokens tokens).tokens = w ++ t.tokens) (hw : ∀ k ∈ w, k.kind ≠ .eof)
    (ht : t.current.kind = .eof) : tokens.takeWhile (fun k => decide (k.kind ≠ .eof)) = w := by
  have hwhole : (w ++ t.tokens).takeWhile (fun k => decide (k.kind ≠ .eof)) = w := by
    rw [List.takeWhile_append_of_pos (by simpa using hw), State.tokens,
      List.takeWhile_cons_of_neg (by simpa using ht), List.append_nil]
  rcases State.tokens_ofTokens tokens with hsame | ⟨offset, hclosed⟩
  · rwa [← h, hsame] at hwhole
  · rw [← h, hclosed, List.takeWhile_append] at hwhole
    split at hwhole
    · rename_i hlength
      rw [← hwhole, (List.takeWhile_prefix _).eq_of_length hlength]
      simp [Token.endOfInput]
    · exact hwhole

end Grammar

def Node.ofTokensGuarded (allowed : State → Prop) [DecidablePred allowed] (tokens : List Token)
    (file : String) (limit : Nat) : Except Error Node :=
  match programGuarded allowed ⟨file, limit, .standard⟩ (.ofTokens tokens) with
  | .ok tree _ => .ok tree
  | .error e _ => .error e

theorem Node.ofTokensGuarded_of_forall {allowed : State → Prop} [DecidablePred allowed]
    (h : ∀ s, allowed s) (tokens : List Token) (file : String) (limit : Nat) :
    Node.ofTokensGuarded allowed tokens file limit = Node.ofTokens tokens file limit := by
  rw [Node.ofTokensGuarded, programGuarded_of_forall h]
  rfl

/-- Every accepted list of tokens is well bracketed up to its first end of the input, and it is accepted
also if statements may only stand behind a semicolon, an opening brace, a colon or nothing. -/
theorem Node.ofTokens_bracketed {tokens : List Token} {file : String} {limit : Nat} {tree : Node}
    (h : Node.ofTokens tokens file limit = .ok tree) :
    Bracketed (tokens.takeWhile fun k => decide (k.kind ≠ .eof)) ∧
      Node.ofTokensGuarded State.Separated tokens file limit = .ok tree := by
  have hconduct := conduct_ofTokens tokens file limit
  unfold Node.ofTokens at h
  unfold Node.ofTokensGuarded
  revert h hconduct
  generalize Grammar.program _ _ = r, programGuarded State.Separated _ _ = r'
  rintro h (⟨hst, hw, heof⟩ | ⟨-, -⟩)
  · rw [takeWhile_tokens_ofTokens hst.tokens hw.ne_eof heof]
    exact ⟨hw, h⟩
  · cases h

def twoDeclarations : List Token := [⟨.varWord, "var", 0, 3⟩, ⟨.openParen, "(", 3, 4⟩,
  ⟨.identifier, "x", 4, 5⟩, ⟨.closeParen, ")", 5, 6⟩, ⟨.semicolon, ";", 6, 7⟩,
  ⟨.varWord, "var", 8, 11⟩, ⟨.openParen, "(", 11, 12⟩, ⟨.closeParen, ")", 12, 13⟩]

theorem twoDeclarations_bracketed :
    let tree : Node := .program [.declaration .var [.name "x"] [], .declaration .var [] []]
    Node.ofTokens twoDeclarations "shell" 4 = .ok tree ∧ Bracketed twoDeclarations ∧
      Node.ofTokensGuarded State.Separated twoDeclarations "shell" 4 = .ok tree := by
  intro tree
  have htree : Node.ofTokens twoDeclarations "shell" 4 = .ok tree := rfl
  exact ⟨htree, Node.ofTokens_bracketed htree⟩

end MiniGo
