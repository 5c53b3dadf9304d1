import MiniGo.Proofs.Grammar.Levels
import MiniGo.Proofs.Grammar.Limit.Statements

/-!
Function literals at the start of a statement. There the rule for functions reads an expression on the level of
the statement and not on the one below it. It reads the same: either the literal is all of the statement, or the
statement is the simple statement that starts with it.
-/
namespace MiniGo.Grammar

/-- The runs come to the same result, at the same tokens and on the same level. -/
inductive SameResult {α : Type} :
    EStateM.Result Error State α → EStateM.Result Error State α → Prop where
  | ok {a : α} {t t' : State} (h : t.Matches t') (hdepth : t'.depth = t.depth) :
      SameResult (.ok a t) (.ok a t')
  | error {e : Error} {t t' : State} : SameResult (.error e t) (.error e t')

/-- The run has failed, and not by the limit, or succeeded. -/
def WithinLimit {α : Type} (r : EStateM.Result Error State α) : Prop :=
  ∀ e t k, r = .error e t → e.cause ≠ .limitExceeded k

/-- The runs come to the same result, unless the first has exceeded the limit. -/
def SameWithinLimit {α : Type} (r r' : EStateM.Result Error State α) : Prop :=
  WithinLimit r → SameResult r r'

section Results

variable {α β : Type} {r r' r'' : EStateM.Result Error State α} {c c' : Setting} {s s' : State}

theorem SameResult.symm (h : SameResult r r') : SameResult r' r := by
  cases h with
  | ok h hdepth => exact .ok h.symm hdepth.symm
  | error => exact .error

theorem SameResult.trans (h : SameResult r r') (h' : SameResult r' r'') : SameResult r r'' := by
  cases h with
  | ok h hdepth =>
    cases h' with
    | ok h' hdepth' => exact .ok (h.trans h') (hdepth'.trans hdepth)
  | error =>
    cases h' with
    | error => exact .error

theorem SameResult.withinLimit (h : SameResult r r') (hr : WithinLimit r) : WithinLimit r' := by
  cases h with
  | ok =>
    rintro e t k ⟨⟩
  | error =>
    rintro e t k ⟨⟩
    exact hr _ _ k rfl

theorem SameWithinLimit.bind {x x' : Rule α} {f f' : α → Rule β}
    (hx : SameWithinLimit (x c s) (x' c' s'))
    (hf : ∀ a t t', t.Matches t' → t'.depth = t.depth → SameWithinLimit (f a c t) (f' a c' t')) :
    SameWithinLimit ((x >>= f) c s) ((x' >>= f') c' s') := by
  rw [bind_apply, bind_apply]
  revert hx
  generalize x c s = r, x' c' s' = r'
  intro hx hwithin
  cases r with
  | ok a t =>
    have hsame : SameResult (.ok a t) r' := hx (by rintro e u k ⟨⟩)
    cases hsame with
    | ok h hdepth => exact hf _ _ _ h hdepth hwithin
  | error e t =>
    have hsame : SameResult (.error e t) r' := hx fun e' u k h => hwithin e' u k (by cases h; rfl)
    cases hsame with
    | error => exact .error

theorem Drop.Agrees.same {d : Drop} (hd : d.rise = 0) (h : d.Agrees r r') : SameWithinLimit r r' := by
  intro hwithin
  cases h with
  | ok h => exact .ok h.toMatches (by rw [h.depth', h.depth, hd, Nat.add_zero])
  | error => exact .error
  | limit h => exact absurd h (hwithin _ _ _ rfl)

theorem Uniform.same {x : Below → Rule α} (hx : Uniform x) (hc : c.Reaches 0 c') {n n' : Nat} (hn : n ≤ n')
    (hs : s.Matches s') (hdepth : s'.depth = s.depth) :
    SameWithinLimit (x (produce n) c s) (x (produce n') c' s') := by
  have hbeside : (Drop.mk s.depth 0 s.peak s'.peak).Beside s s' :=
    ⟨hs, rfl, hdepth, 0, by simp, by simp⟩
  exact (hx.agrees hc (produce_agrees hc hn) hbeside).same rfl

private theorem setting_reaches_self (c : Setting) : c.Reaches 0 c := ⟨rfl, rfl, Nat.le_refl _⟩

theorem Uniform.exists_runs {x : Below → Rule α} (hx : Uniform x) {n : Nat} (hs : s.Matches s')
    (hdepth : s'.depth = s.depth) {a : α} {t : State} (h : Rule.Runs (x (produce n)) c s a t) :
    ∃ t', Rule.Runs (x (produce n)) c s' a t' ∧ t.Matches t' := by
  have hsame := hx.same (setting_reaches_self c) (Nat.le_refl n) hs hdepth
  rw [show x (produce n) c s = .ok a t from h] at hsame
  unfold Rule.Runs
  generalize x (produce n) c s' = r at hsame
  cases hsame (by rintro e u k ⟨⟩) with
  | ok ht => exact ⟨_, rfl, ht⟩

end Results

/-- The tokens behind a function literal that make it a statement of its own. -/
def literalEnd : List TokenKind := [.semicolon, .closeCurly, .eof]

/-- What a statement consists of behind its first expression. -/
def simpleRest (below : Below) (first : Node) : Rule Node := do
  let more ← moreExpressions below
  let n ← finishSimple below (first :: more)
  terminator
  return n

theorem simpleRest_uniform (first : Node) : Uniform fun below => simpleRest below first :=
  moreExpressions_uniform.bind fun _ => (finishSimple_uniform _).bind fun _ =>
    terminator_uniform.bind fun _ => .pure _

/-- An expression that starts with a function literal, on the current level. -/
def literalExpression (below : Below) : Rule Node := do
  let (function, height) ← measured (functionLiteral below)
  tail below function height .lowest

theorem literalExpression_uniform : Uniform literalExpression :=
  functionLiteral_advancing.uniform.measured.bind fun p => tail_uniform p.1 p.2 .lowest

section Statements

variable {file : String} {limit n : Nat} {s : State} {c : Setting}

private theorem terminated_simpleStatement (below : Below) :
    terminated (simpleStatement below) = below (.expression .lowest) >>= simpleRest below := by
  simp only [terminated, simpleStatement, expressionList, bind_assoc, pure_bind]
  rfl

theorem expressionBody_literal (hfunc : s.current.kind = .funcWord) (below : Below) :
    expressionBody below .lowest ⟨file, limit, .standard⟩ s =
      literalExpression below ⟨file, limit, .standard⟩ s := by
  rw [expressionBody, read_bind_apply, kind_bind_apply, hfunc]
  rfl

/-- An expression that starts with a function literal is the same on the level below, with one more level to
go. -/
theorem literalExpression_below (hfunc : s.current.kind = .funcWord) (hlimit : s.depth ≤ limit) :
    SameWithinLimit (literalExpression (produce n) ⟨file, limit, .standard⟩ s)
      (produce (n + 1) (.expression .lowest) ⟨file, limit + 1, .standard⟩ s) := by
  let t : State := { s with depth := s.depth + 1, peak := max s.peak (s.depth + 1) }
  let d : Drop := ⟨s.depth, 1, s.peak, max s.peak (s.depth + 1)⟩
  have hbeside : d.Beside s t :=
    ⟨⟨rfl, rfl, rfl, rfl⟩, rfl, rfl, 0, by simp [d], by simp only [t, d]; omega⟩
  have hreaches : Setting.Reaches d.rise ⟨file, limit, .standard⟩ ⟨file, limit + 1, .standard⟩ :=
    ⟨rfl, rfl, Nat.le_refl _⟩
  have hagrees := literalExpression_uniform.agrees hreaches (produce_agrees hreaches (Nat.le_refl n)) hbeside
  have hbelow : produce (n + 1) (.expression .lowest) ⟨file, limit + 1, .standard⟩ s =
      finish (fun a _ => a) (fun u => { u with depth := u.depth - 1 })
        (literalExpression (produce n) ⟨file, limit + 1, .standard⟩ t) := by
    have hbody : expressionBody (produce n) .lowest ⟨file, limit + 1, .standard⟩ t = _ :=
      expressionBody_literal (s := t) hfunc (produce n)
    change nested (expressionBody (produce n) .lowest) _ s = _
    rw [nested_apply (by dsimp only; omega)]
    exact congrArg (finish _ _) hbody
  rw [hbelow]
  intro hwithin
  revert hagrees hwithin
  generalize literalExpression (produce n) _ s = r, literalExpression (produce n) _ t = r'
  intro hagrees hwithin
  cases hagrees with
  | ok h =>
    refine .ok ⟨h.behind, h.current, h.later, h.structLiterals⟩ ?_
    rw [h.depth]
    exact congrArg (· - 1) h.depth'
  | error => exact .error
  | limit h => exact absurd h (hwithin _ _ _ rfl)

/-- What a statement makes of a function literal at its start. -/
def behindLiteral (below : Below) (function : Node) (height : Nat) : Rule Node := do
  match ← kind with
  | .semicolon | .closeCurly | .eof => terminated (return function)
  | _ => tail below function height .lowest >>= simpleRest below

private theorem terminated_functionLiteralStatement (below : Below) :
    terminated (functionLiteralStatement below) =
      measured (functionLiteral below) >>= fun p => behindLiteral below p.1 p.2 := by
  simp only [terminated, functionLiteralStatement, bind_assoc]
  congr 1
  funext p
  rw [behindLiteral]
  congr 1
  funext k
  cases k with
  | semicolon | closeCurly | eof => rfl
  | _ =>
    simp only [bind_assoc]
    rfl

theorem functionStatement_apply (hahead : s.kindAhead 1 ≠ .identifier) (below : Below) :
    functionStatement below c s =
      (measured (functionLiteral below) >>= fun p => behindLiteral below p.1 p.2) c s := by
  have hchoice : functionStatement below = kindAhead 1 >>= fun k =>
      terminated (if k = .identifier then namedFunction below else functionLiteralStatement below) := by
    simp only [functionStatement, terminated, bind_assoc]
  rw [hchoice, ← terminated_functionLiteralStatement]
  change terminated (if s.kindAhead 1 = .identifier then _ else _) c s = _
  rw [if_neg hahead]

theorem behindLiteral_goesOn {below : Below} {function : Node} {height : Nat}
    (hs : s.current.kind ∉ literalEnd) :
    behindLiteral below function height c s =
      (tail below function height .lowest >>= simpleRest below) c s := by
  rw [behindLiteral, kind_bind_apply]
  revert hs
  generalize s.current.kind = k
  intro hk
  cases k with
  | semicolon | closeCurly | eof => exact absurd (by decide) hk
  | _ => rfl

private theorem runs_terminator_of_literalEnd (hs : s.current.kind ∈ literalEnd) :
    ∃ t, Rule.Runs terminator c s () t := by
  by_cases hk : s.current.kind = .semicolon
  · exact ⟨_, runs_terminator.2 (.inl ⟨hk, rfl⟩)⟩
  · refine ⟨_, runs_terminator.2 (.inr ⟨?_, rfl⟩)⟩
    simp only [literalEnd, List.mem_cons, hk, false_or] at hs
    simp only [List.mem_cons]
    exact hs.imp_right .inr

theorem runs_behindLiteral_alone (below : Below) (function : Node) (height : Nat)
    (hs : s.current.kind ∈ literalEnd) :
    ∃ t, Rule.Runs (behindLiteral below function height) c s function t := by
  obtain ⟨t, ht⟩ := runs_terminator_of_literalEnd (c := c) hs
  have hrun : Rule.Runs (terminated (return function)) c s function t :=
    runs_terminated.2 ⟨s, runs_pure.2 ⟨rfl, rfl⟩, ht⟩
  refine ⟨t, runs_kind_bind.2 ?_⟩
  revert hs
  generalize s.current.kind = k
  intro hk
  cases k with
  | semicolon | closeCurly | eof => exact hrun
  | _ => exact absurd hk (by decide)

theorem functionStatement_eq_of_goesOn {below : Below} (hahead : s.kindAhead 1 ≠ .identifier)
    (hon : ∀ function t, Rule.Runs (functionLiteral below) c { s with peak := s.depth } function t →
      t.current.kind ∉ literalEnd) :
    functionStatement below c s = (literalExpression below >>= simpleRest below) c s := by
  have hsplit : literalExpression below >>= simpleRest below =
      measured (functionLiteral below) >>= fun p => tail below p.1 p.2 .lowest >>= simpleRest below := by
    simp only [literalExpression, bind_assoc]
  rw [functionStatement_apply hahead, hsplit, bind_apply, bind_apply]
  cases hmeasured : measured (functionLiteral below) c s with
  | error e t => rfl
  | ok p t =>
    obtain ⟨u, hliteral, -, rfl⟩ := runs_measured.1 hmeasured
    exact behindLiteral_goesOn (hon p.1 u hliteral)

/-- There the rule for functions does what the rule for simple statements does with one more level to go. -/
theorem functionStatement_goesOn (hfunc : s.current.kind = .funcWord)
    (hahead : s.kindAhead 1 ≠ .identifier) (hlimit : s.depth ≤ limit)
    (hon : ∀ function t, Rule.Runs (functionLiteral (produce (limit - s.depth))) ⟨file, limit, .standard⟩
      { s with peak := s.depth } function t → t.current.kind ∉ literalEnd) :
    SameWithinLimit (close functionStatement ⟨file, limit, .standard⟩ s)
      (close (fun below => terminated (simpleStatement below)) ⟨file, limit + 1, .standard⟩ s) := by
  have hlevels : limit + 1 - s.depth = limit - s.depth + 1 := by omega
  have hreaches : Setting.Reaches 0 ⟨file, limit, .standard⟩ ⟨file, limit + 1, .standard⟩ :=
    ⟨rfl, rfl, Nat.le_succ _⟩
  rw [close_apply, close_apply, functionStatement_eq_of_goesOn hahead hon]
  dsimp only
  rw [terminated_simpleStatement, hlevels]
  refine (literalExpression_below hfunc hlimit).bind fun first t t' ht hdepth => ?_
  exact (simpleRest_uniform first).same hreaches (Nat.le_succ _) ht hdepth

theorem Uniform.exists_enough {x : Below → Rule Node} {Q : Node → State → Prop} (hx : Uniform x)
    (file : String) (hs : s.Ended) (h : ∀ budget t, State.Affords ⟨file, False, budget⟩ s.depth 1 t →
      Settles ⟨file, False, budget⟩ x t Q) :
    ∃ enough, ∀ limit, enough ≤ limit → WithinLimit (close x ⟨file, limit, .standard⟩ s) ∧
      SameResult (close x ⟨file, limit + 1, .standard⟩ s) (close x ⟨file, limit, .standard⟩ s) := by
  let t : State := { s with peak := max s.peak s.depth }
  have hresult : ∃ enough r, WithinLimit r ∧
      ∀ limit, enough ≤ limit → close x ⟨file, limit, .standard⟩ t = r := by
    have hsound : t.Sound ⟨file, False, t.peak + t.later.length + 1⟩ :=
      ⟨hs, False.elim, Nat.le_max_right _ _, Nat.le_succ _⟩
    have hpaid : t.Affords ⟨file, False, t.peak + t.later.length + 1⟩ s.depth 1 := by
      have := hsound.depth_le
      refine ⟨rfl, ?_⟩
      change s.depth + 1 + t.later.length ≤ t.peak + t.later.length + 1
      change s.depth ≤ t.peak at this
      omega
    cases h _ t hpaid hsound with
    | ok n u h => exact ⟨u.peak, _, by rintro e v k ⟨⟩, h.within⟩
    | error e u p h hsp hp he =>
      refine ⟨p, _, ?_, h.within⟩
      rintro e v k ⟨⟩
      exact he k
  obtain ⟨enough, r, hr, hrun⟩ := hresult
  have hsame : ∀ limit, enough ≤ limit → SameResult r (close x ⟨file, limit, .standard⟩ s) := by
    intro limit hlimit
    have hmatches : t.Matches s := ⟨rfl, rfl, rfl, rfl⟩
    have hsame := hx.same (setting_reaches_self ⟨file, limit, .standard⟩)
      (Nat.le_refl (limit - s.depth)) hmatches rfl
    rw [show x (produce (limit - s.depth)) _ t = r from hrun limit hlimit] at hsame
    exact hsame hr
  refine ⟨enough, fun limit hlimit => ⟨(hsame limit hlimit).withinLimit hr, ?_⟩⟩
  exact (hsame (limit + 1) (Nat.le_succ_of_le hlimit)).symm.trans (hsame limit hlimit)

end Statements

/-- Two ways to read a function literal at the start of a statement agree. For every state at a `func` without a
name behind it, every limit from some on and the rule for functions: if there is a literal with a semicolon, a
closing brace or the end of the input behind it, the statement is that literal; and otherwise the rule comes to
the same result as the rule for simple statements with the end of a statement behind it, which is the same
statement at the same tokens or the same error. -/
theorem functionStatement_literal {file : String} {s : State} (hs : s.Ended)
    (hfunc : s.current.kind = .funcWord) (hahead : s.kindAhead 1 ≠ .identifier) :
    ∃ enough, ∀ limit, enough ≤ limit → let c : Setting := ⟨file, limit, .standard⟩
      (∃ function t u, close functionLiteral c s = .ok function t ∧ t.current.kind ∈ literalEnd ∧
        close functionStatement c s = .ok function u) ∨
      (∀ function t, close functionLiteral c s = .ok function t → t.current.kind ∉ literalEnd) ∧
        SameResult (close functionStatement c s)
          (close (fun below => terminated (simpleStatement below)) c s) := by
  obtain ⟨enough, hfunction⟩ := functionStatement_advancing.uniform.exists_enough file
    (Q := fun n t => Parsed False (t.reached + 1) .statement n) hs
    fun _ _ ht => functionStatement_settles (goals_settle _ _) ht
  obtain ⟨enough', hsimple⟩ := simpleStatement_advancing.terminated.uniform.exists_enough file
    (Q := fun n t => Parsed False (t.reached + 1) .simple n) hs
    fun _ _ ht => settles_terminated (simpleStatement_settles (goals_settle _ _) ht)
  refine ⟨max (max enough enough') s.depth, ?_⟩
  intro limit hlimit c
  have hdepth : s.depth ≤ limit := Nat.le_trans (Nat.le_max_right _ _) hlimit
  have hwithin := (hfunction limit (by omega)).1
  have hmore := (hsimple limit (by omega)).2
  -- The literal is measured, so the rule for functions forgets the levels that were reached before.
  let t : State := { s with peak := s.depth }
  have hst : s.Matches t := ⟨rfl, rfl, rfl, rfl⟩
  by_cases halone : ∃ function u, close functionLiteral c s = .ok function u ∧
      u.current.kind ∈ literalEnd
  · obtain ⟨function, u, hliteral, hu⟩ := halone
    obtain ⟨v, hmeasured, huv⟩ := functionLiteral_advancing.uniform.exists_runs hst rfl hliteral
    have hv : { v with peak := max v.peak s.peak }.current.kind ∈ literalEnd := huv.current ▸ hu
    obtain ⟨w, hw⟩ := runs_behindLiteral_alone (c := c) (produce (limit - s.depth)) function
      (v.peak - v.depth) hv
    refine .inl ⟨function, u, w, hliteral, hu, ?_⟩
    rw [close_apply, functionStatement_apply hahead]
    exact runs_bind.2 ⟨_, _, runs_measured.2 ⟨v, hmeasured, rfl, rfl⟩, hw⟩
  · refine .inr ⟨fun function u hliteral hu => halone ⟨function, u, hliteral, hu⟩, ?_⟩
    refine (functionStatement_goesOn hfunc hahead hdepth fun function u hliteral hu => ?_) hwithin
      |>.trans hmore
    obtain ⟨v, hv, huv⟩ := functionLiteral_advancing.uniform.exists_runs hst.symm rfl hliteral
    exact halone ⟨function, v, hv, huv.current ▸ hu⟩

theorem functionStatement_literal_called :
    let s := State.ofTokens [⟨.funcWord, "func", 0, 4⟩, ⟨.openParen, "(", 4, 5⟩, ⟨.closeParen, ")", 5, 6⟩,
      ⟨.openCurly, "\x7b", 6, 7⟩, ⟨.closeCurly, "\x7d", 7, 8⟩, ⟨.openParen, "(", 8, 9⟩,
      ⟨.closeParen, ")", 9, 10⟩, ⟨.semicolon, "\n", 10, 11⟩]
    s.Ended ∧ s.current.kind = .funcWord ∧ s.kindAhead 1 ≠ .identifier ∧
      ∃ enough, ∀ limit, enough ≤ limit → let c : Setting := ⟨"shell", limit, .standard⟩
        (∃ function t u, close functionLiteral c s = .ok function t ∧ t.current.kind ∈ literalEnd ∧
          close functionStatement c s = .ok function u) ∨
        (∀ function t, close functionLiteral c s = .ok function t → t.current.kind ∉ literalEnd) ∧
          SameResult (close functionStatement c s)
            (close (fun below => terminated (simpleStatement below)) c s) := by
  intro s
  have hs : s.Ended := State.ended_ofTokens _
  have hfunc : s.current.kind = .funcWord := rfl
  have hahead : s.kindAhead 1 ≠ .identifier := by decide
  exact ⟨hs, hfunc, hahead, functionStatement_literal hs hfunc hahead⟩

end MiniGo.Grammar
