import MiniGo.Proofs.Grammar.Lookahead.Expressions

/-!
The rules for statements do not look past the current token either, but for a function at the start of a
statement, where the token behind `func` tells a named one: that is one more token which is passed in any
case.
-/
namespace MiniGo.Grammar

variable {f : Fork} {below : Below}

theorem terminator_local : Local f terminator Resting := by
  refine local_kind_bind fun k => ?_
  split
  · exact local_advance_bind fun _ => local_pure id
  · exact local_pure id
  · exact local_pure id
  · exact local_pure id
  · exact local_unexpected

theorem terminated_local {rule : Rule Node} (h : Local f rule Passing) :
    Local f (terminated rule) Passing :=
  h.before fun _ => terminator_local.after fun _ => local_pure id

theorem condition_local {statement : Node} : Local f (condition statement) Resting := by
  unfold condition
  split
  · exact local_pure id
  · exact local_unexpected

section Statements

variable (hb : BelowLocal f below)
include hb

theorem finishSimple_local {exprs : List Node} : Local f (finishSimple below exprs) Resting := by
  refine local_kind_bind fun k => ?_
  split
  · refine local_ite (local_advance_bind fun _ => ?_) local_unexpected
    exact (expressionList_local hb).before fun _ => local_pure id
  · refine local_ite (local_advance_bind fun _ => ?_) local_unexpected
    exact (expressionList_local hb).before fun _ => local_pure id
  · split
    · exact local_advance_bind fun _ => (hb (.expression .lowest)).before fun _ => local_pure id
    · exact local_unexpected
  · split
    · exact local_pure id
    · exact local_unexpected

theorem simpleStatement_local : Local f (simpleStatement below) Passing :=
  (expressionList_local hb).before fun _ => finishSimple_local hb

theorem declarationLine_local : Local f (declarationLine below) Passing := by
  refine Local.before ((typedNames_local hb).mono fun _ _ => nofun) fun ids => ?_
  refine local_kind_bind fun _ => local_ite (local_advance_bind fun _ => ?_) (local_pure id)
  exact (expressionList_local hb).before fun _ => local_pure id

theorem declarationLines_local : Local f (declarationLines below) Resting := by
  refine local_kind_bind fun _ => local_ite (local_advance_bind fun _ => ?_) ?_
  · refine (local_many ?_).after fun _ => local_expect_bind fun _ => local_pure id
    refine local_skipSemicolons.after fun _ => local_kind_bind fun k => ?_
    split
    · exact local_pure nofun
    · exact local_unexpected
    · refine (declarationLine_local hb).before fun _ => ?_
      exact terminator_local.after fun _ => local_pure id
  · exact (declarationLine_local hb).before fun _ => local_pure id

theorem declaration_local : Local f (declaration below) Passing :=
  local_advance_bind fun _ => (declarationLines_local hb).after fun _ => local_pure id

theorem typeDeclarationStatement_local : Local f (typeDeclarationStatement below) Passing :=
  terminated_local (local_expect_bind fun _ => local_expectOr_bind fun _ =>
    (hb .type).before fun _ => local_pure id)

theorem namedFunction_local : Local f (namedFunction below) Passing :=
  local_expect_bind fun _ => local_advance_bind fun _ =>
    (functionRest_local hb).mono fun _ => False.elim

theorem functionLiteralStatement_local : Local f (functionLiteralStatement below) Passing := by
  refine (local_measured (functionLiteral_local hb)).before fun p => local_kind_bind fun k => ?_
  split
  · exact local_pure id
  · exact local_pure id
  · exact local_pure id
  · refine (tail_local hb).after fun _ => (moreExpressions_local hb).after fun _ => ?_
    exact finishSimple_local hb

theorem functionStatement_local : Local f (functionStatement below) Passing :=
  terminated_local (local_kindAhead_bind fun _ =>
    local_ite (namedFunction_local hb) (functionLiteralStatement_local hb))

theorem returnStatement_local : Local f (returnStatement below) Passing := by
  refine terminated_local (local_expect_bind fun _ => local_kind_bind fun k => ?_)
  split
  · exact local_pure id
  · exact local_pure id
  · exact local_pure id
  · exact (expressionList_local hb).before fun _ => local_pure id

theorem ifHeader_local : Local f (ifHeader below) Passing := by
  refine (simpleStatement_local hb).before fun _ => local_kind_bind fun _ => local_ite ?_ ?_
  · exact local_advance_bind fun _ => (hb (.expression .lowest)).before fun _ => local_pure id
  · exact condition_local.after fun _ => local_pure id

theorem alternative_local : Local f (alternative below) Resting := by
  refine local_kind_bind fun _ => local_ite (local_advance_bind fun _ => ?_) (local_pure id)
  refine local_kind_bind fun k => ?_
  split
  · exact (hb .elseIf).before fun _ => local_pure id
  · exact (block_local hb).before fun _ => local_pure id
  · exact local_unexpected

theorem ifBody_local : Local f (ifBody below) Passing := by
  refine local_expect_bind fun _ => (local_withStructLiterals (ifHeader_local hb)).before fun _ => ?_
  exact (block_local hb).before fun _ => (alternative_local hb).after fun _ => local_pure id

theorem forRest_local {init : Node} : Local f (forRest below init) Passing := by
  have hpost : ∀ cond, Local f
      (do
        let _ ← expectOr .semicolon "expected `;`"
        let post ← if (← kind) = .openCurly then pure none else some <$> simpleStatement below
        return Clauses.mk (some init) cond post) Resting := by
    intro cond
    refine local_expectOr_bind fun _ => local_kind_bind fun _ => local_ite (local_pure id) ?_
    exact Local.before (Local.map (simpleStatement_local hb)) fun _ => local_pure id
  refine local_expect_bind fun _ => local_kind_bind fun _ => local_ite (hpost none) ?_
  exact Local.before (Local.map (hb (.expression .lowest))) fun cond => hpost cond

theorem forHeader_local : Local f (forHeader below) Resting := by
  refine local_kind_bind fun k => ?_
  split
  · exact local_pure id
  · exact (forRest_local hb).mono fun _ => False.elim
  · refine (simpleStatement_local hb).before fun _ => local_kind_bind fun _ => local_ite ?_ ?_
    · exact (forRest_local hb).mono fun _ => False.elim
    · exact condition_local.after fun _ => local_pure id

theorem forStatement_local : Local f (forStatement below) Passing := by
  refine terminated_local (local_expect_bind fun _ => ?_)
  refine (local_withStructLiterals (forHeader_local hb)).after fun _ => ?_
  exact (block_local hb).before fun _ => local_pure id

theorem goStatement_local : Local f (goStatement below) Passing := by
  refine terminated_local (local_expect_bind fun _ => local_current_bind fun _ => ?_)
  refine (hb (.expression .lowest)).before fun n => ?_
  split
  · exact local_pure id
  · exact local_refuse

theorem caseGuard_local : Local f (caseGuard below) Passing := by
  refine local_current_bind fun _ => (simpleStatement_local hb).before fun n => ?_
  split
  · exact local_pure id
  · exact local_refuse

theorem caseBody_local : Local f (caseBody below) Resting := by
  refine local_withStructLiterals (local_many ?_)
  refine local_skipSemicolons.after fun _ => local_kind_bind fun k => ?_
  split
  · exact local_pure nofun
  · exact local_pure nofun
  · exact local_pure nofun
  · exact local_pure nofun
  · exact (hb .statement).before fun _ => local_pure id

theorem selectArm_local : Local f (selectArm below) fun o => o.isSome = true := by
  refine local_skipSemicolons.after fun _ => local_kind_bind fun k => ?_
  split
  · exact local_pure nofun
  · refine local_advance_bind fun _ => (caseGuard_local hb).before fun _ => ?_
    exact local_expectOr_bind fun _ => (caseBody_local hb).after fun _ => local_pure id
  · refine local_advance_bind fun _ => local_expectOr_bind fun _ => ?_
    exact (caseBody_local hb).after fun _ => local_pure id
  · exact local_unexpected

theorem selectStatement_local : Local f (selectStatement below) Passing :=
  terminated_local (local_expect_bind fun _ => local_expectOr_bind fun _ =>
    (local_many (selectArm_local hb)).after fun _ => local_expect_bind fun _ => local_pure id)

theorem statementBody_local : Local f (statementBody below) Passing := by
  refine local_read_bind (local_kind_bind fun k => ?_)
  cases f.setting.table.statement k with
  | none => exact terminated_local (simpleStatement_local hb)
  | some form =>
    cases form with
    | declaration => exact terminated_local (declaration_local hb)
    | typeDeclaration => exact typeDeclarationStatement_local hb
    | function => exact functionStatement_local hb
    | ret => exact returnStatement_local hb
    | ifThen => exact terminated_local (ifBody_local hb)
    | loop => exact forStatement_local hb
    | go => exact goStatement_local hb
    | select => exact selectStatement_local hb

theorem goalBody_local (goal : Goal) : Local f (goalBody below goal) Passing := by
  cases goal with
  | statement => exact statementBody_local hb
  | expression power => exact expressionBody_local hb
  | type => exact typeBody_local hb
  | elseIf => exact ifBody_local hb

end Statements

/-- No goal looks past the tokens that it passes and the kind of the one behind them. -/
theorem produce_local (f : Fork) (levels : Nat) : BelowLocal f (produce levels) := by
  intro goal
  induction levels generalizing goal with
  | zero => exact local_read_bind local_fail
  | succ levels ih => exact local_nested (goalBody_local ih goal)

end MiniGo.Grammar
