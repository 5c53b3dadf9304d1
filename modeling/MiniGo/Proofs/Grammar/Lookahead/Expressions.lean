import MiniGo.Proofs.Grammar.Lookahead

/-!
The rules for types and expressions do not look past the current token, if those one level down do not.
All of them pass a token but the lists that may be empty.
-/
namespace MiniGo.Grammar

def BelowLocal (f : Fork) (below : Below) : Prop := ∀ goal, Local f (below goal) Passing

variable {f : Fork} {below : Below}

theorem namedType_local : Local f namedType Passing := by
  refine local_expect_bind fun t => ?_
  split <;> exact local_pure id

theorem startsResultType_local : Local f startsResultType Resting :=
  local_kind_bind fun _ => local_read_bind (local_pure id)

section Types

variable (hb : BelowLocal f below)
include hb

theorem typeList_local : Local f (typeList below) Resting := local_separated (hb .type)

theorem resultType_local : Local f (resultType below) Passing := by
  refine local_kind_bind fun _ => local_ite (local_advance_bind fun _ => ?_) (hb .type)
  exact (typeList_local hb).after fun _ => local_expectOr_bind fun _ => local_pure id

theorem arrayType_local : Local f (arrayType below) Passing := by
  refine local_expect_bind fun _ => local_kind_bind fun _ => local_ite ?_ ?_
  · exact local_advance_bind fun _ => (hb .type).before fun _ => local_pure id
  · refine local_advance_bind fun t => ?_
    split
    · exact local_failAt
    · exact local_expectOr_bind fun _ => (hb .type).before fun _ => local_pure id

theorem chanType_local : Local f (chanType below) Passing := by
  refine local_expect_bind fun _ => local_kind_bind fun _ => local_ite ?_ ?_
  · exact local_advance_bind fun _ => (hb .type).before fun _ => local_pure id
  · exact (hb .type).before fun _ => local_pure id

theorem receiveChanType_local : Local f (receiveChanType below) Passing :=
  local_expect_bind fun _ => local_expectOr_bind fun _ => (hb .type).before fun _ => local_pure id

theorem functionType_local : Local f (functionType below) Passing := by
  refine local_expect_bind fun _ => local_expectOr_bind fun _ => ?_
  refine (typeList_local hb).after fun _ => local_expect_bind fun _ => ?_
  refine startsResultType_local.after fun _ => local_ite ?_ (local_pure id)
  exact (resultType_local hb).before fun _ => local_pure id

theorem nameTurn_local {terminators : List TokenKind} (found : List Node × List String) :
    Local f (nameTurn below terminators found) (Moves found) := by
  obtain ⟨ids, pending⟩ := found
  have hend : ∀ found, Local f (nameEnd found) Resting := fun _ =>
    local_kind_bind fun _ => local_ite (local_advance_bind fun _ => local_pure id) (local_pure id)
  refine local_kind_bind fun _ => local_ite (local_pure fun hmoves => hmoves rfl) ?_
  refine local_expectOr_bind fun t => local_kind_bind fun _ => local_ite ?_ ?_
  · exact (hb .type).before fun _ => hend _
  · exact hend _

theorem typedNames_local {terminators : List TokenKind} {list : NameList} :
    Local f (typedNames below terminators list) fun _ => list ≠ .parameters := by
  refine (local_loop (nameTurn_local hb)).bind ?_
  rintro ⟨ids, pending⟩
  cases pending with
  | nil =>
    change Local f (if ids.isEmpty && list ≠ .parameters then unexpected _ else pure ids) _
    split
    · exact local_unexpected
    · rename_i hsome
      refine local_pure fun ⟨hlist, hmoves⟩ => hmoves fun hnone => hsome ?_
      cases hnone
      simpa using hlist
  | cons untyped pending =>
    exact local_ite (local_pure fun ⟨_, hmoves⟩ => hmoves nofun) local_fail

theorem structType_local : Local f (structType below) Passing := by
  refine local_expect_bind fun _ => local_expectOr_bind fun _ => Local.after (local_many ?_) fun _ =>
    local_expect_bind fun _ => local_pure id
  refine local_skipSemicolons.after fun _ => local_kind_bind fun _ => local_ite (local_pure nofun) ?_
  refine Local.before ((typedNames_local hb).mono fun _ _ => nofun) fun fields => ?_
  exact local_kind_bind fun _ => local_ite (local_pure id) (local_expectOr_bind fun _ => local_pure id)

theorem typeBody_local : Local f (typeBody below) Passing := by
  refine local_read_bind (local_kind_bind fun k => ?_)
  cases f.setting.table.type k with
  | none => exact local_unexpected
  | some form =>
    cases form with
    | named => exact namedType_local
    | array => exact arrayType_local hb
    | chan => exact chanType_local hb
    | receiveChan => exact receiveChanType_local hb
    | function => exact functionType_local hb
    | struct => exact structType_local hb

end Types

theorem primary_local : Local f primary Passing := by
  refine local_advance_bind fun t => ?_
  split
  · split
    · exact local_pure id
    · exact local_failAt
  · exact local_pure id
  · exact local_pure id
  · exact local_pure id
  · exact local_failAt

theorem member_local {left : Node} : Local f (member left) Passing :=
  local_expect_bind fun _ => local_expectOr_bind fun _ => local_pure id

section Expressions

variable (hb : BelowLocal f below)
include hb

theorem block_local : Local f (block below) Passing := by
  refine local_expectOr_bind fun _ => (local_withStructLiterals (local_many ?_)).after fun _ =>
    local_expect_bind fun _ => local_pure id
  refine local_skipSemicolons.after fun _ => local_kind_bind fun k => ?_
  split
  · exact local_pure nofun
  · exact local_unexpected
  · exact (hb .statement).before fun _ => local_pure id

theorem functionRest_local {name : Option Node} : Local f (functionRest below name) Passing := by
  refine local_expectOr_bind fun _ => (typedNames_local hb).after fun formals =>
    local_expectOr_bind fun _ => local_kind_bind fun _ => local_ite ?_ ?_
  · exact (block_local hb).before fun _ => local_pure id
  · refine Local.before (Local.map (resultType_local hb)) fun result => ?_
    exact (block_local hb).before fun _ => local_pure id

theorem unary_local : Local f (unary below) Passing :=
  local_advance_bind fun _ => (hb (.expression .unary)).before fun _ => local_pure id

theorem receive_local : Local f (receive below) Passing :=
  local_expect_bind fun _ => (hb (.expression .unary)).before fun _ => local_pure id

theorem grouping_local : Local f (grouping below) Passing :=
  local_expect_bind fun _ => (local_withStructLiterals (hb (.expression .lowest))).before fun _ =>
    local_expectOr_bind fun _ => local_pure id

theorem functionLiteral_local : Local f (functionLiteral below) Passing :=
  local_expect_bind fun _ => (functionRest_local hb).mono fun _ => False.elim

theorem operandOf_local (form : OperandForm) : Local f (operandOf below form) Passing := by
  cases form with
  | primary => exact primary_local
  | unary => exact unary_local hb
  | receive => exact receive_local hb
  | grouping => exact grouping_local hb
  | function => exact functionLiteral_local hb

theorem binary_local {left : Node} {power : Power} : Local f (binary below left power) Passing :=
  local_advance_bind fun _ => (hb (.expression power)).before fun _ => local_pure id

theorem call_local {left : Node} : Local f (call below left) Passing :=
  local_expect_bind fun _ =>
    (local_withStructLiterals (local_separated (hb (.expression .lowest)))).after fun _ =>
      local_expect_bind fun _ => local_pure id

theorem index_local {left : Node} : Local f (index below left) Passing :=
  local_expect_bind fun _ => (local_withStructLiterals (hb (.expression .lowest))).before fun _ =>
    local_expectOr_bind fun _ => local_pure id

theorem fieldValue_local : Local f (fieldValue below) Passing :=
  local_expectOr_bind fun _ => local_expectOr_bind fun _ =>
    (hb (.expression .lowest)).before fun _ => local_pure id

theorem structLiteral_local {left : Node} : Local f (structLiteral below left) Passing := by
  unfold structLiteral
  split
  · exact local_expect_bind fun _ =>
      (local_withStructLiterals (local_separated (fieldValue_local hb))).after fun _ =>
        local_expect_bind fun _ => local_pure id
  · exact local_unexpected

theorem operatorOf_local {left : Node} {power : Power} (form : OperatorForm) :
    Local f (operatorOf below left power form) Passing := by
  cases form with
  | binary => exact binary_local hb
  | call => exact call_local hb
  | index => exact index_local hb
  | structLiteral => exact structLiteral_local hb
  | member => exact member_local

theorem tailTurn_local {power : Power} (found : Node × Nat) :
    Local f (tailTurn below power found) (Moves found) := by
  obtain ⟨left, height⟩ := found
  have hdone : Local f (pure (Turn.done (left, height))) (Moves (left, height)) :=
    local_pure fun hmoves => hmoves rfl
  refine local_kind_bind fun k => local_get_bind (fun s s' hflag => ?_) fun s => local_ite hdone ?_
  · dsimp only
    rw [hflag]
  · refine local_read_bind ?_
    cases f.setting.table.operator k with
    | none => exact hdone
    | some found =>
      refine local_ite hdone ((local_measured (operatorOf_local hb found.2)).before fun p => ?_)
      exact local_reach.after fun _ => local_pure id

theorem tail_local {left : Node} {height : Nat} {power : Power} :
    Local f (tail below left height power) Resting :=
  (local_loop (tailTurn_local hb)).after fun _ => local_pure id

theorem expressionBody_local {power : Power} : Local f (expressionBody below power) Passing := by
  refine local_read_bind (local_kind_bind fun k => ?_)
  cases f.setting.table.operand k with
  | none => exact local_unexpected
  | some form => exact (local_measured (operandOf_local hb form)).before fun _ => tail_local hb

theorem moreExpressions_local : Local f (moreExpressions below) Resting := by
  refine local_many (local_kind_bind fun _ => local_ite (local_advance_bind fun _ => ?_)
    (local_pure nofun))
  exact (hb (.expression .lowest)).before fun _ => local_pure id

theorem expressionList_local : Local f (expressionList below) Passing :=
  (hb (.expression .lowest)).before fun _ => (moreExpressions_local hb).after fun _ => local_pure id

end Expressions

end MiniGo.Grammar
