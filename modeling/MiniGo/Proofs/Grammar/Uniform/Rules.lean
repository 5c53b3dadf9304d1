import MiniGo.Proofs.Grammar.Parsed
import MiniGo.Proofs.Grammar.Uniform

/-!
Every rule is put together from basic steps, and most rules pass a token wherever they succeed: they start or
end with a token that they look for, or they run a rule one level down that passes one. Rules that are repeated
pass a token at least wherever there is one more turn to come.
-/
namespace MiniGo.Grammar

section Advancing

variable {α β : Type}

/-- Where the rule comes to a result of which `Q` is true, it has passed a token. -/
def Advances (c : Setting) (Q : α → Prop) (x : Rule α) : Prop :=
  ∀ s a t, s.Ended → Rule.Runs x c s a t → Q a → s.position < t.position

structure BelowAdvances (c : Setting) (below : Below) : Prop where
  restores : ∀ goal, Restores c (below goal)
  advances : ∀ goal, Advances c (fun _ => True) (below goal)

/-- The rule is put together from basic steps and comes to results of which `Q` is true only past a token. -/
structure AdvancingTo (Q : α → Prop) (x : Below → Rule α) : Prop where
  uniform : Uniform x
  advances {c : Setting} {below : Below} (hb : BelowAdvances c below) : Advances c Q (x below)

abbrev Advancing (x : Below → Rule α) : Prop := AdvancingTo (fun _ => True) x

variable {P Q : α → Prop} {R : β → Prop} {x y : Below → Rule α}

theorem AdvancingTo.mono (hx : AdvancingTo P x) (h : ∀ a, Q a → P a) : AdvancingTo Q x :=
  ⟨hx.uniform, fun hb s a t hs hrun ha => hx.advances hb s a t hs hrun (h a ha)⟩

theorem advancing_goal (goal : Goal) : Advancing fun below => below goal :=
  ⟨.goal goal, fun hb => hb.advances goal⟩

theorem advancing_pure {a : α} (h : ¬ Q a) : AdvancingTo Q fun _ => pure a := by
  refine ⟨.pure a, fun _ s b t _ hrun hb => ?_⟩
  obtain ⟨rfl, -⟩ := runs_pure.1 hrun
  exact absurd hb h

theorem advancing_failAt (offset : Text.Offset) (cause : Cause) :
    AdvancingTo Q fun _ => (failAt offset cause : Rule α) :=
  ⟨.failAt offset cause, fun _ _ _ _ _ hrun => absurd hrun not_runs_failAt⟩

theorem advancing_unexpected (message : String) :
    AdvancingTo Q fun _ => (unexpected message : Rule α) :=
  ⟨uniform_unexpected message, fun _ _ _ _ _ hrun => absurd hrun not_runs_unexpected⟩

theorem advancing_advance : AdvancingTo (·.kind ≠ .eof) fun _ => advance := by
  refine ⟨.advance, fun _ s k t hs hrun hk => ?_⟩
  obtain ⟨rfl, rfl⟩ := runs_advance.1 hrun
  exact hs.position_lt_next hk

theorem advancing_expect (k : TokenKind) (hk : k ≠ .eof) : Advancing fun _ => expect k := by
  refine ⟨uniform_expect k, fun _ s a t hs hrun _ => ?_⟩
  obtain ⟨hkind, -, rfl⟩ := runs_expect.1 hrun
  exact hs.position_lt_next (hkind ▸ hk)

theorem advancing_expectOr (k : TokenKind) (message : String) (hk : k ≠ .eof) :
    Advancing fun _ => expectOr k message := by
  refine ⟨uniform_expectOr k message, fun _ s a t hs hrun _ => ?_⟩
  obtain ⟨hkind, -, rfl⟩ := runs_expectOr.1 hrun
  exact hs.position_lt_next (hkind ▸ hk)

theorem advancing_ite {p : Prop} [Decidable p] (hx : AdvancingTo Q x) (hy : AdvancingTo Q y) :
    AdvancingTo Q fun below => if p then x below else y below := by
  by_cases hp : p
  · simp only [if_pos hp]
    exact hx
  · simp only [if_neg hp]
    exact hy

/-- A token that is passed stays behind. If it may not be passed, the rest has to pass one. -/
theorem AdvancingTo.bind_or {f : α → Below → Rule β} (hx : AdvancingTo P x) (hf : ∀ a, Uniform (f a))
    (hrest : ∀ a, ¬ P a → AdvancingTo R (f a)) :
    AdvancingTo R fun below => x below >>= fun a => f a below := by
  refine ⟨hx.uniform.bind hf, fun hb s b t hs hrun hR => ?_⟩
  obtain ⟨a, u, ha, hrun⟩ := runs_bind.1 hrun
  have hsu := (hx.uniform.restores hb.restores).comesTo ha
  by_cases hP : P a
  · have hut := ((hf a).restores hb.restores).comesTo hrun
    exact Nat.lt_of_lt_of_le (hx.advances hb s a u hs ha hP) hut.position
  · have hlt := (hrest a hP).advances hb u b t (hs.comesTo hsu) hrun hR
    exact Nat.lt_of_le_of_lt hsu.position hlt

theorem AdvancingTo.bind {f : α → Below → Rule β} (hx : Advancing x) (hf : ∀ a, Uniform (f a)) :
    AdvancingTo R fun below => x below >>= fun a => f a below :=
  hx.bind_or hf fun _ h => absurd trivial h

theorem Uniform.before {f : α → Below → Rule β} (hx : Uniform x) (hf : ∀ a, AdvancingTo R (f a)) :
    AdvancingTo R fun below => x below >>= fun a => f a below :=
  AdvancingTo.bind_or (P := fun _ => False) ⟨hx, fun _ _ _ _ _ _ h => h.elim⟩ (fun a => (hf a).uniform)
    fun a _ => hf a

theorem advancing_look {f : State → Below → Rule β} (hmatches : ∀ s t, s.Matches t → f t = f s)
    (hf : ∀ s, AdvancingTo R (f s)) : AdvancingTo R fun below => get >>= fun s => f s below :=
  ⟨.look hmatches fun s => (hf s).uniform, fun hb s b t hs hrun => (hf s).advances hb s b t hs hrun⟩

theorem advancing_consult {f : Setting → Below → Rule β}
    (hlimit : ∀ c limit, f { c with limit := limit } = f c) (hf : ∀ c, AdvancingTo R (f c)) :
    AdvancingTo R fun below => read >>= fun c => f c below :=
  ⟨.consult hlimit fun c => (hf c).uniform,
    fun {c _} hb s b t hs hrun => (hf c).advances hb s b t hs hrun⟩

theorem AdvancingTo.measured (hx : Advancing x) : Advancing fun below => measured (x below) := by
  refine ⟨hx.uniform.measured, fun hb s p t hs hrun _ => ?_⟩
  obtain ⟨a, n⟩ := p
  obtain ⟨u, ha, -, rfl⟩ := runs_measured.1 hrun
  exact hx.advances hb { s with peak := s.depth } a u hs ha trivial

/-! Rules that are repeated. -/

def Turn.GoesOn : Turn α → Prop
  | .more _ => True
  | .done _ => False

theorem Restores.manyTurn {c : Setting} {rule : Rule (Option α)} (h : Restores c rule) (found : List α) :
    Restores c (manyTurn rule found) := by
  refine h.bind fun o => ?_
  cases o with
  | none => exact fun s => .refl c.limit s
  | some a => exact fun s => .refl c.limit s

theorem Advances.manyTurn {c : Setting} {rule : Rule (Option α)} (h : Advances c (·.isSome) rule)
    (found : List α) : Advances c Turn.GoesOn (manyTurn rule found) := by
  intro s y t hs hrun hy
  rcases runs_manyTurn.1 hrun with ⟨a, ha, -⟩ | ⟨-, rfl⟩
  · exact h s (some a) t hs ha rfl
  · exact hy.elim

theorem AdvancingTo.separatedItem {item : Below → Rule α} (h : Advancing item) (close : TokenKind)
    (message : String) :
    AdvancingTo (·.isSome) fun below => separatedItem close message (item below) := by
  refine uniform_kind.before fun _ => advancing_ite (advancing_pure nofun) ?_
  refine h.bind fun a => uniform_kind.bind fun _ => uniform_ite (.pure (some a)) ?_
  exact (uniform_expectOr .comma message).bind fun _ => .pure (some a)

end Advancing

section Types

theorem typeList_uniform : Uniform typeList := uniform_separated (.goal .type) _ _

theorem resultType_uniform : Uniform resultType := by
  refine uniform_kind.bind fun _ => uniform_ite ?_ (.goal .type)
  refine Uniform.advance.bind fun _ => typeList_uniform.bind fun elements => ?_
  exact (uniform_expectOr _ _).bind fun _ => .pure (Node.tupleType elements)

theorem namedType_advancing : Advancing fun _ => namedType := by
  refine (advancing_expect .identifier nofun).bind fun t => ?_
  cases BasicType.ofName? t.value with
  | none => exact .pure _
  | some b => exact .pure _

theorem arrayType_advancing : Advancing arrayType := by
  refine (advancing_expect .openBracket nofun).bind fun _ => uniform_kind.bind fun _ => uniform_ite ?_ ?_
  · exact Uniform.advance.bind fun _ => (Uniform.goal .type).bind fun _ => .pure _
  · refine Uniform.advance.bind fun t => ?_
    cases if t.kind = .number then arraySize? t.value else none with
    | none => exact .failAt _ _
    | some size =>
      exact (uniform_expectOr _ _).bind fun _ => (Uniform.goal .type).bind fun _ => .pure _

theorem chanType_advancing : Advancing chanType := by
  refine (advancing_expect .chanWord nofun).bind fun _ => uniform_kind.bind fun _ => uniform_ite ?_ ?_
  · exact Uniform.advance.bind fun _ => (Uniform.goal .type).bind fun _ => .pure _
  · exact (Uniform.goal .type).bind fun _ => .pure _

theorem receiveChanType_advancing : Advancing receiveChanType := by
  refine (advancing_expect .arrow nofun).bind fun _ => (uniform_expectOr _ _).bind fun _ => ?_
  exact (Uniform.goal .type).bind fun _ => .pure _

theorem startsResultType_uniform : Uniform fun _ => startsResultType :=
  uniform_kind.bind fun _ => .consult (fun _ _ => rfl) fun _ => .pure _

theorem functionType_advancing : Advancing functionType := by
  refine (advancing_expect .funcWord nofun).bind fun _ => (uniform_expectOr _ _).bind fun _ => ?_
  refine typeList_uniform.bind fun elements => (uniform_expect _).bind fun _ => ?_
  refine startsResultType_uniform.bind fun _ => uniform_ite ?_ (.pure _)
  exact resultType_uniform.bind fun _ => .pure _

variable {terminators : List TokenKind} {list : NameList}

theorem nameTurn_advancing (found : List Node × List String) :
    AdvancingTo (· ≠ .done found) fun below => nameTurn below terminators found := by
  obtain ⟨ids, pending⟩ := found
  refine uniform_kind.before fun _ => advancing_ite (advancing_pure (· rfl)) ?_
  have hend : ∀ found, Uniform fun _ => nameEnd found := fun _ =>
    uniform_kind.bind fun _ => uniform_ite (Uniform.advance.bind fun _ => .pure _) (.pure _)
  refine (advancing_expectOr .identifier _ nofun).bind fun t => uniform_kind.bind fun k => uniform_ite ?_ ?_
  · exact (Uniform.goal .type).bind fun _ => (Uniform.pure _).bind hend
  · exact (Uniform.pure _).bind hend

theorem names_advancing :
    AdvancingTo (· ≠ ([], [])) fun below => loop ([], []) (nameTurn below terminators) := by
  refine ⟨uniform_loop (fun found => (nameTurn_advancing found).uniform) ([], []),
    fun {c below} hb s found t hs hrun hfound => ?_⟩
  have hturn : ∀ found u x z, s.ComesTo c.limit u ∧ (found = ([], []) ∨ s.position < u.position) →
      Rule.Runs (nameTurn below terminators found) c u x z →
        s.ComesTo c.limit z ∧ (x = .done ([], []) ∨ s.position < z.position) := by
    rintro found u x z ⟨hsu, hnone⟩ hx
    have huz := ((nameTurn_advancing found).uniform.restores hb.restores).comesTo hx
    refine ⟨hsu.trans huz, ?_⟩
    by_cases hdone : x = .done found
    · subst hdone
      exact hnone.imp (congrArg _) fun hlt => Nat.lt_of_lt_of_le hlt huz.position
    · have hlt := (nameTurn_advancing found).advances hb u x z (hs.comesTo hsu) hx hdone
      exact .inr (Nat.lt_of_le_of_lt hsu.position hlt)
  have hinv := loop_invariant (I := fun found u => s.ComesTo c.limit u ∧
    (found = ([], []) ∨ s.position < u.position)) (fun found u b z hI hx => ?_) (fun found u b z hI hx => ?_)
    hrun ⟨.refl c.limit s, .inl rfl⟩
  · exact hinv.2.resolve_left hfound
  · exact (hturn found u _ z hI hx).imp_right (·.imp_left nofun)
  · exact (hturn found u _ z hI hx).imp_right (·.imp_left Turn.done.inj)

theorem typedNames_advancing :
    AdvancingTo (fun _ => list ≠ .parameters) fun below => typedNames below terminators list := by
  refine names_advancing.bind_or (fun found => ?_) fun found hnone => ?_
  · obtain ⟨ids, pending⟩ := found
    cases pending with
    | nil => exact uniform_ite (uniform_unexpected _) (.pure _)
    | cons untyped pending => exact uniform_ite (.pure _) (uniform_fail _)
  · obtain rfl := Classical.not_not.1 hnone
    cases list with
    | parameters => exact advancing_pure (absurd rfl)
    | declaration | structFields => exact advancing_unexpected _

theorem typedNames_uniform : Uniform fun below => typedNames below terminators list :=
  typedNames_advancing.uniform

def fieldLine (below : Below) : Rule (Option (List Node)) := do
  skipSemicolons
  if (← kind) = .closeCurly then return none
  else
    let fields ← typedNames below [.semicolon, .closeCurly] .structFields
    if (← kind) = .closeCurly then return some fields
    else
      let _ ← expectOr .semicolon "expected `;` or newline"
      return some fields

theorem fieldLine_advancing : AdvancingTo (·.isSome) fieldLine := by
  refine uniform_skipSemicolons.before fun _ => uniform_kind.before fun _ => ?_
  refine advancing_ite (advancing_pure nofun) ?_
  refine (typedNames_advancing.mono nofun).bind fun fields => ?_
  refine uniform_kind.bind fun _ => uniform_ite (.pure _) ?_
  exact (uniform_expectOr _ _).bind fun _ => .pure _

private theorem structType_eq : structType = fun below => do
    let _ ← expect .structWord
    let _ ← expectOr .openCurly "expected `\x7b`"
    let groups ← many (fieldLine below)
    let _ ← expect .closeCurly
    return .structType (groups.flatten.map .structElement) := rfl

theorem structType_advancing : Advancing structType := by
  rw [structType_eq]
  refine (advancing_expect .structWord nofun).bind fun _ => (uniform_expectOr _ _).bind fun _ => ?_
  exact (uniform_many fieldLine_advancing.uniform).bind fun _ => (uniform_expect _).bind fun _ => .pure _

theorem typeOf_advancing (form : TypeForm) : Advancing fun below => typeOf below form := by
  cases form with
  | named => exact namedType_advancing
  | array => exact arrayType_advancing
  | chan => exact chanType_advancing
  | receiveChan => exact receiveChanType_advancing
  | function => exact functionType_advancing
  | struct => exact structType_advancing

theorem typeBody_advancing : Advancing typeBody := by
  refine advancing_consult (fun _ _ => rfl) fun c => uniform_kind.before fun k => ?_
  cases c.table.type k with
  | none => exact advancing_unexpected _
  | some form => exact typeOf_advancing form

end Types

section Expressions

def blockItem (below : Below) : Rule (Option Node) := do
  skipSemicolons
  match ← kind with
  | .closeCurly => return none
  | .eof => unexpected "expected `\x7d`"
  | _ => return some (← below .statement)

theorem blockItem_advancing : AdvancingTo (·.isSome) blockItem := by
  refine uniform_skipSemicolons.before fun _ => uniform_kind.before fun k => ?_
  cases k with
  | closeCurly => exact advancing_pure nofun
  | eof => exact advancing_unexpected _
  | _ => exact (advancing_goal .statement).bind fun _ => .pure _

private theorem block_eq : block = fun below => do
    let _ ← expectOr .openCurly "expected `\x7b`"
    let body ← withStructLiterals true (many (blockItem below))
    let _ ← expect .closeCurly
    return body := rfl

theorem block_advancing : Advancing block := by
  rw [block_eq]
  refine (advancing_expectOr .openCurly _ nofun).bind fun _ => ?_
  refine .bind (.withStructLiterals true (uniform_many blockItem_advancing.uniform)) fun _ => ?_
  exact (uniform_expect _).bind fun _ => .pure _

theorem functionRest_advancing (name : Option Node) : Advancing fun below => functionRest below name := by
  refine (advancing_expectOr .openParen _ nofun).bind fun _ => typedNames_uniform.bind fun formals => ?_
  have hblock : ∀ result, Uniform fun below => do
      return Node.function name formals result (← block below) :=
    fun _ => block_advancing.uniform.bind fun _ => .pure _
  refine (uniform_expectOr _ _).bind fun _ => uniform_kind.bind fun k => uniform_ite ?_ ?_
  · exact (Uniform.pure none).bind hblock
  · exact (resultType_uniform.map some).bind hblock

theorem primary_advancing : Advancing fun _ => primary := by
  refine advancing_advance.bind_or (fun t => ?_) fun t heof => ?_
  · cases t.kind with
    | number =>
      cases Decimal.parse? t.value with
      | none => exact .failAt _ _
      | some x => exact .pure _
    | string | boolean | identifier => exact .pure _
    | _ => exact .failAt _ _
  · simp only [Classical.not_not.1 heof]
    exact advancing_failAt _ _

theorem unary_advancing : Advancing unary :=
  Uniform.advance.before fun _ => (advancing_goal _).bind fun _ => .pure _

theorem receive_advancing : Advancing receive :=
  (advancing_expect .arrow nofun).bind fun _ => (Uniform.goal _).bind fun _ => .pure _

theorem grouping_advancing : Advancing grouping := by
  refine (advancing_expect .openParen nofun).bind fun _ =>
    .bind (.withStructLiterals true (.goal _)) fun _ => ?_
  exact (uniform_expectOr _ _).bind fun _ => .pure _

theorem functionLiteral_advancing : Advancing functionLiteral :=
  (advancing_expect .funcWord nofun).bind fun _ => (functionRest_advancing none).uniform

theorem operandOf_advancing (form : OperandForm) : Advancing fun below => operandOf below form := by
  cases form with
  | primary => exact primary_advancing
  | unary => exact unary_advancing
  | receive => exact receive_advancing
  | grouping => exact grouping_advancing
  | function => exact functionLiteral_advancing

variable (left : Node)

theorem binary_advancing (power : Power) : Advancing fun below => binary below left power :=
  Uniform.advance.before fun _ => (advancing_goal _).bind fun _ => .pure _

theorem call_advancing : Advancing fun below => call below left := by
  refine (advancing_expect .openParen nofun).bind fun _ => .bind (.withStructLiterals true ?_) fun _ => ?_
  · exact uniform_separated (.goal _) _ _
  · exact (uniform_expect _).bind fun _ => .pure _

theorem index_advancing : Advancing fun below => index below left := by
  refine (advancing_expect .openBracket nofun).bind fun _ =>
    .bind (.withStructLiterals true (.goal _)) fun _ => ?_
  exact (uniform_expectOr _ _).bind fun _ => .pure _

theorem member_advancing : Advancing fun _ => member left :=
  (advancing_expect .dot nofun).bind fun _ => (uniform_expectOr _ _).bind fun _ => .pure _

theorem fieldValue_advancing : Advancing fieldValue := by
  refine (advancing_expectOr .identifier _ nofun).bind fun _ => (uniform_expectOr _ _).bind fun _ => ?_
  exact (Uniform.goal _).bind fun _ => .pure _

theorem structLiteral_advancing : Advancing fun below => structLiteral below left := by
  cases left with
  | identifier name type =>
    refine (advancing_expect .openCurly nofun).bind fun _ => .bind (.withStructLiterals true ?_) fun _ => ?_
    · exact uniform_separated fieldValue_advancing.uniform _ _
    · exact (uniform_expect _).bind fun _ => .pure _
  | _ => exact advancing_unexpected _

theorem operatorOf_advancing (power : Power) (form : OperatorForm) :
    Advancing fun below => operatorOf below left power form := by
  cases form with
  | binary => exact binary_advancing left power
  | call => exact call_advancing left
  | index => exact index_advancing left
  | structLiteral => exact structLiteral_advancing left
  | member => exact member_advancing left

theorem tailTurn_advancing (power : Power) (folded : Node × Nat) :
    AdvancingTo Turn.GoesOn fun below => tailTurn below power folded := by
  obtain ⟨left, height⟩ := folded
  refine uniform_kind.before fun k => advancing_look (fun _ _ h => by simp only [h.structLiterals]) fun s => ?_
  refine advancing_ite (advancing_pure id) (advancing_consult (fun _ _ => rfl) fun c => ?_)
  cases c.table.operator k with
  | none => exact advancing_pure id
  | some operator =>
    obtain ⟨tighter, form⟩ := operator
    refine advancing_ite (advancing_pure id) ?_
    refine (operatorOf_advancing left tighter form).measured.bind fun folded => ?_
    exact (Uniform.reach _).bind fun _ => .pure _

theorem tail_uniform (height : Nat) (power : Power) : Uniform fun below => tail below left height power :=
  (uniform_loop (fun folded => (tailTurn_advancing power folded).uniform) (left, height)).bind fun _ => .pure _

theorem expressionBody_advancing (power : Power) : Advancing fun below => expressionBody below power := by
  refine advancing_consult (fun _ _ => rfl) fun c => uniform_kind.before fun k => ?_
  cases c.table.operand k with
  | none => exact advancing_unexpected _
  | some form =>
    exact (operandOf_advancing form).measured.bind fun operand => tail_uniform operand.1 operand.2 power

def commaExpression (below : Below) : Rule (Option Node) := do
  if (← kind) = .comma then
    let _ ← advance
    return some (← below (.expression .lowest))
  else return none

theorem commaExpression_advancing : AdvancingTo (·.isSome) commaExpression := by
  refine uniform_kind.before fun _ => advancing_ite ?_ (advancing_pure nofun)
  exact Uniform.advance.before fun _ => (advancing_goal _).bind fun _ => .pure _

private theorem moreExpressions_eq : moreExpressions = fun below => many (commaExpression below) := rfl

theorem moreExpressions_uniform : Uniform moreExpressions := by
  rw [moreExpressions_eq]
  exact uniform_many commaExpression_advancing.uniform

theorem expressionList_advancing : Advancing expressionList :=
  (advancing_goal _).bind fun _ => moreExpressions_uniform.bind fun _ => .pure _

end Expressions

section Statements

theorem terminator_uniform : Uniform fun _ => terminator := by
  refine uniform_kind.bind fun k => ?_
  cases k with
  | semicolon => exact Uniform.advance.bind fun _ => .pure ()
  | closeCurly | closeParen | eof => exact .pure ()
  | _ => exact uniform_unexpected _

theorem AdvancingTo.terminated {rule : Below → Rule Node} (h : Advancing rule) :
    Advancing fun below => terminated (rule below) :=
  h.bind fun _ => terminator_uniform.bind fun _ => .pure _

theorem finishSimple_uniform (exprs : List Node) : Uniform fun below => finishSimple below exprs := by
  refine uniform_kind.bind fun k => ?_
  have hlist : ∀ make : List Node → Node, Uniform fun below => do
      let _ ← Grammar.advance
      return make (← expressionList below) :=
    fun _ => Uniform.advance.bind fun _ => expressionList_advancing.uniform.bind fun _ => .pure _
  cases k with
  | define => exact uniform_ite (hlist _) (uniform_unexpected _)
  | assign => exact uniform_ite (hlist _) (uniform_unexpected _)
  | arrow =>
    cases exprs with
    | nil => exact uniform_unexpected _
    | cons chan exprs =>
      cases exprs with
      | nil => exact Uniform.advance.bind fun _ => (Uniform.goal _).bind fun _ => .pure _
      | cons => exact uniform_unexpected _
  | _ =>
    cases exprs with
    | nil => exact uniform_unexpected _
    | cons e exprs =>
      cases exprs with
      | nil => exact .pure _
      | cons => exact uniform_unexpected _

theorem simpleStatement_advancing : Advancing simpleStatement :=
  expressionList_advancing.bind finishSimple_uniform

theorem condition_uniform (statement : Node) : Uniform fun _ => condition statement := by
  cases statement with
  | expressionStatement e => exact .pure e
  | _ => exact uniform_unexpected _

theorem declarationLine_advancing : Advancing declarationLine := by
  refine (typedNames_advancing.mono nofun).bind fun _ => ?_
  refine uniform_kind.bind fun _ => uniform_ite ?_ (.pure _)
  exact Uniform.advance.bind fun _ => expressionList_advancing.uniform.bind fun _ => .pure _

theorem groupLine_advancing : AdvancingTo (·.isSome) groupLine := by
  refine uniform_skipSemicolons.before fun _ => uniform_kind.before fun k => ?_
  cases k with
  | closeParen => exact advancing_pure nofun
  | eof => exact advancing_unexpected _
  | _ => exact declarationLine_advancing.bind fun _ => terminator_uniform.bind fun _ => .pure _

private theorem declarationLines_eq : declarationLines = fun below => do
    if (← kind) = .openParen then
      let _ ← advance
      let lines ← many (groupLine below)
      let _ ← expect .closeParen
      return lines
    else return [← declarationLine below] := rfl

theorem declarationLines_advancing : Advancing declarationLines := by
  rw [declarationLines_eq]
  refine uniform_kind.before fun _ => advancing_ite ?_ (declarationLine_advancing.bind fun _ => .pure _)
  refine Uniform.advance.before fun _ => (uniform_many groupLine_advancing.uniform).before fun _ => ?_
  exact (advancing_expect .closeParen nofun).bind fun _ => .pure _

theorem declaration_advancing : Advancing declaration :=
  Uniform.advance.before fun _ => declarationLines_advancing.bind fun _ => .pure _

theorem typeDeclarationStatement_advancing : Advancing typeDeclarationStatement := by
  refine AdvancingTo.terminated ((advancing_expect .typeWord nofun).bind fun _ => ?_)
  exact (uniform_expectOr _ _).bind fun _ => (Uniform.goal _).bind fun _ => .pure _

theorem namedFunction_advancing : Advancing namedFunction :=
  (advancing_expect .funcWord nofun).bind fun _ =>
    Uniform.advance.bind fun _ => (functionRest_advancing _).uniform

theorem functionLiteralStatement_advancing : Advancing functionLiteralStatement := by
  refine functionLiteral_advancing.measured.bind fun p => uniform_kind.bind fun k => ?_
  cases k with
  | semicolon | closeCurly | eof => exact .pure _
  | _ =>
    refine (tail_uniform _ _ _).bind fun _ => moreExpressions_uniform.bind fun _ => ?_
    exact finishSimple_uniform _

theorem functionStatement_advancing : Advancing functionStatement := by
  refine AdvancingTo.terminated ((uniform_kindAhead 1).before fun _ => ?_)
  exact advancing_ite namedFunction_advancing functionLiteralStatement_advancing

theorem returnStatement_advancing : Advancing returnStatement := by
  refine AdvancingTo.terminated ((advancing_expect .returnWord nofun).bind fun _ => ?_)
  refine uniform_kind.bind fun k => ?_
  cases k with
  | semicolon | closeCurly | eof => exact .pure _
  | _ => exact expressionList_advancing.uniform.bind fun _ => .pure _

theorem ifHeader_uniform : Uniform ifHeader := by
  refine simpleStatement_advancing.uniform.bind fun first => uniform_kind.bind fun _ => uniform_ite ?_ ?_
  · exact Uniform.advance.bind fun _ => (Uniform.goal _).bind fun _ => .pure _
  · exact (condition_uniform first).bind fun _ => .pure _

theorem alternative_uniform : Uniform alternative := by
  refine uniform_kind.bind fun _ => uniform_ite ?_ (.pure _)
  refine Uniform.advance.bind fun _ => uniform_kind.bind fun k => ?_
  cases k with
  | ifWord => exact (Uniform.goal _).bind fun _ => .pure _
  | openCurly => exact block_advancing.uniform.bind fun _ => .pure _
  | _ => exact uniform_unexpected _

theorem ifBody_advancing : Advancing ifBody := by
  refine (advancing_expect .ifWord nofun).bind fun _ => ?_
  refine (ifHeader_uniform.withStructLiterals false).bind fun _ => ?_
  exact block_advancing.uniform.bind fun _ => alternative_uniform.bind fun _ => .pure _

theorem forRest_uniform (init : Node) : Uniform fun below => forRest below init := by
  have hpost : ∀ cond, Uniform fun below => do
      let _ ← expectOr .semicolon "expected `;`"
      let post ← if (← kind) = .openCurly then pure none else some <$> simpleStatement below
      return Clauses.mk (some init) cond post := by
    intro cond
    refine (uniform_expectOr _ _).bind fun _ => uniform_kind.bind fun _ => uniform_ite ?_ ?_
    · exact (Uniform.pure none).bind fun _ => .pure _
    · exact (simpleStatement_advancing.uniform.map some).bind fun _ => .pure _
  refine (uniform_expect _).bind fun _ => uniform_kind.bind fun _ => uniform_ite ?_ ?_
  · exact (Uniform.pure none).bind hpost
  · exact ((Uniform.goal _).map some).bind hpost

theorem forHeader_uniform : Uniform forHeader := by
  refine uniform_kind.bind fun k => ?_
  cases k with
  | openCurly => exact .pure _
  | semicolon => exact forRest_uniform _
  | _ =>
    refine simpleStatement_advancing.uniform.bind fun first => uniform_kind.bind fun _ => ?_
    exact uniform_ite (forRest_uniform first) ((condition_uniform first).bind fun _ => .pure _)

theorem forStatement_advancing : Advancing forStatement := by
  refine AdvancingTo.terminated ((advancing_expect .forWord nofun).bind fun _ => ?_)
  refine (forHeader_uniform.withStructLiterals false).bind fun _ => ?_
  exact block_advancing.uniform.bind fun _ => .pure _

theorem goStatement_advancing : Advancing goStatement := by
  refine AdvancingTo.terminated ((advancing_expect .goWord nofun).bind fun _ => ?_)
  refine uniform_current.bind fun start => (Uniform.goal _).bind fun e => ?_
  cases e with
  | application operator operands => exact .pure _
  | _ => exact uniform_refuse start _

theorem caseGuard_advancing : Advancing caseGuard := by
  refine uniform_current.before fun start => simpleStatement_advancing.bind fun statement => ?_
  cases guard? statement with
  | none => exact uniform_refuse start _
  | some guard => exact .pure _

def caseItem (below : Below) : Rule (Option Node) := do
  skipSemicolons
  match ← kind with
  | .caseWord | .defaultWord | .closeCurly | .eof => return none
  | _ => return some (← below .statement)

theorem caseItem_advancing : AdvancingTo (·.isSome) caseItem := by
  refine uniform_skipSemicolons.before fun _ => uniform_kind.before fun k => ?_
  cases k with
  | caseWord | defaultWord | closeCurly | eof => exact advancing_pure nofun
  | _ => exact (advancing_goal _).bind fun _ => .pure _

private theorem caseBody_eq : caseBody = fun below => withStructLiterals true (many (caseItem below)) := rfl

theorem caseBody_uniform : Uniform caseBody := by
  rw [caseBody_eq]
  exact .withStructLiterals true (uniform_many caseItem_advancing.uniform)

theorem selectArm_advancing : AdvancingTo (·.isSome) selectArm := by
  refine uniform_skipSemicolons.before fun _ => uniform_kind.before fun k => ?_
  cases k with
  | closeCurly => exact advancing_pure nofun
  | caseWord =>
    refine Uniform.advance.before fun _ => caseGuard_advancing.bind fun _ => ?_
    exact (uniform_expectOr _ _).bind fun _ => caseBody_uniform.bind fun _ => .pure _
  | defaultWord =>
    refine Uniform.advance.before fun _ => (advancing_expectOr .colon _ nofun).bind fun _ => ?_
    exact caseBody_uniform.bind fun _ => .pure _
  | _ => exact advancing_unexpected _

theorem selectStatement_advancing : Advancing selectStatement := by
  refine AdvancingTo.terminated ((advancing_expect .selectWord nofun).bind fun _ => ?_)
  refine (uniform_expectOr _ _).bind fun _ => (uniform_many selectArm_advancing.uniform).bind fun _ => ?_
  exact (uniform_expect _).bind fun _ => .pure _

theorem statementOf_advancing (form : StatementForm) : Advancing fun below => statementOf below form := by
  cases form with
  | declaration => exact declaration_advancing.terminated
  | typeDeclaration => exact typeDeclarationStatement_advancing
  | function => exact functionStatement_advancing
  | ret => exact returnStatement_advancing
  | ifThen => exact ifBody_advancing.terminated
  | loop => exact forStatement_advancing
  | go => exact goStatement_advancing
  | select => exact selectStatement_advancing

theorem statementBody_advancing : Advancing statementBody := by
  refine advancing_consult (fun _ _ => rfl) fun c => uniform_kind.before fun k => ?_
  cases c.table.statement k with
  | none => exact simpleStatement_advancing.terminated
  | some form => exact statementOf_advancing form

theorem goalBody_advancing (goal : Goal) : Advancing fun below => goalBody below goal := by
  cases goal with
  | statement => exact statementBody_advancing
  | expression power => exact expressionBody_advancing power
  | type => exact typeBody_advancing
  | elseIf => exact ifBody_advancing

end Statements

end MiniGo.Grammar
