import MiniGo.Grammar.Types

/-!
Rules for expressions. An operand is told by its first token; behind it, operators that bind tighter
than the surrounding one take it as their left side, so that binary operators group to the left.
-/
namespace MiniGo.Grammar

def block (below : Below) : Rule (List Node) := do
  let _ ← expectOr .openCurly "expected `\x7b`"
  let body ← withStructLiterals true <| many do
    skipSemicolons
    match ← kind with
    | .closeCurly => return none
    | .eof => unexpected "expected `\x7d`"
    | _ => return some (← below .statement)
  let _ ← expect .closeCurly
  return body

def functionRest (below : Below) (name : Option Node) : Rule Node := do
  let _ ← expectOr .openParen "expected `(`"
  let formals ← typedNames below [.closeParen] .parameters
  let _ ← expectOr .closeParen "expected `)`"
  let result ← if (← kind) = .openCurly then pure none else some <$> resultType below
  return .function name formals result (← block below)

def primary : Rule Node := do
  let t ← advance
  match t.kind with
  | .number =>
    match Decimal.parse? t.value with
    | some x => return .ofLiteral (.number x)
    | none => failAt t.start (.numberParseError t.value)
  | .string => return .ofLiteral (.string t.value)
  | .boolean => return .ofLiteral (.bool (t.value == "true"))
  | .identifier => return .name t.value
  | _ => failAt t.start (.unexpectedToken t.describe)

def unary (below : Below) : Rule Node := do
  let t ← advance
  return .unary t.value (← below (.expression .unary))

def receive (below : Below) : Rule Node := do
  let _ ← expect .arrow
  return .receive (← below (.expression .unary)) false

def grouping (below : Below) : Rule Node := do
  let _ ← expect .openParen
  let e ← withStructLiterals true (below (.expression .lowest))
  let _ ← expectOr .closeParen "expected `)`"
  return e

def functionLiteral (below : Below) : Rule Node := do
  let _ ← expect .funcWord
  functionRest below none

def operandOf (below : Below) : OperandForm → Rule Node
  | .primary => primary
  | .unary => unary below
  | .receive => receive below
  | .grouping => grouping below
  | .function => functionLiteral below

def binary (below : Below) (left : Node) (power : Power) : Rule Node := do
  let t ← advance
  return .binary left t.value (← below (.expression power))

def call (below : Below) (left : Node) : Rule Node := do
  let _ ← expect .openParen
  let operands ← withStructLiterals true <|
    separated .closeParen "expected `,` or `)`" (below (.expression .lowest))
  let _ ← expect .closeParen
  return .application left operands

def index (below : Below) (left : Node) : Rule Node := do
  let _ ← expect .openBracket
  let i ← withStructLiterals true (below (.expression .lowest))
  let _ ← expectOr .closeBracket "expected `]`"
  return .index left i

def member (left : Node) : Rule Node := do
  let _ ← expect .dot
  let t ← expectOr .identifier "expected field name"
  return .member left (.name t.value)

def fieldValue (below : Below) : Rule Node := do
  let t ← expectOr .identifier "expected field name"
  let _ ← expectOr .colon "expected `:`"
  return .fieldValue (.name t.value) (← below (.expression .lowest))

/-- `Name{ field: value, ... }`, behind the name. -/
def structLiteral (below : Below) (left : Node) : Rule Node := do
  match left with
  | .identifier name _ =>
    let _ ← expect .openCurly
    let fields ← withStructLiterals true <|
      separated .closeCurly "expected `,` or `\x7d`" (fieldValue below)
    let _ ← expect .closeCurly
    return .structLiteral (.customType name) fields
  | _ => unexpected "expected struct type name before `\x7b`"

def operatorOf (below : Below) (left : Node) (power : Power) : OperatorForm → Rule Node
  | .binary => binary below left power
  | .call => call below left
  | .index => index below left
  | .structLiteral => structLiteral below left
  | .member => member left

def isIdentifier : Node → Bool
  | .identifier _ _ => true
  | _ => false

/-- Takes one more operator, if it binds tighter than `power`. `height` is how many levels the left
side reaches; a folded operator puts one more above it without nesting, so the limit is applied
here. -/
def tailTurn (below : Below) (power : Power) : Node × Nat → Rule (Turn (Node × Nat))
  | (left, height) => do
    let k ← kind
    if k = .openCurly && !((← get).structLiterals && isIdentifier left) then
      return .done (left, height)
    else match (← read).table.operator k with
      | none => return .done (left, height)
      | some (tighter, form) =>
        if tighter.rank ≤ power.rank then return .done (left, height)
        else
          let (folded, reached) ← measured (operatorOf below left tighter form)
          let height := max reached (height + 1)
          reach height
          return .more (folded, height)

def tail (below : Below) (left : Node) (height : Nat) (power : Power) : Rule Node := do
  return (← loop (left, height) (tailTurn below power)).1

/-- An expression whose operators bind tighter than `power`. -/
def expressionBody (below : Below) (power : Power) : Rule Node := do
  match (← read).table.operand (← kind) with
  | none => unexpected "expected expression"
  | some form =>
    let (left, height) ← measured (operandOf below form)
    tail below left height power

def moreExpressions (below : Below) : Rule (List Node) :=
  many do
    if (← kind) = .comma then
      let _ ← advance
      return some (← below (.expression .lowest))
    else return none

def expressionList (below : Below) : Rule (List Node) := do
  let first ← below (.expression .lowest)
  return first :: (← moreExpressions below)

end MiniGo.Grammar
