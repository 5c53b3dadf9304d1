import MiniGo.Grammar.Rule
import MiniGo.Number.Decimal

/-! Rules for types and for the lists of names that carry them. Every type is told by its first
token. -/
namespace MiniGo.Grammar

/-- The text of an array size: digits, with an optional plus sign, of a number below `2 ^ 64`. -/
def arraySize? (s : String) : Option UInt64 :=
  let digits := match s.toList with
    | '+' :: cs => cs
    | cs => cs
  (Decimal.natural? digits).bind fun n => if n < Nat.pow 2 64 then some (UInt64.ofNat n) else none

def typeList (below : Below) : Rule (List Node) :=
  separated .closeParen "expected `,` or `)`" (below .type)

/-- A result type: one type, or several in parentheses. -/
def resultType (below : Below) : Rule Node := do
  if (← kind) = .openParen then
    let _ ← advance
    let elements ← typeList below
    let _ ← expectOr .closeParen "expected `)`"
    return .tupleType elements
  else below .type

def namedType : Rule Node := do
  let t ← expect .identifier
  match BasicType.ofName? t.value with
  | some b => return .basicType b
  | none => return .customType t.value

def arrayType (below : Below) : Rule Node := do
  let _ ← expect .openBracket
  if (← kind) = .closeBracket then
    let _ ← advance
    return .sliceType (← below .type)
  else
    let t ← advance
    match if t.kind = .number then arraySize? t.value else none with
    | none => failAt t.start (.invalidArraySize t.describe)
    | some size =>
      let _ ← expectOr .closeBracket "expected `]`"
      return .arrayType (← below .type) size

def chanType (below : Below) : Rule Node := do
  let _ ← expect .chanWord
  if (← kind) = .arrow then
    let _ ← advance
    return .chanType .send (← below .type)
  else return .chanType .both (← below .type)

def receiveChanType (below : Below) : Rule Node := do
  let _ ← expect .arrow
  let _ ← expectOr .chanWord "expected `chan` after `<-`"
  return .chanType .receive (← below .type)

def startsResultType : Rule Bool := do
  let k ← kind
  return k = .openParen || ((← read).table.type k).isSome

/-- `func(T, ...) R`. Without a result the type is `void`. -/
def functionType (below : Below) : Rule Node := do
  let _ ← expect .funcWord
  let _ ← expectOr .openParen "expected `(`"
  let elements ← typeList below
  let _ ← expect .closeParen
  if ← startsResultType then
    return .functionType (.tupleType elements) (← resultType below)
  else return .functionType (.tupleType elements) .voidType

/-- Where a list of names stands, which decides whether it may be empty and whether every name needs
a type. -/
inductive NameList where
  | declaration | parameters | structFields
deriving DecidableEq, Repr

/-- One name of a list, with the type behind it if there is one. A type belongs to all names since
the previous type; `pending` are the names that still wait for theirs. -/
def nameTurn (below : Below) (terminators : List TokenKind) :
    List Node × List String → Rule (Turn (List Node × List String))
  | (ids, pending) => do
    if terminators.contains (← kind) then return .done (ids, pending)
    else
      let t ← expectOr .identifier "expected identifier"
      let pending := pending ++ [t.value]
      let k ← kind
      let found ←
        if k ≠ .comma && !terminators.contains k then
          let type ← below .type
          pure (ids ++ pending.map (Node.identifier · (some type)), [])
        else pure (ids, pending)
      if (← kind) = .comma then
        let _ ← advance
        return .more found
      else return .done found

/-- `a, b T, c U` up to one of the terminators. Names without a type may end a declaration, but no
other list; only parameters may be missing altogether. -/
def typedNames (below : Below) (terminators : List TokenKind) (list : NameList) :
    Rule (List Node) := do
  let (ids, pending) ← loop ([], []) (nameTurn below terminators)
  match pending with
  | [] =>
    if ids.isEmpty && list ≠ .parameters then unexpected "expected identifier" else return ids
  | untyped :: _ =>
    if list = .declaration then return ids ++ pending.map Node.name
    else fail (.missingType untyped)

def structType (below : Below) : Rule Node := do
  let _ ← expect .structWord
  let _ ← expectOr .openCurly "expected `\x7b`"
  let groups ← many do
    skipSemicolons
    if (← kind) = .closeCurly then return none
    else
      let fields ← typedNames below [.semicolon, .closeCurly] .structFields
      if (← kind) = .closeCurly then return some fields
      else
        let _ ← expectOr .semicolon "expected `;` or newline"
        return some fields
  let _ ← expect .closeCurly
  return .structType (groups.flatten.map .structElement)

def typeOf (below : Below) : TypeForm → Rule Node
  | .named => namedType
  | .array => arrayType below
  | .chan => chanType below
  | .receiveChan => receiveChanType below
  | .function => functionType below
  | .struct => structType below

def typeBody (below : Below) : Rule Node := do
  match (← read).table.type (← kind) with
  | some form => typeOf below form
  | none => unexpected "expected type"

end MiniGo.Grammar
