import MiniGo.Grammar.Expressions

/-! Rules for statements. -/
namespace MiniGo.Grammar

/-- The end of a statement: a semicolon, or a closing bracket or the end of the input, which are not
passed. -/
def terminator : Rule Unit := do
  match ← kind with
  | .semicolon =>
    let _ ← advance
    return ()
  | .closeCurly | .closeParen | .eof => return ()
  | _ => unexpected "expected `;` or newline"

def terminated (rule : Rule Node) : Rule Node := do
  let n ← rule
  terminator
  return n

def isAssignable : Node → Bool
  | .identifier _ _ | .index _ _ => true
  | _ => false

/-- What the token behind a list of expressions makes of them: a declaration, an assignment, a send
or an expression statement. -/
def finishSimple (below : Below) (exprs : List Node) : Rule Node := do
  match ← kind with
  | .define =>
    if exprs.all isIdentifier then
      let _ ← advance
      return .declaration .var exprs (← expressionList below)
    else unexpected "expected only identifiers on the left of `:=`"
  | .assign =>
    if exprs.all isAssignable then
      let _ ← advance
      return .assignment exprs (← expressionList below)
    else unexpected "expected identifier or index expression on the left of `=`"
  | .arrow =>
    match exprs with
    | [chan] =>
      let _ ← advance
      return .send chan (← below (.expression .lowest)) false
    | _ => unexpected "expected a single channel before `<-`"
  | _ =>
    match exprs with
    | [e] => return .expressionStatement e
    | _ => unexpected "expected `:=`, `=` or `<-` after expression list"

def simpleStatement (below : Below) : Rule Node := do
  finishSimple below (← expressionList below)

def condition (statement : Node) : Rule Node := do
  match statement with
  | .expressionStatement e => return e
  | _ => unexpected "expected condition"

def declarationEnd : List TokenKind := [.assign, .semicolon, .closeParen, .closeCurly, .eof]

def declarationLine (below : Below) : Rule (List Node × List Node) := do
  let ids ← typedNames below declarationEnd .declaration
  if (← kind) = .assign then
    let _ ← advance
    return (ids, ← expressionList below)
  else return (ids, [])

/-- The lines of a declaration: one, or any number in parentheses. -/
def declarationLines (below : Below) : Rule (List (List Node × List Node)) := do
  if (← kind) = .openParen then
    let _ ← advance
    let lines ← many do
      skipSemicolons
      match ← kind with
      | .closeParen => return none
      | .eof => unexpected "expected `)`"
      | _ =>
        let line ← declarationLine below
        terminator
        return some line
    let _ ← expect .closeParen
    return lines
  else return [← declarationLine below]

def declaration (below : Below) : Rule Node := do
  let t ← advance
  let lines ← declarationLines below
  return .declaration (if t.kind = .constWord then .const else .var)
    (lines.flatMap (·.1)) (lines.flatMap (·.2))

def declarationStatement (below : Below) : Rule Node := terminated (declaration below)

def typeDeclarationStatement (below : Below) : Rule Node :=
  terminated do
    let _ ← expect .typeWord
    let t ← expectOr .identifier "expected type name"
    return .typeDeclaration (.customType t.value) (← below .type)

def namedFunction (below : Below) : Rule Node := do
  let _ ← expect .funcWord
  let t ← advance
  functionRest below (some (.name t.value))

/-- A function literal at the start of a statement: alone, or the first operand of a simple
statement. -/
def functionLiteralStatement (below : Below) : Rule Node := do
  let (function, height) ← measured (functionLiteral below)
  match ← kind with
  | .semicolon | .closeCurly | .eof => return function
  | _ =>
    let first ← tail below function height .lowest
    finishSimple below (first :: (← moreExpressions below))

def functionStatement (below : Below) : Rule Node :=
  terminated do
    if (← kindAhead 1) = .identifier then namedFunction below
    else functionLiteralStatement below

def returnStatement (below : Below) : Rule Node :=
  terminated do
    let _ ← expect .returnWord
    match ← kind with
    | .semicolon | .closeCurly | .eof => return .returnStatement []
    | _ => return .returnStatement (← expressionList below)

/-- The header of an `if`: a condition, or a statement and a condition. -/
def ifHeader (below : Below) : Rule (Option Node × Node) := do
  let first ← simpleStatement below
  if (← kind) = .semicolon then
    let _ ← advance
    return (some first, ← below (.expression .lowest))
  else return (none, ← condition first)

def alternative (below : Below) : Rule (Option Alternative) := do
  if (← kind) = .elseWord then
    let _ ← advance
    match ← kind with
    | .ifWord => return some (.chained (← below .elseIf))
    | .openCurly => return some (.block (← block below))
    | _ => unexpected "expected `if` or `\x7b` after `else`"
  else return none

def ifBody (below : Below) : Rule Node := do
  let _ ← expect .ifWord
  let (short, cond) ← withStructLiterals false (ifHeader below)
  let cons ← block below
  return .ifStatement cond cons (← alternative below) short

def ifStatement (below : Below) : Rule Node := terminated (ifBody below)

structure Clauses where
  init : Option Node
  cond : Option Node
  post : Option Node

def forRest (below : Below) (init : Node) : Rule Clauses := do
  let _ ← expect .semicolon
  let cond ← if (← kind) = .semicolon then pure none
    else some <$> below (.expression .lowest)
  let _ ← expectOr .semicolon "expected `;`"
  let post ← if (← kind) = .openCurly then pure none else some <$> simpleStatement below
  return ⟨some init, cond, post⟩

/-- The header of a `for`: nothing, a condition, or three clauses of which each may be missing. -/
def forHeader (below : Below) : Rule Clauses := do
  match ← kind with
  | .openCurly => return ⟨none, none, none⟩
  | .semicolon => forRest below .empty
  | _ =>
    let first ← simpleStatement below
    if (← kind) = .semicolon then forRest below first
    else return ⟨none, some (← condition first), none⟩

def forStatement (below : Below) : Rule Node :=
  terminated do
    let _ ← expect .forWord
    let clauses ← withStructLiterals false (forHeader below)
    return .forStatement clauses.init clauses.cond clauses.post (← block below)

def goStatement (below : Below) : Rule Node :=
  terminated do
    let _ ← expect .goWord
    let start ← current
    match ← below (.expression .lowest) with
    | .application operator operands => return .goStatement (.application operator operands)
    | _ => refuse start "expression in go must be a function call"

def guardReceive? : Node → Option Node
  | .receive chan _ => some (.receive chan true)
  | _ => none

/-- The guard that a simple statement makes: a send, a receive, or a declaration or an assignment
whose one value is a receive. -/
def guard? : Node → Option Node
  | .send chan val _ => some (.send chan val true)
  | .expressionStatement e => guardReceive? e
  | .declaration k ids [val] => (guardReceive? val).map fun v => .declaration k ids [v]
  | .assignment targets [val] => (guardReceive? val).map fun v => .assignment targets [v]
  | _ => none

def caseGuard (below : Below) : Rule Node := do
  let start ← current
  match guard? (← simpleStatement below) with
  | some g => return g
  | none => refuse start "expected send or receive in select case"

def caseBody (below : Below) : Rule (List Node) :=
  withStructLiterals true <| many do
    skipSemicolons
    match ← kind with
    | .caseWord | .defaultWord | .closeCurly | .eof => return none
    | _ => return some (← below .statement)

def selectArm (below : Below) : Rule (Option Node) := do
  skipSemicolons
  match ← kind with
  | .closeCurly => return none
  | .caseWord =>
    let _ ← advance
    let guard ← caseGuard below
    let _ ← expectOr .colon "expected `:`"
    return some (.selectCase guard (← caseBody below))
  | .defaultWord =>
    let _ ← advance
    let _ ← expectOr .colon "expected `:`"
    return some (.defaultCase (← caseBody below))
  | _ => unexpected "expected `case` or `default`"

def selectStatement (below : Below) : Rule Node :=
  terminated do
    let _ ← expect .selectWord
    let _ ← expectOr .openCurly "expected `\x7b` after select"
    let cases ← many (selectArm below)
    let _ ← expect .closeCurly
    return .selectStatement cases

def statementOf (below : Below) : StatementForm → Rule Node
  | .declaration => declarationStatement below
  | .typeDeclaration => typeDeclarationStatement below
  | .function => functionStatement below
  | .ret => returnStatement below
  | .ifThen => ifStatement below
  | .loop => forStatement below
  | .go => goStatement below
  | .select => selectStatement below

def statementBody (below : Below) : Rule Node := do
  match (← read).table.statement (← kind) with
  | some form => statementOf below form
  | none => terminated (simpleStatement below)

end MiniGo.Grammar
