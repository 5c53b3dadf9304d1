import MiniGo.Error
import MiniGo.Tree

/-!
Which trees are programs. Every place where the tree goes one level down is a slot; `check n` judges
what stands in a slot when `n` levels are left, and reports the first defect in reading order.
-/
namespace MiniGo.Check

/-- A place for a node. Slots for statements, expressions and types know the parent and the field,
which messages name. -/
inductive Slot where
  | item
  | statement (parent : NodeKind) (field : String)
  | expression (parent : NodeKind) (field : String)
  | type (parent : NodeKind) (field : String)
  | elseIf
  | arm
  | guard
deriving DecidableEq, Repr

abbrev Verdict := Except Cause Unit

/-- The judgement one level further down. -/
abbrev Below := Slot → Node → Verdict

def unaryOperators : List String := ["!", "-"]

def binaryOperators : List String :=
  ["||", "&&", "==", "!=", "<", "<=", ">", ">=", "+", "-", "*", "/", "%"]

def badChild (parent : NodeKind) (field expected : String) (found : Node) : Verdict :=
  .error (.invalidChild parent field expected found.kind)

def badNode (kind : NodeKind) (message : String) : Verdict := .error (.invalidNode kind message)

def identifier (below : Below) (parent : NodeKind) (field : String) : Node → Verdict
  | .identifier name type =>
    if name.isEmpty then badNode .identifier "identifier name must not be empty"
    else match type with
      | some t => below (.type .identifier "val_type") t
      | none => .ok ()
  | other => badChild parent field "identifier" other

def typedIdentifier (below : Below) (parent : NodeKind) (field : String) (n : Node) : Verdict :=
  match n with
  | .identifier name none => badNode parent ("`" ++ name ++ "` in " ++ field ++ " needs a type")
  | other => identifier below parent field other

def block (below : Below) (parent : NodeKind) (field : String) (body : List Node) : Verdict :=
  body.forM (below (.statement parent field))

def expressions (below : Below) (parent : NodeKind) (field : String) (es : List Node) : Verdict :=
  es.forM (below (.expression parent field))

def simpleStatement (below : Below) (parent : NodeKind) (field : String) (n : Node) : Verdict :=
  match n with
  | .declaration _ _ _ | .expressionStatement _ | .assignment _ _ | .send _ _ _ =>
    below (.statement parent field) n
  | other => badChild parent field "simple statement" other

def declaredNames (below : Below) (ids : List Node) : Verdict :=
  if ids.isEmpty then badNode .declaration "declaration needs at least one identifier"
  else ids.forM (identifier below .declaration "ids")

def target (below : Below) (n : Node) : Verdict :=
  match n with
  | .identifier _ _ => identifier below .assignment "ids" n
  | .index _ _ => below (.expression .assignment "ids") n
  | other => badChild .assignment "ids" "identifier or index access" other

def targets (below : Below) (ts : List Node) : Verdict :=
  if ts.isEmpty then badNode .assignment "assignment needs at least one target"
  else ts.forM (target below)

def optional (check : Node → Verdict) : Option Node → Verdict
  | none => .ok ()
  | some n => check n

def functionParts (below : Below) (name : Option Node) (formals : List Node)
    (result : Option Node) (body : List Node) : Verdict := do
  optional (identifier below .function "name") name
  formals.forM (typedIdentifier below .function "formals")
  optional (below (.type .function "ret_type")) result
  block below .function "body" body

def namedFunction (below : Below) (name : Option Node) (formals : List Node)
    (result : Option Node) (body : List Node) : Verdict :=
  if name.isNone then badNode .function "function declaration must be named"
  else functionParts below name formals result body

def typeDeclaration (below : Below) (name type : Node) : Verdict :=
  match name with
  | .customType s =>
    if s.isEmpty then badNode .typeDeclaration "declared type name must not be empty"
    else below (.type .typeDeclaration "dec_type") type
  | other => badChild .typeDeclaration "name" "custom type" other

def ifParts (below : Below) (cond : Node) (cons : List Node) (alt : Option Alternative)
    (short : Option Node) : Verdict := do
  optional (simpleStatement below .ifStatement "short") short
  below (.expression .ifStatement "cond") cond
  block below .ifStatement "cons" cons
  match alt with
  | none => .ok ()
  | some (.block body) => block below .ifStatement "alt" body
  | some (.chained node) => below .elseIf node

def forInit (below : Below) (n : Node) : Verdict :=
  match n with
  | .empty => .ok ()
  | other => simpleStatement below .forStatement "init" other

def forPost (below : Below) (n : Node) : Verdict :=
  match n with
  | .declaration _ _ _ =>
    badChild .forStatement "post" "expression, assignment or send statement" n
  | other => simpleStatement below .forStatement "post" other

def isDefaultCase : Node → Bool
  | .defaultCase _ => true
  | _ => false

def selectCases (below : Below) (cases : List Node) : Verdict := do
  cases.forM (below .arm)
  if 1 < cases.countP isDefaultCase then
    badNode .selectStatement "select has more than one default case"
  else .ok ()

/-- The receive that guards a case, by itself or as the one value of a declaration or an
assignment. -/
def guardReceive (below : Below) (parent : NodeKind) (n : Node) : Verdict :=
  match n with
  | .receive chan inSelect =>
    if inSelect then below (.expression .receive "chan") chan
    else badNode .receive "receive guarding a select case must be marked in_select"
  | other => badChild parent "vals" "receive expression" other

def guardValues (below : Below) (parent : NodeKind) (vals : List Node) : Verdict :=
  match vals with
  | [val] => guardReceive below parent val
  | _ => badNode parent
      ("select case must receive exactly one value, found " ++ toString vals.length)

def fieldValue (below : Below) (n : Node) : Verdict :=
  match n with
  | .fieldValue field expr => do
    identifier below .fieldValue "field" field
    below (.expression .fieldValue "expr") expr
  | other => badChild .structLiteral "fields" "struct field instantiation" other

def structElement (below : Below) (n : Node) : Verdict :=
  match n with
  | .structElement name => typedIdentifier below .structElement "name" name
  | other => badChild .structType "elems" "struct element" other

def item (below : Below) (n : Node) : Verdict :=
  match n with
  | .declaration _ _ _ => below (.statement .program "top_declarations") n
  | .function name formals result body => namedFunction below name formals result body
  | .typeDeclaration name type => typeDeclaration below name type
  | other =>
    badChild .program "top_declarations" "declaration, function or type declaration" other

def statement (below : Below) (parent : NodeKind) (field : String) (n : Node) : Verdict :=
  match n with
  | .declaration _ ids vals => do
    declaredNames below ids
    expressions below .declaration "vals" vals
  | .expressionStatement e => below (.expression .expressionStatement "expression") e
  | .returnStatement es => expressions below .returnStatement "expressions" es
  | .assignment ts vals => do
    targets below ts
    expressions below .assignment "vals" vals
  | .ifStatement cond cons alt short => ifParts below cond cons alt short
  | .forStatement init cond post body => do
    optional (forInit below) init
    optional (below (.expression .forStatement "cond")) cond
    optional (forPost below) post
    block below .forStatement "body" body
  | .goStatement app =>
    match app with
    | .application _ _ => below (.expression .goStatement "app") app
    | other => badChild .goStatement "app" "application" other
  | .selectStatement cases => selectCases below cases
  | .send chan val inSelect =>
    if inSelect then badNode .send "send outside a select case must not be marked in_select"
    else do
      below (.expression .send "chan") chan
      below (.expression .send "val") val
  | .empty => .ok ()
  | .function name formals result body => namedFunction below name formals result body
  | .typeDeclaration name type => typeDeclaration below name type
  | other => badChild parent field "statement" other

def expression (below : Below) (parent : NodeKind) (field : String) (n : Node) : Verdict :=
  match n with
  | .identifier _ _ => identifier below parent field n
  | .literal value type =>
    match type with
    | .basicType basic =>
      if basic = value.type then .ok ()
      else badNode .literal
        (value.type.title ++ " literal cannot have type " ++ basic.title)
    | other => badChild .literal "val_type" "basic type" other
  | .application operator operands => do
    below (.expression .application "operator") operator
    expressions below .application "operands" operands
  | .unary opcode operand =>
    if unaryOperators.contains opcode then below (.expression .unary "expr") operand
    else badNode .unary ("unknown unary operator `" ++ opcode ++ "`")
  | .binary left opcode right =>
    if binaryOperators.contains opcode then do
      below (.expression .binary "left") left
      below (.expression .binary "right") right
    else badNode .binary ("unknown binary operator `" ++ opcode ++ "`")
  | .index accessed index => do
    below (.expression .index "accessed") accessed
    below (.expression .index "index") index
  | .function name formals result body => functionParts below name formals result body
  | .structLiteral type fields => do
    below (.type .structLiteral "val_type") type
    fields.forM (fieldValue below)
  | .member accessed field => do
    below (.expression .member "accessed") accessed
    identifier below .member "field" field
  | .receive chan inSelect =>
    if inSelect then
      badNode .receive "receive outside a select case must not be marked in_select"
    else below (.expression .receive "chan") chan
  | other => badChild parent field "expression" other

def type (below : Below) (parent : NodeKind) (field : String) (n : Node) : Verdict :=
  match n with
  | .anyType | .voidType | .basicType _ => .ok ()
  | .tupleType elements => elements.forM (below (.type .tupleType "elements"))
  | .functionType params result =>
    match params with
    | .tupleType _ => do
      below (.type .functionType "params_type") params
      below (.type .functionType "return_type") result
    | other => badChild .functionType "params_type" "tuple type" other
  | .chanType _ element => below (.type .chanType "element") element
  | .arrayType element _ => below (.type .arrayType "element") element
  | .sliceType element => below (.type .sliceType "element") element
  | .customType name =>
    if name.isEmpty then badNode .customType "custom type name must not be empty" else .ok ()
  | .structType elems => elems.forM (structElement below)
  | other => badChild parent field "type" other

def elseIf (below : Below) (n : Node) : Verdict :=
  match n with
  | .ifStatement cond cons alt short => ifParts below cond cons alt short
  | other => badChild .ifStatement "alt" "if statement or block" other

def arm (below : Below) (n : Node) : Verdict :=
  match n with
  | .selectCase guard body => do
    below .guard guard
    block below .selectCase "body" body
  | .defaultCase body => block below .defaultCase "body" body
  | other => badChild .selectStatement "cases" "select case or default case" other

def guard (below : Below) (n : Node) : Verdict :=
  match n with
  | .send chan val inSelect =>
    if inSelect then do
      below (.expression .send "chan") chan
      below (.expression .send "val") val
    else badNode .send "send guarding a select case must be marked in_select"
  | .receive _ _ => guardReceive below .selectCase n
  | .declaration _ ids vals => do
    declaredNames below ids
    guardValues below .declaration vals
  | .assignment ts vals => do
    targets below ts
    guardValues below .assignment vals
  | other => badChild .selectCase "statement" "send, receive, declaration or assignment" other

/-- What stands in a slot, when the slots inside it are judged by `below`. -/
def slot (below : Below) : Slot → Node → Verdict
  | .item => item below
  | .statement parent field => statement below parent field
  | .expression parent field => expression below parent field
  | .type parent field => type below parent field
  | .elseIf => elseIf below
  | .arm => arm below
  | .guard => guard below

/-- The judgement with a number of levels left; `limit` is the number at the root, which the error
reports. -/
def check (limit : Nat) : Nat → Slot → Node → Verdict
  | 0, _, _ => .error (.limitExceeded limit)
  | levels + 1, s, n => slot (check limit levels) s n

end MiniGo.Check

namespace MiniGo

/-- Judges the content of a slot at the root. -/
def Node.checkAs (s : Check.Slot) (n : Node) (limit : Nat) : Except Error Unit :=
  (Check.check limit limit s n).mapError (⟨·, .null⟩)

def Node.check (n : Node) (limit : Nat) : Except Error Unit :=
  match n with
  | .program items =>
    (items.forM (Check.check limit limit .item)).mapError (⟨·, .null⟩)
  | other =>
    .error ⟨.invalidNode other.kind ("root must be a program, found " ++ other.kind.name), .null⟩

end MiniGo
