import MiniGo.Json
import MiniGo.Tree

/-!
Trees as JSON. A node is an object with a tag under `type` and its fields by name; reading also
takes an array of the tag and the fields in their order. Writing names every field.
-/
namespace MiniGo

namespace NodeKind

def tag : NodeKind → String
  | .program => "program"
  | .identifier => "identifier"
  | .literal => "literal"
  | .application => "application"
  | .declaration => "declaration"
  | .unary => "unop"
  | .binary => "binop"
  | .expressionStatement => "expressionStatement"
  | .returnStatement => "returnStatement"
  | .assignment => "assignmentStatement"
  | .ifStatement => "ifStatement"
  | .forStatement => "forStatement"
  | .goStatement => "goStatement"
  | .selectStatement => "selectStatement"
  | .selectCase => "selectCase"
  | .defaultCase => "defaultCase"
  | .send => "sendStatement"
  | .receive => "receiveExpression"
  | .index => "indexAccess"
  | .function => "function"
  | .empty => "emptyStatement"
  | .structElement => "structElement"
  | .fieldValue => "structFieldInstantiation"
  | .structLiteral => "structLiteral"
  | .member => "structAccess"
  | .typeDeclaration => "typeDeclaration"
  | .anyType => "anyType"
  | .voidType => "voidType"
  | .basicType => "basicType"
  | .tupleType => "tupleType"
  | .functionType => "functionType"
  | .chanType => "chanType"
  | .arrayType => "arrayType"
  | .sliceType => "sliceType"
  | .customType => "customType"
  | .structType => "structType"

def ofTag? (tag : String) : Option NodeKind := all.find? (·.tag == tag)

/-- The names of the fields, in the order of the constructor's arguments. -/
def fields : NodeKind → List String
  | .program => ["top_declarations"]
  | .identifier => ["name", "val_type"]
  | .literal => ["value", "val_type"]
  | .application => ["operator", "operands"]
  | .declaration => ["declaration_type", "ids", "vals"]
  | .unary => ["opcode", "expr"]
  | .binary => ["left", "opcode", "right"]
  | .expressionStatement => ["expression"]
  | .returnStatement => ["expressions"]
  | .assignment => ["ids", "vals"]
  | .ifStatement => ["cond", "cons", "alt", "short"]
  | .forStatement => ["init", "cond", "post", "body"]
  | .goStatement => ["app"]
  | .selectStatement => ["cases"]
  | .selectCase => ["statement", "body"]
  | .defaultCase => ["body"]
  | .send => ["chan", "val", "inSelect"]
  | .receive => ["chan", "inSelect"]
  | .index => ["accessed", "index"]
  | .function => ["name", "formals", "retType", "body"]
  | .empty => []
  | .structElement => ["name"]
  | .fieldValue => ["field", "expr"]
  | .structLiteral => ["val_type", "fields"]
  | .member => ["accessed", "field"]
  | .typeDeclaration => ["name", "dec_type"]
  | .anyType => []
  | .voidType => []
  | .basicType => ["type_value"]
  | .tupleType => ["elements"]
  | .functionType => ["params_type", "return_type"]
  | .chanType => ["direction", "element"]
  | .arrayType => ["element", "size"]
  | .sliceType => ["element"]
  | .customType => ["name"]
  | .structType => ["elems"]

end NodeKind

def DeclarationKind.word : DeclarationKind → String
  | .var => "var"
  | .const => "const"

def BasicType.word : BasicType → String
  | .number => "number"
  | .bool => "bool"
  | .string => "string"

def Direction.word : Direction → String
  | .send => "send"
  | .receive => "receive"
  | .both => "both"

def Literal.toJson : Literal → Json
  | .number x => .real x
  | .bool b => .bool b
  | .string s => .string s

def NodeKind.record (k : NodeKind) (values : List Json) : Json :=
  .object (("type", .string k.tag) :: k.fields.zip values)

mutual

def Node.toJson : Node → Json
  | .program items => NodeKind.record .program [.array (Node.listToJson items)]
  | .identifier name type =>
    NodeKind.record .identifier [.string name, Node.optionToJson type]
  | .literal value type => NodeKind.record .literal [value.toJson, type.toJson]
  | .application operator operands =>
    NodeKind.record .application [operator.toJson, .array (Node.listToJson operands)]
  | .declaration kind ids vals =>
    NodeKind.record .declaration
      [.string kind.word, .array (Node.listToJson ids), .array (Node.listToJson vals)]
  | .unary opcode operand => NodeKind.record .unary [.string opcode, operand.toJson]
  | .binary left opcode right =>
    NodeKind.record .binary [left.toJson, .string opcode, right.toJson]
  | .expressionStatement expression =>
    NodeKind.record .expressionStatement [expression.toJson]
  | .returnStatement expressions =>
    NodeKind.record .returnStatement [.array (Node.listToJson expressions)]
  | .assignment targets vals =>
    NodeKind.record .assignment
      [.array (Node.listToJson targets), .array (Node.listToJson vals)]
  | .ifStatement cond cons alt short =>
    NodeKind.record .ifStatement
      [cond.toJson, .array (Node.listToJson cons), Alternative.optionToJson alt,
        Node.optionToJson short]
  | .forStatement init cond post body =>
    NodeKind.record .forStatement
      [Node.optionToJson init, Node.optionToJson cond, Node.optionToJson post,
        .array (Node.listToJson body)]
  | .goStatement app => NodeKind.record .goStatement [app.toJson]
  | .selectStatement cases =>
    NodeKind.record .selectStatement [.array (Node.listToJson cases)]
  | .selectCase guard body =>
    NodeKind.record .selectCase [guard.toJson, .array (Node.listToJson body)]
  | .defaultCase body => NodeKind.record .defaultCase [.array (Node.listToJson body)]
  | .send chan val inSelect =>
    NodeKind.record .send [chan.toJson, val.toJson, .bool inSelect]
  | .receive chan inSelect => NodeKind.record .receive [chan.toJson, .bool inSelect]
  | .index accessed index => NodeKind.record .index [accessed.toJson, index.toJson]
  | .function name formals result body =>
    NodeKind.record .function
      [Node.optionToJson name, .array (Node.listToJson formals), Node.optionToJson result,
        .array (Node.listToJson body)]
  | .empty => NodeKind.record .empty []
  | .structElement name => NodeKind.record .structElement [name.toJson]
  | .fieldValue field expr => NodeKind.record .fieldValue [field.toJson, expr.toJson]
  | .structLiteral type fields =>
    NodeKind.record .structLiteral [type.toJson, .array (Node.listToJson fields)]
  | .member accessed field => NodeKind.record .member [accessed.toJson, field.toJson]
  | .typeDeclaration name type =>
    NodeKind.record .typeDeclaration [name.toJson, type.toJson]
  | .anyType => NodeKind.record .anyType []
  | .voidType => NodeKind.record .voidType []
  | .basicType basic => NodeKind.record .basicType [.string basic.word]
  | .tupleType elements => NodeKind.record .tupleType [.array (Node.listToJson elements)]
  | .functionType params result =>
    NodeKind.record .functionType [params.toJson, result.toJson]
  | .chanType direction element =>
    NodeKind.record .chanType [.string direction.word, element.toJson]
  | .arrayType element size => NodeKind.record .arrayType [element.toJson, .natural size]
  | .sliceType element => NodeKind.record .sliceType [element.toJson]
  | .customType name => NodeKind.record .customType [.string name]
  | .structType elems => NodeKind.record .structType [.array (Node.listToJson elems)]

def Node.listToJson : List Node → List Json
  | [] => []
  | n :: ns => n.toJson :: Node.listToJson ns

def Node.optionToJson : Option Node → Json
  | none => .null
  | some n => n.toJson

def Alternative.toJson : Alternative → Json
  | .block body => .array (Node.listToJson body)
  | .chained node => node.toJson

def Alternative.optionToJson : Option Alternative → Json
  | none => .null
  | some a => a.toJson

end

/-- Trees are the same when their JSON forms are; in particular numbers compare by value. -/
def Node.same (m n : Node) : Bool := m.toJson.same n.toJson

/-- What a JSON value can stand for in a field: a node, a list of nodes, or the bare value. -/
structure Reading where
  value : Json
  node : Option Node
  nodes : Option (List Node)

abbrev Field := Option Reading

namespace Field

def text? : Field → Option String
  | some ⟨.string s, _, _⟩ => some s
  | _ => none

def node? (f : Field) : Option Node := f.bind (·.node)

def nodes? (f : Field) : Option (List Node) := f.bind (·.nodes)

/-- An optional child: absent, `null` or a node. -/
def child? : Field → Option (Option Node)
  | none => some none
  | some ⟨.null, _, _⟩ => some none
  | some r => r.node.map some

/-- An optional `else` part. A value that is both a list of nodes and a node is the list. -/
def alternative? : Field → Option (Option Alternative)
  | none => some none
  | some ⟨.null, _, _⟩ => some none
  | some r =>
    match r.nodes with
    | some body => some (some (.block body))
    | none => r.node.map fun n => some (.chained n)

/-- A mark that is false when absent. -/
def mark? : Field → Option Bool
  | none => some false
  | some ⟨.bool b, _, _⟩ => some b
  | some _ => none

def size? : Field → Option UInt64
  | some ⟨.natural n, _, _⟩ => some n
  | _ => none

def literal? : Field → Option Literal
  | some ⟨.natural n, _, _⟩ => some (.number (.ofRatio false n.toNat 1))
  | some ⟨.real x, _, _⟩ => some (.number x)
  | some ⟨.bool b, _, _⟩ => some (.bool b)
  | some ⟨.string s, _, _⟩ => some (.string s)
  | _ => none

/-- A word: a string, or an object whose only member has that name and no content. -/
def word? : Field → Option String
  | some ⟨.string s, _, _⟩ => some s
  | some ⟨.object [(s, .null)], _, _⟩ => some s
  | some ⟨.object [(s, .object [])], _, _⟩ => some s
  | _ => none

def declarationKind? (f : Field) : Option DeclarationKind :=
  f.word?.bind fun w => [DeclarationKind.var, .const].find? (·.word == w)

def basicType? (f : Field) : Option BasicType :=
  f.word?.bind fun w => [BasicType.number, .bool, .string].find? (·.word == w)

def direction? (f : Field) : Option Direction :=
  f.word?.bind fun w => [Direction.send, .receive, .both].find? (·.word == w)

end Field

def Node.ofFields? : NodeKind → List Field → Option Node
  | .program, [items] => items.nodes?.map .program
  | .identifier, [name, type] => return .identifier (← name.text?) (← type.child?)
  | .literal, [value, type] => return .literal (← value.literal?) (← type.node?)
  | .application, [operator, operands] =>
    return .application (← operator.node?) (← operands.nodes?)
  | .declaration, [kind, ids, vals] =>
    return .declaration (← kind.declarationKind?) (← ids.nodes?) (← vals.nodes?)
  | .unary, [opcode, operand] => return .unary (← opcode.text?) (← operand.node?)
  | .binary, [left, opcode, right] =>
    return .binary (← left.node?) (← opcode.text?) (← right.node?)
  | .expressionStatement, [expression] => expression.node?.map .expressionStatement
  | .returnStatement, [expressions] => expressions.nodes?.map .returnStatement
  | .assignment, [targets, vals] => return .assignment (← targets.nodes?) (← vals.nodes?)
  | .ifStatement, [cond, cons, alt, short] =>
    return .ifStatement (← cond.node?) (← cons.nodes?) (← alt.alternative?) (← short.child?)
  | .forStatement, [init, cond, post, body] =>
    return .forStatement (← init.child?) (← cond.child?) (← post.child?) (← body.nodes?)
  | .goStatement, [app] => app.node?.map .goStatement
  | .selectStatement, [cases] => cases.nodes?.map .selectStatement
  | .selectCase, [guard, body] => return .selectCase (← guard.node?) (← body.nodes?)
  | .defaultCase, [body] => body.nodes?.map .defaultCase
  | .send, [chan, val, inSelect] =>
    return .send (← chan.node?) (← val.node?) (← inSelect.mark?)
  | .receive, [chan, inSelect] => return .receive (← chan.node?) (← inSelect.mark?)
  | .index, [accessed, place] => return .index (← accessed.node?) (← place.node?)
  | .function, [name, formals, result, body] =>
    return .function (← name.child?) (← formals.nodes?) (← result.child?) (← body.nodes?)
  | .empty, [] => some .empty
  | .structElement, [name] => name.node?.map .structElement
  | .fieldValue, [field, expr] => return .fieldValue (← field.node?) (← expr.node?)
  | .structLiteral, [type, fields] => return .structLiteral (← type.node?) (← fields.nodes?)
  | .member, [accessed, field] => return .member (← accessed.node?) (← field.node?)
  | .typeDeclaration, [name, type] => return .typeDeclaration (← name.node?) (← type.node?)
  | .anyType, [] => some .anyType
  | .voidType, [] => some .voidType
  | .basicType, [basic] => basic.basicType?.map .basicType
  | .tupleType, [elements] => elements.nodes?.map .tupleType
  | .functionType, [params, result] =>
    return .functionType (← params.node?) (← result.node?)
  | .chanType, [direction, element] =>
    return .chanType (← direction.direction?) (← element.node?)
  | .arrayType, [element, size] => return .arrayType (← element.node?) (← size.size?)
  | .sliceType, [element] => element.node?.map .sliceType
  | .customType, [name] => name.text?.map .customType
  | .structType, [elems] => elems.nodes?.map .structType
  | _, _ => none

/-- The kind that a tag names. Below the root a tag may also be the place of the kind in the list of
all kinds. -/
def NodeKind.ofJson? : Json → Option NodeKind
  | .string s => NodeKind.ofTag? s
  | .natural n => NodeKind.all[n.toNat]?
  | _ => none

namespace Reading

/-- The member of a given name. It is an error if there are several. -/
def field? (members : List (String × Reading)) (name : String) : Option Field :=
  match members.filter (·.1 == name) with
  | [] => some none
  | [(_, r)] => some (some r)
  | _ => none

/-- A node in object form: fields in any order, other members ignored. -/
def ofMembers? (members : List (String × Reading)) : Option Node := do
  let tag ← (← field? members "type")
  let kind ← NodeKind.ofJson? tag.value
  Node.ofFields? kind (← kind.fields.mapM (field? members))

/-- A node in array form. Fields may be missing at the end, where each decides whether it can be
absent. -/
def ofItems? : List Reading → Option Node
  | [] => none
  | tag :: items => do
    let kind ← NodeKind.ofJson? tag.value
    let count := kind.fields.length
    if items.length ≤ count then
      Node.ofFields? kind (items.map some ++ List.replicate (count - items.length) none)
    else none

mutual

def ofJson : Json → Reading
  | .array items =>
    let readings := ofJsons items
    ⟨.array items, ofItems? readings, readings.mapM (·.node)⟩
  | .object members => ⟨.object members, ofMembers? (ofMemberJsons members), none⟩
  | j => ⟨j, none, none⟩

def ofJsons : List Json → List Reading
  | [] => []
  | j :: js => ofJson j :: ofJsons js

def ofMemberJsons : List (String × Json) → List (String × Reading)
  | [] => []
  | (k, j) :: ms => (k, ofJson j) :: ofMemberJsons ms

end

end Reading

def Json.hasTextTag : Json → Bool
  | .array (.string _ :: _) => true
  | .object members =>
    match members.lookup "type" with
    | some (.string _) => true
    | _ => false
  | _ => false

def Node.ofJson? (j : Json) : Option Node :=
  if j.hasTextTag then (Reading.ofJson j).node else none

end MiniGo
