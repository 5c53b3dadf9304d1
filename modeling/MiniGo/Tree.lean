import MiniGo.Number.Binary64
import MiniGo.Tree.Kind

/-!
The tree that the grammar builds and that other programs may hand over. Every child is again a
`Node`, whatever the language allows in its place; which trees are programs is decided later.
-/
namespace MiniGo

inductive BasicType where
  | number | bool | string
deriving DecidableEq, Repr

def BasicType.ofName? (name : String) : Option BasicType :=
  if name = "number" then some .number
  else if name = "bool" then some .bool
  else if name = "string" then some .string
  else none

def BasicType.title : BasicType → String
  | .number => "Number"
  | .bool => "Bool"
  | .string => "String"

inductive Direction where
  | send | receive | both
deriving DecidableEq, Repr

inductive DeclarationKind where
  | var | const
deriving DecidableEq, Repr

inductive Literal where
  | number (x : Binary64)
  | bool (b : Bool)
  | string (s : String)
deriving DecidableEq, Repr

def Literal.type : Literal → BasicType
  | .number _ => .number
  | .bool _ => .bool
  | .string _ => .string

mutual

/-- A node of the tree. Channel operations know whether they guard a case of a `select`. -/
inductive Node where
  | program (items : List Node)
  | identifier (name : String) (type : Option Node)
  | literal (value : Literal) (type : Node)
  | application (operator : Node) (operands : List Node)
  | declaration (kind : DeclarationKind) (ids vals : List Node)
  | unary (opcode : String) (operand : Node)
  | binary (left : Node) (opcode : String) (right : Node)
  | expressionStatement (expression : Node)
  | returnStatement (expressions : List Node)
  | assignment (targets vals : List Node)
  | ifStatement (cond : Node) (cons : List Node) (alt : Option Alternative) (short : Option Node)
  | forStatement (init cond post : Option Node) (body : List Node)
  | goStatement (app : Node)
  | selectStatement (cases : List Node)
  | selectCase (guard : Node) (body : List Node)
  | defaultCase (body : List Node)
  | send (chan val : Node) (inSelect : Bool)
  | receive (chan : Node) (inSelect : Bool)
  | index (accessed index : Node)
  | function (name : Option Node) (formals : List Node) (result : Option Node) (body : List Node)
  | empty
  | structElement (name : Node)
  | fieldValue (field expr : Node)
  | structLiteral (type : Node) (fields : List Node)
  | member (accessed field : Node)
  | typeDeclaration (name type : Node)
  | anyType
  | voidType
  | basicType (basic : BasicType)
  | tupleType (elements : List Node)
  | functionType (params result : Node)
  | chanType (direction : Direction) (element : Node)
  | arrayType (element : Node) (size : UInt64)
  | sliceType (element : Node)
  | customType (name : String)
  | structType (elems : List Node)

/-- What follows `else`: a block, or a node that should be another `if`. -/
inductive Alternative where
  | block (body : List Node)
  | chained (node : Node)

end

namespace Node

def kind : Node → NodeKind
  | .program _ => .program
  | .identifier _ _ => .identifier
  | .literal _ _ => .literal
  | .application _ _ => .application
  | .declaration _ _ _ => .declaration
  | .unary _ _ => .unary
  | .binary _ _ _ => .binary
  | .expressionStatement _ => .expressionStatement
  | .returnStatement _ => .returnStatement
  | .assignment _ _ => .assignment
  | .ifStatement _ _ _ _ => .ifStatement
  | .forStatement _ _ _ _ => .forStatement
  | .goStatement _ => .goStatement
  | .selectStatement _ => .selectStatement
  | .selectCase _ _ => .selectCase
  | .defaultCase _ => .defaultCase
  | .send _ _ _ => .send
  | .receive _ _ => .receive
  | .index _ _ => .index
  | .function _ _ _ _ => .function
  | .empty => .empty
  | .structElement _ => .structElement
  | .fieldValue _ _ => .fieldValue
  | .structLiteral _ _ => .structLiteral
  | .member _ _ => .member
  | .typeDeclaration _ _ => .typeDeclaration
  | .anyType => .anyType
  | .voidType => .voidType
  | .basicType _ => .basicType
  | .tupleType _ => .tupleType
  | .functionType _ _ => .functionType
  | .chanType _ _ => .chanType
  | .arrayType _ _ => .arrayType
  | .sliceType _ => .sliceType
  | .customType _ => .customType
  | .structType _ => .structType

def name (s : String) : Node := .identifier s none

def ofLiteral (l : Literal) : Node := .literal l (.basicType l.type)

end Node

end MiniGo
