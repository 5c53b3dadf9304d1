/-! The kinds of node that trees and programs share. -/
namespace MiniGo

inductive NodeKind where
  | program | identifier | literal | application | declaration | unary | binary
  | expressionStatement | returnStatement | assignment | ifStatement | forStatement | goStatement
  | selectStatement | selectCase | defaultCase | send | receive | index | function | empty
  | structElement | fieldValue | structLiteral | member | typeDeclaration | anyType | voidType
  | basicType | tupleType | functionType | chanType | arrayType | sliceType | customType
  | structType
deriving DecidableEq, Repr

namespace NodeKind

def name : NodeKind → String
  | .program => "Program"
  | .identifier => "Identifier"
  | .literal => "Literal"
  | .application => "Application"
  | .declaration => "Declaration"
  | .unary => "UnOp"
  | .binary => "BinOp"
  | .expressionStatement => "ExpressionStatement"
  | .returnStatement => "ReturnStatement"
  | .assignment => "AssignmentStatement"
  | .ifStatement => "IfStatement"
  | .forStatement => "ForStatement"
  | .goStatement => "GoStatement"
  | .selectStatement => "SelectStatement"
  | .selectCase => "SelectCase"
  | .defaultCase => "DefaultCase"
  | .send => "SendStatement"
  | .receive => "ReceiveExpression"
  | .index => "IndexAccess"
  | .function => "FunctionNode"
  | .empty => "EmptyStatement"
  | .structElement => "StructElement"
  | .fieldValue => "StructFieldInstantiation"
  | .structLiteral => "StructLiteral"
  | .member => "StructAccess"
  | .typeDeclaration => "TypeDeclaration"
  | .anyType => "AnyType"
  | .voidType => "VoidType"
  | .basicType => "BasicType"
  | .tupleType => "TupleType"
  | .functionType => "FunctionType"
  | .chanType => "ChanType"
  | .arrayType => "ArrayType"
  | .sliceType => "SliceType"
  | .customType => "CustomType"
  | .structType => "StructType"

def all : List NodeKind := [
  .program, .identifier, .literal, .application, .declaration, .unary, .binary,
  .expressionStatement, .returnStatement, .assignment, .ifStatement, .forStatement, .goStatement,
  .selectStatement, .selectCase, .defaultCase, .send, .receive, .index, .function, .empty,
  .structElement, .fieldValue, .structLiteral, .member, .typeDeclaration, .anyType, .voidType,
  .basicType, .tupleType, .functionType, .chanType, .arrayType, .sliceType, .customType,
  .structType]

def isType : NodeKind → Bool
  | .anyType | .voidType | .basicType | .tupleType | .functionType => true
  | .chanType | .arrayType | .sliceType | .customType | .structType => true
  | _ => false

end NodeKind

end MiniGo
