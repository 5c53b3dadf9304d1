import MiniGo.Program.Type

/-! Programs: trees in which every place has a type of its own, so that only what the language
allows can stand there. -/
namespace MiniGo

mutual

inductive Expr where
  | identifier (id : Ident)
  | literal (value : Literal) (type : Ty)
  | application (operator : Expr) (operands : List Expr)
  | unary (opcode : String) (operand : Expr)
  | binary (left : Expr) (opcode : String) (right : Expr)
  | index (accessed index : Expr)
  | function (f : Function)
  | structLiteral (type : Ty) (fields : List FieldValue)
  | member (accessed : Expr) (field : Ident)
  | receive (chan : Expr) (inSelect : Bool)

structure FieldValue where
  field : Ident
  value : Expr

/-- A function literal needs no name; a function that stands as a statement has one. A missing result
type is not the type `void`. -/
structure Function where
  name : Option Ident
  formals : List Ident
  result : Option Ty
  body : List Stmt

/-- The numbers of names and of values are independent: a group is one declaration. -/
structure Declaration where
  kind : DeclarationKind
  ids : List Ident
  vals : List Expr

inductive Target where
  | identifier (id : Ident)
  | index (accessed index : Expr)

inductive Stmt where
  | declaration (d : Declaration)
  | expression (e : Expr)
  | ret (vals : List Expr)
  | assignment (targets : List Target) (vals : List Expr)
  | ifThen (i : If)
  | loop (init : Option Stmt) (cond : Option Expr) (post : Option Stmt) (body : List Stmt)
  | go (operator : Expr) (operands : List Expr)
  | select (arms : List Arm)
  | send (chan val : Expr) (inSelect : Bool)
  | empty
  | function (f : Function)
  | typeDeclaration (name : String) (type : Ty)

structure If where
  short : Option Stmt
  cond : Expr
  cons : List Stmt
  alt : Option Else

inductive Else where
  | block (body : List Stmt)
  | chained (i : If)

inductive Arm where
  | otherwise (body : List Stmt)
  | guarded (guard : Guard) (body : List Stmt)

inductive Guard where
  | send (chan val : Expr) (inSelect : Bool)
  | receive (chan : Expr) (inSelect : Bool)
  | declaration (d : Declaration)
  | assignment (targets : List Target) (vals : List Expr)

end

inductive Item where
  | declaration (d : Declaration)
  | function (f : Function)
  | typeDeclaration (name : String) (type : Ty)

structure Program where
  items : List Item

def Expr.kind : Expr → NodeKind
  | .identifier _ => .identifier
  | .literal _ _ => .literal
  | .application _ _ => .application
  | .unary _ _ => .unary
  | .binary _ _ _ => .binary
  | .index _ _ => .index
  | .function _ => .function
  | .structLiteral _ _ => .structLiteral
  | .member _ _ => .member
  | .receive _ _ => .receive

def Stmt.kind : Stmt → NodeKind
  | .declaration _ => .declaration
  | .expression _ => .expressionStatement
  | .ret _ => .returnStatement
  | .assignment _ _ => .assignment
  | .ifThen _ => .ifStatement
  | .loop _ _ _ _ => .forStatement
  | .go _ _ => .goStatement
  | .select _ => .selectStatement
  | .send _ _ _ => .send
  | .empty => .empty
  | .function _ => .function
  | .typeDeclaration _ _ => .typeDeclaration

def Item.kind : Item → NodeKind
  | .declaration _ => .declaration
  | .function _ => .function
  | .typeDeclaration _ _ => .typeDeclaration

def Expr.ofLiteral (l : Literal) : Expr := .literal l (.basic l.type)

end MiniGo
