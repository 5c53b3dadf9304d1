import MiniGo.Program

/-!
The places of a program in the order of reading. Programs, top-level items, statements, expressions,
types, names, functions and declarations are places; each is listed before what it holds. The `if`
behind an `else`, the two parts of an indexed target and the guard of a case belong to the statement
around them.
-/
namespace MiniGo

inductive Event where
  | program
  | item (kind : NodeKind)
  | statement (kind : NodeKind)
  | expression (kind : NodeKind)
  | type (kind : NodeKind)
  | identifier (name : String)
  | function
  | declaration
deriving DecidableEq, Repr

/-- The event of a place and, unless it is pruned, those of the places inside. -/
def Event.followedBy (pruned : Event → Bool) (e : Event) (inside : List Event) : List Event :=
  e :: if pruned e then [] else inside

mutual

def Ty.visit (pruned : Event → Bool) : Ty → List Event
  | .any => Event.followedBy pruned (.type .anyType) []
  | .void => Event.followedBy pruned (.type .voidType) []
  | .basic _ => Event.followedBy pruned (.type .basicType) []
  | .tuple elements => Event.followedBy pruned (.type .tupleType) (Ty.visitAll pruned elements)
  | .function params result =>
    Event.followedBy pruned (.type .functionType) (params.visit pruned ++ result.visit pruned)
  | .chan _ element => Event.followedBy pruned (.type .chanType) (element.visit pruned)
  | .array element _ => Event.followedBy pruned (.type .arrayType) (element.visit pruned)
  | .slice element => Event.followedBy pruned (.type .sliceType) (element.visit pruned)
  | .custom _ => Event.followedBy pruned (.type .customType) []
  | .struct fields => Event.followedBy pruned (.type .structType) (Ident.visitAll pruned fields)

def Ty.visitAll (pruned : Event → Bool) : List Ty → List Event
  | [] => []
  | t :: ts => t.visit pruned ++ Ty.visitAll pruned ts

def Ty.visitOption (pruned : Event → Bool) : Option Ty → List Event
  | none => []
  | some t => t.visit pruned

def Ident.visit (pruned : Event → Bool) : Ident → List Event
  | ⟨name, type⟩ => Event.followedBy pruned (.identifier name) (Ty.visitOption pruned type)

def Ident.visitAll (pruned : Event → Bool) : List Ident → List Event
  | [] => []
  | i :: is => i.visit pruned ++ Ident.visitAll pruned is

end

def Ident.visitOption (pruned : Event → Bool) : Option Ident → List Event
  | none => []
  | some i => i.visit pruned

mutual

def Expr.visit (pruned : Event → Bool) : Expr → List Event
  | .identifier id => Event.followedBy pruned (.expression .identifier) (id.visit pruned)
  | .literal _ type => Event.followedBy pruned (.expression .literal) (type.visit pruned)
  | .application operator operands =>
    Event.followedBy pruned (.expression .application)
      (operator.visit pruned ++ Expr.visitAll pruned operands)
  | .unary _ operand => Event.followedBy pruned (.expression .unary) (operand.visit pruned)
  | .binary left _ right =>
    Event.followedBy pruned (.expression .binary) (left.visit pruned ++ right.visit pruned)
  | .index accessed index =>
    Event.followedBy pruned (.expression .index) (accessed.visit pruned ++ index.visit pruned)
  | .function f => Event.followedBy pruned (.expression .function) (f.visit pruned)
  | .structLiteral type fields =>
    Event.followedBy pruned (.expression .structLiteral)
      (type.visit pruned ++ FieldValue.visitAll pruned fields)
  | .member accessed field =>
    Event.followedBy pruned (.expression .member) (accessed.visit pruned ++ field.visit pruned)
  | .receive chan _ => Event.followedBy pruned (.expression .receive) (chan.visit pruned)

def Expr.visitAll (pruned : Event → Bool) : List Expr → List Event
  | [] => []
  | e :: es => e.visit pruned ++ Expr.visitAll pruned es

def Expr.visitOption (pruned : Event → Bool) : Option Expr → List Event
  | none => []
  | some e => e.visit pruned

def FieldValue.visitAll (pruned : Event → Bool) : List FieldValue → List Event
  | [] => []
  | ⟨field, value⟩ :: fs =>
    field.visit pruned ++ value.visit pruned ++ FieldValue.visitAll pruned fs

def Function.visit (pruned : Event → Bool) : Function → List Event
  | ⟨name, formals, result, body⟩ =>
    Event.followedBy pruned .function
      (Ident.visitOption pruned name ++ Ident.visitAll pruned formals ++
        Ty.visitOption pruned result ++ Stmt.visitAll pruned body)

def Declaration.visit (pruned : Event → Bool) : Declaration → List Event
  | ⟨_, ids, vals⟩ =>
    Event.followedBy pruned .declaration (Ident.visitAll pruned ids ++ Expr.visitAll pruned vals)

def Target.visitAll (pruned : Event → Bool) : List Target → List Event
  | [] => []
  | .identifier id :: ts => id.visit pruned ++ Target.visitAll pruned ts
  | .index accessed index :: ts =>
    accessed.visit pruned ++ index.visit pruned ++ Target.visitAll pruned ts

def Stmt.visit (pruned : Event → Bool) : Stmt → List Event
  | .declaration d => Event.followedBy pruned (.statement .declaration) (d.visit pruned)
  | .expression e => Event.followedBy pruned (.statement .expressionStatement) (e.visit pruned)
  | .ret vals =>
    Event.followedBy pruned (.statement .returnStatement) (Expr.visitAll pruned vals)
  | .assignment targets vals =>
    Event.followedBy pruned (.statement .assignment)
      (Target.visitAll pruned targets ++ Expr.visitAll pruned vals)
  | .ifThen i => Event.followedBy pruned (.statement .ifStatement) (i.visitParts pruned)
  | .loop init cond post body =>
    Event.followedBy pruned (.statement .forStatement)
      (Stmt.visitOption pruned init ++ Expr.visitOption pruned cond ++
        Stmt.visitOption pruned post ++ Stmt.visitAll pruned body)
  | .go operator operands =>
    Event.followedBy pruned (.statement .goStatement)
      (operator.visit pruned ++ Expr.visitAll pruned operands)
  | .select arms =>
    Event.followedBy pruned (.statement .selectStatement) (Arm.visitAll pruned arms)
  | .send chan val _ =>
    Event.followedBy pruned (.statement .send) (chan.visit pruned ++ val.visit pruned)
  | .empty => Event.followedBy pruned (.statement .empty) []
  | .function f => Event.followedBy pruned (.statement .function) (f.visit pruned)
  | .typeDeclaration _ type =>
    Event.followedBy pruned (.statement .typeDeclaration) (type.visit pruned)

def Stmt.visitAll (pruned : Event → Bool) : List Stmt → List Event
  | [] => []
  | s :: ss => s.visit pruned ++ Stmt.visitAll pruned ss

def Stmt.visitOption (pruned : Event → Bool) : Option Stmt → List Event
  | none => []
  | some s => s.visit pruned

def If.visitParts (pruned : Event → Bool) : If → List Event
  | ⟨short, cond, cons, alt⟩ =>
    Stmt.visitOption pruned short ++ cond.visit pruned ++ Stmt.visitAll pruned cons ++
      Else.visitOption pruned alt

def Else.visitParts (pruned : Event → Bool) : Else → List Event
  | .block body => Stmt.visitAll pruned body
  | .chained i => i.visitParts pruned

def Else.visitOption (pruned : Event → Bool) : Option Else → List Event
  | none => []
  | some e => e.visitParts pruned

def Arm.visitAll (pruned : Event → Bool) : List Arm → List Event
  | [] => []
  | .otherwise body :: as => Stmt.visitAll pruned body ++ Arm.visitAll pruned as
  | .guarded guard body :: as =>
    guard.visitParts pruned ++ Stmt.visitAll pruned body ++ Arm.visitAll pruned as

def Guard.visitParts (pruned : Event → Bool) : Guard → List Event
  | .send chan val _ => chan.visit pruned ++ val.visit pruned
  | .receive chan _ => chan.visit pruned
  | .declaration d => d.visit pruned
  | .assignment targets vals => Target.visitAll pruned targets ++ Expr.visitAll pruned vals

end

def Item.visit (pruned : Event → Bool) : Item → List Event
  | .declaration d => Event.followedBy pruned (.item .declaration) (d.visit pruned)
  | .function f => Event.followedBy pruned (.item .function) (f.visit pruned)
  | .typeDeclaration _ type =>
    Event.followedBy pruned (.item .typeDeclaration) (type.visit pruned)

/-- The events of a program, without those inside pruned places. -/
def Program.visit (pruned : Event → Bool) (p : Program) : List Event :=
  Event.followedBy pruned .program (p.items.flatMap (Item.visit pruned))

end MiniGo
