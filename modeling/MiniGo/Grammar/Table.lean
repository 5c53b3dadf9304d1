import MiniGo.Token

/-!
Which token starts or continues what. A table sends the kind of the current token to the form of
statement, operand or type that it starts and to the operator that it is behind an operand.
-/
namespace MiniGo.Grammar

/-- How tightly an operator binds, loosest first. -/
inductive Power where
  | lowest | logicalOr | logicalAnd | relational | additive | multiplicative
  | unary | call | member | primary
deriving DecidableEq, Repr

def Power.rank : Power → Nat
  | .lowest => 0
  | .logicalOr => 1
  | .logicalAnd => 2
  | .relational => 3
  | .additive => 4
  | .multiplicative => 5
  | .unary => 6
  | .call => 7
  | .member => 8
  | .primary => 9

inductive StatementForm where
  | declaration | typeDeclaration | function | ret | ifThen | loop | go | select
deriving DecidableEq, Repr

inductive OperandForm where
  | primary | unary | receive | grouping | function
deriving DecidableEq, Repr

inductive OperatorForm where
  | binary | call | index | structLiteral | member
deriving DecidableEq, Repr

inductive TypeForm where
  | named | array | chan | receiveChan | function | struct
deriving DecidableEq, Repr

structure Table where
  statement : TokenKind → Option StatementForm
  operand : TokenKind → Option OperandForm
  operator : TokenKind → Option (Power × OperatorForm)
  type : TokenKind → Option TypeForm

namespace Table

def standard : Table where
  statement
    | .varWord | .constWord => some .declaration
    | .typeWord => some .typeDeclaration
    | .funcWord => some .function
    | .returnWord => some .ret
    | .ifWord => some .ifThen
    | .forWord => some .loop
    | .goWord => some .go
    | .selectWord => some .select
    | _ => none
  operand
    | .number | .string | .boolean | .identifier => some .primary
    | .dash | .bang => some .unary
    | .arrow => some .receive
    | .openParen => some .grouping
    | .funcWord => some .function
    | _ => none
  operator
    | .or => some (.logicalOr, .binary)
    | .and => some (.logicalAnd, .binary)
    | .equal | .notEqual | .less | .lessEqual | .greater | .greaterEqual =>
      some (.relational, .binary)
    | .plus | .dash => some (.additive, .binary)
    | .star | .slash | .percent => some (.multiplicative, .binary)
    | .openParen => some (.call, .call)
    | .openBracket => some (.call, .index)
    | .openCurly => some (.call, .structLiteral)
    | .dot => some (.member, .member)
    | _ => none
  type
    | .identifier => some .named
    | .openBracket => some .array
    | .chanWord => some .chan
    | .arrow => some .receiveChan
    | .funcWord => some .function
    | .structWord => some .struct
    | _ => none

def none : Table where
  statement _ := Option.none
  operand _ := Option.none
  operator _ := Option.none
  type _ := Option.none

end Table

end MiniGo.Grammar
