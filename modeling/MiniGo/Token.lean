import MiniGo.Text.Line

/-!
Tokens of the language. A token knows its kind, its value and the bytes of the source it covers; the
value of a string token is the text that its literal denotes, every other value is the source text.
-/
namespace MiniGo

inductive TokenKind where
  | eof | number | string | boolean | identifier
  | openBracket | closeBracket | openCurly | closeCurly | openParen | closeParen
  | assign | define | equal | bang | notEqual
  | less | lessEqual | greater | greaterEqual
  | or | and
  | dot | semicolon | colon | comma | arrow
  | plus | dash | slash | star | percent
  | varWord | constWord | funcWord | returnWord | ifWord | elseWord | forWord | goWord
  | selectWord | caseWord | defaultWord | typeWord | structWord | chanWord
deriving DecidableEq, Repr

namespace TokenKind

def name : TokenKind → String
  | .eof => "EOF"
  | .number => "Number"
  | .string => "String"
  | .boolean => "Boolean"
  | .identifier => "Identifier"
  | .openBracket => "OpenBracket"
  | .closeBracket => "CloseBracket"
  | .openCurly => "OpenCurly"
  | .closeCurly => "CloseCurly"
  | .openParen => "OpenParen"
  | .closeParen => "CloseParen"
  | .assign => "Assignment"
  | .define => "InferAssignment"
  | .equal => "Equals"
  | .bang => "Not"
  | .notEqual => "NotEquals"
  | .less => "Less"
  | .lessEqual => "LessEquals"
  | .greater => "Greater"
  | .greaterEqual => "GreaterEquals"
  | .or => "Or"
  | .and => "And"
  | .dot => "Dot"
  | .semicolon => "Semicolon"
  | .colon => "Colon"
  | .comma => "Comma"
  | .arrow => "Arrow"
  | .plus => "Plus"
  | .dash => "Dash"
  | .slash => "Slash"
  | .star => "Star"
  | .percent => "Percent"
  | .varWord => "Var"
  | .constWord => "Const"
  | .funcWord => "Func"
  | .returnWord => "Return"
  | .ifWord => "If"
  | .elseWord => "Else"
  | .forWord => "For"
  | .goWord => "Go"
  | .selectWord => "Select"
  | .caseWord => "Case"
  | .defaultWord => "Default"
  | .typeWord => "Type"
  | .structWord => "Struct"
  | .chanWord => "Chan"

def all : List TokenKind := [
  .eof, .number, .string, .boolean, .identifier, .openBracket, .closeBracket, .openCurly,
  .closeCurly, .openParen, .closeParen, .assign, .define, .equal, .bang, .notEqual, .less,
  .lessEqual, .greater, .greaterEqual, .or, .and, .dot, .semicolon, .colon, .comma, .arrow,
  .plus, .dash, .slash, .star, .percent, .varWord, .constWord, .funcWord, .returnWord, .ifWord,
  .elseWord, .forWord, .goWord, .selectWord, .caseWord, .defaultWord, .typeWord, .structWord,
  .chanWord]

/-- Whether a line break behind a token of this kind ends the statement. -/
def endsStatement : TokenKind → Bool
  | .identifier | .number | .string | .boolean | .returnWord => true
  | .closeParen | .closeBracket | .closeCurly => true
  | _ => false

end TokenKind

def reservedWords : List (String × TokenKind) := [
  ("var", .varWord), ("const", .constWord), ("func", .funcWord), ("return", .returnWord),
  ("if", .ifWord), ("else", .elseWord), ("for", .forWord), ("go", .goWord),
  ("select", .selectWord), ("case", .caseWord), ("default", .defaultWord), ("type", .typeWord),
  ("struct", .structWord), ("chan", .chanWord), ("true", .boolean), ("false", .boolean)]

def reserved? (word : String) : Option TokenKind := reservedWords.lookup word

/-- The token covers the bytes from `start` up to `stop`. -/
structure Token where
  kind : TokenKind
  value : String
  start : Text.Offset
  stop : Text.Offset
deriving DecidableEq, Repr

namespace Token

def describe (t : Token) : String :=
  match t.kind with
  | .eof => "EOF"
  | .semicolon => if t.value = "\n" then "newline" else t.value
  | _ => t.value

def display (t : Token) : String :=
  "Token \x7b\nkind: " ++ t.kind.name ++ ",\nvalue: " ++ t.value ++ "\x7d"

def covering (kind : TokenKind) (value : String) (offset : Nat) (text : List Char) : Token :=
  ⟨kind, value, .ofNat offset, .ofNat (offset + Text.byteLength text)⟩

def lineBreak (offset : Nat) : Token := ⟨.semicolon, "\n", .ofNat offset, .ofNat (offset + 1)⟩

def endOfInput (offset : Text.Offset) : Token := ⟨.eof, "EOF", offset, offset⟩

end Token

end MiniGo
