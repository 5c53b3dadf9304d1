import MiniGo.Error
import MiniGo.Text.Blank
import MiniGo.Text.Line
import MiniGo.Token
import MiniGo.Token.StringLiteral

/-!
Source text into tokens. The text is cut into pieces, each of which is a token or part of a gap
between tokens; the first line break of a gap behind a token that can end a statement stands for a
semicolon, and so does the end of the text.
-/
namespace MiniGo.Lexer

def isDigit (c : Char) : Bool := '0' ≤ c && c ≤ '9'

def isLetter (c : Char) : Bool := ('a' ≤ c && c ≤ 'z') || ('A' ≤ c && c ≤ 'Z') || c == '_'

def isWordPart (c : Char) : Bool := isLetter c || isDigit c

/-- Characters that go on with a number, whether or not the result is a valid one: `1.2.3` and `1x`
are bad numbers, not two tokens. -/
def isNumberPart (c : Char) : Bool := isWordPart c || c == '.'

/-- Digits, with an optional fraction that has digits of its own. -/
def isNumber (cs : List Char) : Bool :=
  let whole := cs.takeWhile isDigit
  !whole.isEmpty &&
    match cs.dropWhile isDigit with
    | [] => true
    | c :: ds => c == '.' && !ds.isEmpty && ds.all isDigit

inductive Role where
  | gap
  | token (kind : TokenKind) (value : String)
deriving DecidableEq, Repr

/-- How many characters after the opening of a block comment belong to it, its end included. -/
def commentLength? : List Char → Option Nat
  | [] => none
  | c :: cs =>
    if c = '*' && cs.head? = some '/' then some 2 else (commentLength? cs).map (· + 1)

/-- The operator that starts with a character, by the character after it: two-character operators
win over their first characters. -/
def operator? (c : Char) (next : Option Char) : Option (TokenKind × String) :=
  if c = '[' then some (.openBracket, "[")
  else if c = ']' then some (.closeBracket, "]")
  else if c = '\x7b' then some (.openCurly, "\x7b")
  else if c = '\x7d' then some (.closeCurly, "\x7d")
  else if c = '(' then some (.openParen, "(")
  else if c = ')' then some (.closeParen, ")")
  else if c = ':' then if next = some '=' then some (.define, ":=") else some (.colon, ":")
  else if c = '=' then if next = some '=' then some (.equal, "==") else some (.assign, "=")
  else if c = '!' then if next = some '=' then some (.notEqual, "!=") else some (.bang, "!")
  else if c = '<' then
    if next = some '-' then some (.arrow, "<-")
    else if next = some '=' then some (.lessEqual, "<=")
    else some (.less, "<")
  else if c = '>' then
    if next = some '=' then some (.greaterEqual, ">=") else some (.greater, ">")
  else if c = '|' then if next = some '|' then some (.or, "||") else none
  else if c = '&' then if next = some '&' then some (.and, "&&") else none
  else if c = '.' then some (.dot, ".")
  else if c = ';' then some (.semicolon, ";")
  else if c = ',' then some (.comma, ",")
  else if c = '+' then some (.plus, "+")
  else if c = '-' then some (.dash, "-")
  else if c = '/' then some (.slash, "/")
  else if c = '*' then some (.star, "*")
  else if c = '%' then some (.percent, "%")
  else none

/-- The part of a text that messages about an open string show: its first line, without the
carriage return that may belong to the line break. -/
def firstLine (cs : List Char) : List Char :=
  let line := cs.takeWhile (· ≠ '\n')
  if line.length < cs.length && line.getLast? == some '\r' then line.dropLast else line

def stringPiece (cs : List Char) : Except Cause (Role × Nat) :=
  match StringLiteral.length? cs with
  | none => .error (.unterminatedString (String.ofList (firstLine ('"' :: cs))))
  | some n =>
    match StringLiteral.decode? (cs.take (n - 1)) with
    | none => .error (.invalidEscape (String.ofList ('"' :: cs.take n)))
    | some value => .ok (.token .string (String.ofList value), n)

/-- The piece that starts with `c`: what it is, and how many of the following characters belong to
it. -/
def piece (c : Char) (cs : List Char) : Except Cause (Role × Nat) :=
  if Text.isBlank c then .ok (.gap, (cs.takeWhile Text.isBlank).length)
  else if c = '/' && cs.head? = some '/' then .ok (.gap, (cs.takeWhile (· ≠ '\n')).length)
  else if c = '/' && cs.head? = some '*' then
    match commentLength? cs.tail with
    | some n => .ok (.gap, n + 1)
    | none => .error .unterminatedComment
  else if isLetter c then
    let word := cs.takeWhile isWordPart
    let value := String.ofList (c :: word)
    .ok (.token ((reserved? value).getD .identifier) value, word.length)
  else if isDigit c then
    let rest := cs.takeWhile isNumberPart
    let value := String.ofList (c :: rest)
    if isNumber (c :: rest) then .ok (.token .number value, rest.length)
    else .error (.invalidNumber value)
  else if c = '"' then stringPiece cs
  else match operator? c cs.head? with
    | some (kind, value) => .ok (.token kind value, value.length - 1)
    | none => .error (.unrecognisedToken (String.ofList [c]))

def lineBreak? : List Char → Option Nat
  | [] => none
  | c :: cs => if c = '\n' then some 0 else (lineBreak? cs).map (· + c.utf8Size)

/-- The tokens of a text that starts at `offset`. `pending` says whether the last token so far can
end a statement, that is, whether the next line break stands for a semicolon. -/
def tokensFrom (file : String) (offset : Nat) (pending : Bool) :
    List Char → Except Error (List Token)
  | [] => .ok ((if pending then [Token.lineBreak offset] else []) ++ [Token.endOfInput (.ofNat offset)])
  | c :: cs =>
    match piece c cs with
    | .error cause => .error ⟨cause, .ofNat offset, file⟩
    | .ok (role, n) =>
      let text := c :: cs.take n
      let stop := offset + Text.byteLength text
      match role with
      | .token kind value =>
        (tokensFrom file stop kind.endsStatement (cs.drop n)).map (.covering kind value offset text :: ·)
      | .gap =>
        match lineBreak? text with
        | some k =>
          if pending then
            (tokensFrom file stop false (cs.drop n)).map (Token.lineBreak (offset + k) :: ·)
          else tokensFrom file stop pending (cs.drop n)
        | none => tokensFrom file stop pending (cs.drop n)
termination_by cs => cs.length
decreasing_by all_goals simp only [List.length_cons, List.length_drop]; omega

end MiniGo.Lexer

namespace MiniGo

/-- The tokens of a source, the end of the input last; or its first lexical error, at the start of
the piece that is no token. -/
def tokenize (source file : String) : Except Error (List Token) :=
  Lexer.tokensFrom file 0 false source.toList

end MiniGo
