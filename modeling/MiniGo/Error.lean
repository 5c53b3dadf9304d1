import MiniGo.Text.Line
import MiniGo.Text.Quoted
import MiniGo.Tree.Kind

/-!
Errors of the front end: a cause and the position it was found at. Each cause has a name, a class,
a message and a tip.
-/
namespace MiniGo

structure Position where
  offset : Text.Offset
  file : String
deriving DecidableEq, Inhabited, Repr

def Position.null : Position := ⟨0, "<null>"⟩

inductive Cause where
  | unrecognisedToken (token : String)
  | unterminatedString (lexeme : String)
  | unterminatedComment
  | invalidNumber (lexeme : String)
  | invalidEscape (lexeme : String)
  | unexpectedToken (token : String)
  | unexpectedTokenDetailed (token message : String)
  | numberParseError (token : String)
  | invalidArraySize (token : String)
  | missingType (identifier : String)
  | invalidChild (node : NodeKind) (field expected : String) (found : NodeKind)
  | invalidNode (node : NodeKind) (message : String)
  | malformedTree (message : String)
  | limitExceeded (limit : Nat)
deriving DecidableEq, Inhabited, Repr

inductive ErrorClass where
  | lexical | grammatical | structural | limit
deriving DecidableEq, Repr

namespace Cause

def name : Cause → String
  | .unrecognisedToken _ => "UnrecognisedToken"
  | .unterminatedString _ => "UnterminatedString"
  | .unterminatedComment => "UnterminatedComment"
  | .invalidNumber _ => "InvalidNumber"
  | .invalidEscape _ => "InvalidEscape"
  | .unexpectedToken _ => "UnexpectedToken"
  | .unexpectedTokenDetailed _ _ => "UnexpectedTokenDetailed"
  | .numberParseError _ => "NumberParseError"
  | .invalidArraySize _ => "InvalidArraySize"
  | .missingType _ => "MissingType"
  | .invalidChild _ _ _ _ => "InvalidChild"
  | .invalidNode _ _ => "InvalidNode"
  | .malformedTree _ => "MalformedRawTree"
  | .limitExceeded _ => "RecursionLimitExceeded"

def errorClass : Cause → ErrorClass
  | .unrecognisedToken _ | .unterminatedString _ | .unterminatedComment => .lexical
  | .invalidNumber _ | .invalidEscape _ => .lexical
  | .unexpectedToken _ | .unexpectedTokenDetailed _ _ | .numberParseError _ => .grammatical
  | .invalidArraySize _ | .missingType _ => .grammatical
  | .invalidChild _ _ _ _ | .invalidNode _ _ | .malformedTree _ => .structural
  | .limitExceeded _ => .limit

def message : Cause → String
  | .unrecognisedToken token => "unrecognised token: " ++ Text.quoted token
  | .unterminatedString lexeme => "unterminated string: " ++ Text.quoted lexeme
  | .unterminatedComment => "unterminated block comment"
  | .invalidNumber lexeme => "invalid number literal: " ++ Text.quoted lexeme
  | .invalidEscape lexeme => "invalid escape sequence in " ++ Text.quoted lexeme
  | .unexpectedToken token => "unexpected token: " ++ Text.quoted token
  | .unexpectedTokenDetailed token message =>
    "unexpected token (" ++ message ++ "): " ++ Text.quoted token
  | .numberParseError token => "error parsing number: " ++ Text.quoted token
  | .invalidArraySize token => "invalid array size: " ++ Text.quoted token
  | .missingType identifier => "missing type for " ++ Text.quoted identifier
  | .invalidChild node field expected found =>
    node.name ++ "." ++ field ++ " must be " ++ expected ++ ", found " ++ found.name
  | .invalidNode node message => "invalid " ++ node.name ++ ": " ++ message
  | .malformedTree message => "malformed raw tree: " ++ message
  | .limitExceeded limit => "recursion limit of " ++ toString limit ++ " exceeded"

/-- What a reader may try; only an unrecognised token leaves nothing to suggest. -/
def tip? : Cause → Option String
  | .unrecognisedToken _ => none
  | .unterminatedString _ => some "String literal is missing its closing quote"
  | .unterminatedComment => some "Block comment is missing its closing `*/`"
  | .invalidNumber lexeme =>
    some ("Invalid number literal: `" ++ lexeme ++ "`, expected digits with an optional fraction")
  | .invalidEscape lexeme => some ("Invalid escape sequence in `" ++ lexeme ++ "`")
  | .unexpectedToken token =>
    some ("Unexpected token: `" ++ token ++ "`, did you miss a semicolon?")
  | .unexpectedTokenDetailed token message =>
    some ("Unexpected token: `" ++ token ++ "`, " ++ message)
  | .numberParseError token => some ("Invalid number: `" ++ token ++ "`, is it out of range?")
  | .invalidArraySize token =>
    some ("Array size `" ++ token ++ "` must be a non-negative integer")
  | .missingType identifier => some ("`" ++ identifier ++ "` needs a type")
  | .invalidChild node field expected found =>
    some ("`" ++ node.name ++ "." ++ field ++ "` must be " ++ expected ++ ", found " ++ found.name)
  | .invalidNode node message => some (node.name ++ ": " ++ message)
  | .malformedTree message => some ("Raw tree could not be read: " ++ message)
  | .limitExceeded limit =>
    some ("Nesting deeper than " ++ toString limit ++ " levels is not supported")

end Cause

structure Error where
  cause : Cause
  position : Position
deriving DecidableEq, Inhabited, Repr

def Error.message (e : Error) : String :=
  e.cause.name ++ " at " ++ e.position.file ++ ":" ++ toString e.position.offset.toNat ++ ": " ++
    e.cause.message

end MiniGo
