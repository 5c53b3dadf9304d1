import MiniGo.Error
import MiniGo.Text.Blank
import MiniGo.Text.Line

/-!
Errors shown with the source line they stand on. The bar in front of the quoted line stands a column further
to the right than the other two:

    Error: UnrecognisedToken
    -> main.go
       |
     20 | x := #;
       | -----^
-/
namespace MiniGo.Error

def alignRight (width : Nat) (fill : Char) (text : String) : String :=
  String.ofList (List.replicate (width - text.length) fill) ++ text

/-- The indentation that the quoted line loses. -/
def isIndent (c : Char) : Bool := c == ' ' || c == '\t'

def trimEnd (cs : List Char) : List Char := (cs.reverse.dropWhile Text.isBlank).reverse

def headline (e : Error) : String :=
  match e.cause.tip? with
  | none => "Error: " ++ e.cause.name
  | some tip => "Error: " ++ e.cause.name ++ " (" ++ tip ++ ")"

/-- Four lines and an arrow. A space stands between the line number and its bar, but the gutter has its bar at
once behind the width of the number and the space before it. The arrow has one dash for each byte between the
indentation and the place. -/
def render (e : Error) (source : String) : String :=
  let place := Text.placeAt source.toList e.position.offset.toNat
  let number := toString place.line
  let gutter := alignRight (number.length + 2) ' ' "|"
  let indent := (place.text.takeWhile isIndent).length
  let quoted := String.ofList (trimEnd (place.text.drop indent))
  let arrow := alignRight (place.column - indent + 1) '-' "^"
  headline e ++ "\n" ++ "-> " ++ e.position.file ++ "\n" ++ gutter ++ "\n" ++
    alignRight (number.length + 1) ' ' number ++ " | " ++ quoted ++ "\n" ++ gutter ++ " " ++ arrow

end MiniGo.Error
