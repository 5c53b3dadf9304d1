/-! String literals: where one ends, and the text it denotes. -/
namespace MiniGo.StringLiteral

/-- How many characters after the opening quote belong to the literal, the closing quote included.
A backslash takes the next character with it, whatever it is; a line break ends the search. -/
def length? : List Char → Option Nat
  | [] => none
  | c :: cs =>
    if c = '"' then some 1
    else if c = '\n' then none
    else if c = '\\' then
      match cs with
      | [] => none
      | d :: ds => if d = '\n' then none else (length? ds).map (· + 2)
    else (length? cs).map (· + 1)

def hexValue? (c : Char) : Option Nat :=
  if '0' ≤ c && c ≤ '9' then some (c.toNat - '0'.toNat)
  else if 'a' ≤ c && c ≤ 'f' then some (c.toNat - 'a'.toNat + 10)
  else if 'A' ≤ c && c ≤ 'F' then some (c.toNat - 'A'.toNat + 10)
  else none

/-- What a backslash and a character denote. An unknown pair stands for itself. -/
def simpleEscape (c : Char) : List Char :=
  if c = 'n' then ['\n']
  else if c = 't' then ['\t']
  else if c = 'r' then ['\r']
  else if c = '0' then ['\x00']
  else if c = '\\' then ['\\']
  else if c = '"' then ['"']
  else ['\\', c]

/-- The text between the quotes with its escapes resolved. The only escape that can fail is a
character code, which takes two hexadecimal digits. -/
def decode? : List Char → Option (List Char)
  | [] => some []
  | c :: cs =>
    if c = '\\' then
      match cs with
      | [] => some [c]
      | d :: ds =>
        if d = 'x' then
          match ds with
          | a :: b :: rest =>
            match hexValue? a, hexValue? b with
            | some high, some low => (decode? rest).map (Char.ofNat (16 * high + low) :: ·)
            | _, _ => none
          | _ => none
        else (decode? ds).map (simpleEscape d ++ ·)
    else (decode? cs).map (c :: ·)

end MiniGo.StringLiteral
