import MiniGo.Json.Number
import MiniGo.Token.StringLiteral

/-! JSON text into values. Reading is strict, and the nesting of arrays and objects is limited. -/
namespace MiniGo.Json

def isSpace (c : Char) : Bool := c == ' ' || c == '\t' || c == '\n' || c == '\r'

def skipSpace (cs : List Char) : List Char := cs.dropWhile isSpace

def behind? : List Char → List Char → Option (List Char)
  | [], cs => some cs
  | _ :: _, [] => none
  | w :: ws, c :: cs => if w = c then behind? ws cs else none

def unit? (a b c d : Char) : Option Nat := do
  let a ← StringLiteral.hexValue? a
  let b ← StringLiteral.hexValue? b
  let c ← StringLiteral.hexValue? c
  let d ← StringLiteral.hexValue? d
  return 4096 * a + 256 * b + 16 * c + d

def isHighSurrogate (n : Nat) : Bool := 0xD800 ≤ n && n < 0xDC00

def isLowSurrogate (n : Nat) : Bool := 0xDC00 ≤ n && n < 0xE000

def namedEscape? (c : Char) : Option Char :=
  if c = '"' || c = '\\' || c = '/' then some c
  else if c = 'b' then some '\x08'
  else if c = 'f' then some '\x0c'
  else if c = 'n' then some '\n'
  else if c = 'r' then some '\r'
  else if c = 't' then some '\t'
  else none

/-- The text of a string behind its opening quote, and the rest behind its closing quote. Control
characters have to be escaped, and surrogates come in pairs. -/
def stringRest? : List Char → Option (List Char × List Char)
  | [] => none
  | c :: cs =>
    if c = '"' then some ([], cs)
    else if c.toNat < 0x20 then none
    else if c = '\\' then
      match cs with
      | [] => none
      | e :: cs =>
        if e = 'u' then
          match cs with
          | p :: q :: r :: s :: cs =>
            match unit? p q r s with
            | none => none
            | some high =>
              if isLowSurrogate high then none
              else if isHighSurrogate high then
                match cs with
                | b :: u :: p :: q :: r :: s :: cs =>
                  match unit? p q r s with
                  | none => none
                  | some low =>
                    if b = '\\' && u = 'u' && isLowSurrogate low then
                      (stringRest? cs).map fun (text, rest) =>
                        (Char.ofNat (0x10000 + 0x400 * (high - 0xD800) + (low - 0xDC00)) :: text,
                          rest)
                    else none
                | _ => none
              else (stringRest? cs).map fun (text, rest) => (Char.ofNat high :: text, rest)
          | _ => none
        else match namedEscape? e with
          | none => none
          | some d => (stringRest? cs).map fun (text, rest) => (d :: text, rest)
    else (stringRest? cs).map fun (text, rest) => (c :: text, rest)

/-- One or more items with commas between them, up to a closing character. Each item takes at least
one character, so the text itself bounds the number of turns. -/
def sequence {α : Type} (item : List Char → Option (α × List Char)) (close : Char) :
    List Char → List Char → Option (List α × List Char)
  | [], _ => none
  | _ :: turns, cs => do
    let (a, cs) ← item cs
    match skipSpace cs with
    | [] => none
    | c :: cs =>
      if c = close then some ([a], cs)
      else if c = ',' then
        let (as, cs) ← sequence item close turns cs
        some (a :: as, cs)
      else none

def enclosed {α : Type} (item : List Char → Option (α × List Char)) (close : Char)
    (cs : List Char) : Option (List α × List Char) :=
  match skipSpace cs with
  | [] => none
  | c :: rest => if c = close then some ([], rest) else sequence item close (c :: rest) (c :: rest)

def member? (value : List Char → Option (Json × List Char)) (cs : List Char) :
    Option ((String × Json) × List Char) := do
  let cs ← behind? ['"'] (skipSpace cs)
  let (name, cs) ← stringRest? cs
  let cs ← behind? [':'] (skipSpace cs)
  let (v, cs) ← value cs
  return ((String.ofList name, v), cs)

def scalar? (cs : List Char) : Option (Json × List Char) :=
  match cs with
  | [] => none
  | c :: rest =>
    if c = '"' then (stringRest? rest).map fun (s, rest) => (.string (String.ofList s), rest)
    else if c = 'n' then (behind? "null".toList cs).map (.null, ·)
    else if c = 't' then (behind? "true".toList cs).map (.bool true, ·)
    else if c = 'f' then (behind? "false".toList cs).map (.bool false, ·)
    else do
      let (number, rest) ← numberText? cs
      let v ← number.value?
      return (v, rest)

/-- A value in which arrays and objects nest at most `levels` deep, and the rest of the text. -/
def value? : Nat → List Char → Option (Json × List Char)
  | 0, cs => scalar? (skipSpace cs)
  | levels + 1, cs =>
    match skipSpace cs with
    | [] => none
    | c :: rest =>
      if c = '[' then
        (enclosed (value? levels) ']' rest).map fun (items, rest) => (.array items, rest)
      else if c = '\x7b' then
        (enclosed (member? (value? levels)) '\x7d' rest).map fun (members, rest) =>
          (.object members, rest)
      else scalar? (c :: rest)

def parse? (levels : Nat) (text : String) : Option Json :=
  match value? levels text.toList with
  | none => none
  | some (v, rest) => if (skipSpace rest).isEmpty then some v else none

end MiniGo.Json
