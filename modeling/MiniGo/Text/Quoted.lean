import MiniGo.Text.Invisible

/-! Text between double quotes, as messages show it. -/
namespace MiniGo.Text

/-- How a character is written between the quotes: the quote and the backslash behind a backslash,
the usual names for line breaks, tabs and the null character, and the hexadecimal code of every
other character that would leave no mark. -/
def escaped (c : Char) : List Char :=
  if c = '"' then ['\\', '"']
  else if c = '\\' then ['\\', '\\']
  else if c = '\n' then ['\\', 'n']
  else if c = '\r' then ['\\', 'r']
  else if c = '\t' then ['\\', 't']
  else if c = '\x00' then ['\\', '0']
  else if isInvisible c then ['\\', 'u', '\x7b'] ++ Nat.toDigits 16 c.toNat ++ ['\x7d']
  else [c]

def quoted (s : String) : String :=
  String.ofList ('"' :: s.toList.flatMap escaped ++ ['"'])

end MiniGo.Text
