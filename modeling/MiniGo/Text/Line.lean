/-! Lines of a text and the place of a byte offset among them. Offsets count the bytes of the
UTF-8 form. -/
namespace MiniGo.Text

/-- A byte offset as tokens and errors keep it: in 32 bits, above which the rest is lost. -/
abbrev Offset := UInt32

instance : Coe Nat Offset := ⟨UInt32.ofNat⟩

instance : Coe Offset Nat := ⟨UInt32.toNat⟩

def byteLength (cs : List Char) : Nat := cs.foldr (fun c n => c.utf8Size + n) 0

@[simp] theorem byteLength_nil : byteLength [] = 0 := rfl

@[simp] theorem byteLength_cons (c : Char) (cs : List Char) :
    byteLength (c :: cs) = c.utf8Size + byteLength cs := rfl

@[simp] theorem byteLength_append (cs ds : List Char) :
    byteLength (cs ++ ds) = byteLength cs + byteLength ds := by
  induction cs with
  | nil => simp
  | cons c cs ih => simp [ih, Nat.add_assoc]

def lines : List Char → List (List Char)
  | [] => []
  | c :: cs =>
    if c = '\n' then [c] :: lines cs
    else match lines cs with
      | [] => [[c]]
      | l :: ls => (c :: l) :: ls

theorem flatten_lines (cs : List Char) : (lines cs).flatten = cs := by
  induction cs with
  | nil => rfl
  | cons c cs ih =>
    rw [lines]
    split
    · simp [ih]
    · split <;> simp_all

/-- A line counted from one, its text, and how many bytes of it lie before the place. -/
structure Place where
  line : Nat
  text : List Char
  column : Nat
deriving DecidableEq, Repr

/-- The place of the end of a text of `count` lines. The end of an unfinished line after a line
break lies on that line; every other end lies on an empty line of its own. -/
def endPlace (source : List Char) (count : Nat) : Place :=
  let last := (source.reverse.takeWhile (· ≠ '\n')).reverse
  if source.contains '\n' && !last.isEmpty then ⟨count, last, byteLength last⟩
  else ⟨count + 1, [], 0⟩

/-- Finds the line that holds an offset counted from the start of the first of the given lines,
which has the given number. -/
def placeIn (source : List Char) : List (List Char) → Nat → Nat → Place
  | [], number, _ => endPlace source (number - 1)
  | l :: ls, number, offset =>
    if offset < byteLength l then ⟨number, l, offset⟩
    else placeIn source ls (number + 1) (offset - byteLength l)

def placeAt (source : List Char) (offset : Nat) : Place :=
  placeIn source (lines source) 1 (min offset (byteLength source))

end MiniGo.Text
