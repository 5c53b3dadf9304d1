import MiniGo.Proofs.Token.Lossless
import MiniGo.Text.Line

/-!
The place of an offset, said without a search: the line breaks in front of it are counted, and its line
starts behind the last of them. The search finds the same place for every offset but the end of a text that
is one line without a line break.
-/
namespace MiniGo.Text

/-- The text behind the last line break. -/
def lastLine (cs : List Char) : List Char := (cs.reverse.takeWhile (· ≠ '\n')).reverse

def wholeLines (cs : List Char) : List Char := (cs.reverse.dropWhile (· ≠ '\n')).reverse

/-- The text up to the first line break, with it. -/
def headLine (cs : List Char) : List Char :=
  cs.takeWhile (· ≠ '\n') ++ (cs.dropWhile (· ≠ '\n')).take 1

/-- Where an offset lies in a text whose first line has the given number. -/
def placeFrom (number : Nat) (cs : List Char) (offset : Nat) : Place :=
  let front := takeBytes offset cs
  let start := byteLength (wholeLines front)
  ⟨number + front.count '\n', headLine (dropBytes start cs), offset - start⟩

section Lines

variable {l cs : List Char} {offset : Nat}

/-- A text is one line without a line break, or a line with one and a text behind it. -/
theorem lines_induction {P : List Char → Prop} (last : ∀ l, '\n' ∉ l → P l)
    (line : ∀ l cs, '\n' ∉ l → P cs → P (l ++ '\n' :: cs)) (cs : List Char) : P cs := by
  have key : ∀ l, '\n' ∉ l → P (l ++ cs) := by
    induction cs with
    | nil =>
      intro l hl
      rw [List.append_nil]
      exact last l hl
    | cons c cs ih =>
      intro l hl
      by_cases hc : c = '\n'
      · subst hc
        exact line l cs hl (ih [] List.not_mem_nil)
      · have hlc : '\n' ∉ l ++ [c] := by
          simp [hl, Ne.symm hc]
        have hrest := ih (l ++ [c]) hlc
        rwa [List.append_assoc] at hrest
  exact key [] List.not_mem_nil

theorem ne_of_mem_of_notMem (h : '\n' ∉ l) : ∀ c ∈ l, decide (c ≠ '\n') = true :=
  fun _ hc => decide_eq_true fun heq => h (heq ▸ hc)

private theorem takeWhile_append_break (h : '\n' ∉ l) : (l ++ '\n' :: cs).takeWhile (· ≠ '\n') = l := by
  rw [List.takeWhile_append_of_pos (ne_of_mem_of_notMem h)]
  exact List.append_nil l

private theorem dropWhile_append_break (h : '\n' ∉ l) :
    (l ++ '\n' :: cs).dropWhile (· ≠ '\n') = '\n' :: cs :=
  List.dropWhile_append_of_pos (ne_of_mem_of_notMem h)

private theorem takeWhile_of_notMem (h : '\n' ∉ l) : l.takeWhile (· ≠ '\n') = l := by
  have happend := @List.takeWhile_append_of_pos _ _ l [] (ne_of_mem_of_notMem h)
  rwa [List.takeWhile_nil, List.append_nil] at happend

private theorem dropWhile_of_notMem (h : '\n' ∉ l) : l.dropWhile (· ≠ '\n') = [] := by
  have happend := @List.dropWhile_append_of_pos _ _ l [] (ne_of_mem_of_notMem h)
  rwa [List.dropWhile_nil, List.append_nil] at happend

theorem lastLine_of_notMem (h : '\n' ∉ l) : lastLine l = l := by
  rw [lastLine, takeWhile_of_notMem (by simpa using h), List.reverse_reverse]

private theorem wholeLines_of_notMem (h : '\n' ∉ l) : wholeLines l = [] := by
  rw [wholeLines, dropWhile_of_notMem (by simpa using h), List.reverse_nil]

theorem headLine_of_notMem (h : '\n' ∉ l) : headLine l = l := by
  rw [headLine, takeWhile_of_notMem h, dropWhile_of_notMem h, List.take_nil, List.append_nil]

theorem headLine_append (h : '\n' ∉ l) : headLine (l ++ '\n' :: cs) = l ++ ['\n'] := by
  rw [headLine, takeWhile_append_break h, dropWhile_append_break h]
  rfl

@[simp] theorem lastLine_append (l cs : List Char) : lastLine (l ++ '\n' :: cs) = lastLine cs := by
  rw [lastLine, lastLine, List.reverse_append, List.reverse_cons, List.append_assoc,
    List.singleton_append, List.takeWhile_append]
  split
  · rename_i hlength
    rw [(List.takeWhile_prefix _).eq_of_length hlength]
    exact congrArg List.reverse (List.append_nil _)
  · rfl

theorem wholeLines_append_lastLine (cs : List Char) : wholeLines cs ++ lastLine cs = cs := by
  rw [wholeLines, lastLine, ← List.reverse_append, List.takeWhile_append_dropWhile,
    List.reverse_reverse]

@[simp] theorem wholeLines_append (l cs : List Char) :
    wholeLines (l ++ '\n' :: cs) = l ++ '\n' :: wholeLines cs := by
  have h := wholeLines_append_lastLine (l ++ '\n' :: cs)
  rw [lastLine_append] at h
  refine List.append_cancel_right (h.trans ?_)
  rw [List.append_assoc, List.cons_append, wholeLines_append_lastLine]

theorem notMem_lastLine (cs : List Char) : '\n' ∉ lastLine cs := by
  intro h
  have hall := List.all_takeWhile (l := cs.reverse) (p := (· ≠ '\n'))
  have hne := List.all_eq_true.1 hall _ (List.mem_reverse.1 h)
  exact absurd rfl (of_decide_eq_true hne)

theorem lines_of_notMem (h : '\n' ∉ l) (hne : l ≠ []) : lines l = [l] := by
  induction l with
  | nil => exact absurd rfl hne
  | cons c l ih =>
    rw [List.mem_cons, not_or] at h
    rw [lines, if_neg (Ne.symm h.1)]
    cases l with
    | nil => rfl
    | cons d l => rw [ih h.2 (List.cons_ne_nil d l)]

theorem lines_append (h : '\n' ∉ l) : lines (l ++ '\n' :: cs) = (l ++ ['\n']) :: lines cs := by
  induction l with
  | nil => rw [List.nil_append, lines, if_pos rfl, List.nil_append]
  | cons c l ih =>
    rw [List.mem_cons, not_or] at h
    rw [List.cons_append, lines, if_neg (Ne.symm h.1), ih h.2]
    rfl

theorem length_lines (cs : List Char) :
    (lines cs).length = cs.count '\n' + if lastLine cs = [] then 0 else 1 := by
  induction cs using lines_induction with
  | last l hl =>
    rw [lastLine_of_notMem hl, List.count_eq_zero_of_not_mem hl]
    cases l with
    | nil => rfl
    | cons c l => rw [lines_of_notMem hl (List.cons_ne_nil c l)]; rfl
  | line l cs hl ih =>
    rw [lines_append hl, lastLine_append, List.length_cons, ih, List.count_append, List.count_cons,
      List.count_eq_zero_of_not_mem hl]
    simp only [beq_self_eq_true, if_true]
    omega

end Lines

section Offsets

variable {l cs : List Char} {offset : Nat}

private theorem takeBytes_append_add (l cs : List Char) (offset : Nat) :
    takeBytes (byteLength l + offset) (l ++ cs) = l ++ takeBytes offset cs := by
  induction l with
  | nil => simp
  | cons c l ih =>
    have := c.utf8Size_pos
    rw [byteLength_cons, List.cons_append, takeBytes, if_neg (by omega), List.cons_append]
    rw [show c.utf8Size + byteLength l + offset - c.utf8Size = byteLength l + offset by omega, ih]

private theorem dropBytes_append_add (l cs : List Char) (offset : Nat) :
    dropBytes (byteLength l + offset) (l ++ cs) = dropBytes offset cs := by
  induction l with
  | nil => simp
  | cons c l ih =>
    have := c.utf8Size_pos
    rw [byteLength_cons, List.cons_append, dropBytes, if_neg (by omega)]
    rw [show c.utf8Size + byteLength l + offset - c.utf8Size = byteLength l + offset by omega, ih]

private theorem takeBytes_append_of_le (h : offset ≤ byteLength l) :
    takeBytes offset (l ++ cs) = takeBytes offset l := by
  induction l generalizing offset with
  | nil =>
    obtain rfl : offset = 0 := Nat.le_zero.1 h
    simp
  | cons c l ih =>
    rw [byteLength_cons] at h
    rw [List.cons_append, takeBytes, takeBytes, ih (by omega)]

private theorem mem_of_mem_takeBytes {c : Char} (h : c ∈ takeBytes offset l) : c ∈ l := by
  induction l generalizing offset with
  | nil => exact absurd h List.not_mem_nil
  | cons d l ih =>
    rw [takeBytes] at h
    split at h
    · exact absurd h List.not_mem_nil
    · rcases List.mem_cons.1 h with rfl | h
      · exact List.mem_cons_self
      · exact List.mem_cons_of_mem d (ih h)

end Offsets

section Places

variable {l cs source : List Char} {offset : Nat}

private theorem placeFrom_of_notMem (number : Nat) (h : '\n' ∉ takeBytes offset cs) :
    placeFrom number cs offset = ⟨number, headLine cs, offset⟩ := by
  rw [placeFrom, wholeLines_of_notMem h, List.count_eq_zero_of_not_mem h]
  simp

theorem placeFrom_line (number : Nat) (l cs : List Char) (offset : Nat) (hl : '\n' ∉ l) :
    placeFrom number (l ++ '\n' :: cs) (byteLength (l ++ ['\n']) + offset) =
      placeFrom (number + 1) cs offset := by
  have htext : l ++ '\n' :: cs = (l ++ ['\n']) ++ cs := List.append_cons l '\n' cs
  have hwhole : ∀ x, wholeLines ((l ++ ['\n']) ++ x) = (l ++ ['\n']) ++ wholeLines x := by
    intro x
    rw [← List.append_cons, wholeLines_append, ← List.append_cons]
  have hcount : (l ++ ['\n']).count '\n' = 1 := by
    rw [List.count_append, List.count_eq_zero_of_not_mem hl]
    rfl
  simp only [placeFrom]
  rw [htext, takeBytes_append_add, hwhole, byteLength_append (l ++ ['\n']), dropBytes_append_add,
    List.count_append, hcount, Nat.add_sub_add_left, Nat.add_assoc]

theorem placeFrom_end (number : Nat) (cs : List Char) : placeFrom number cs (byteLength cs) =
    ⟨number + cs.count '\n', lastLine cs, byteLength (lastLine cs)⟩ := by
  have htake : takeBytes (byteLength cs) cs = cs := by
    simpa using takeBytes_append cs []
  have hsplit := wholeLines_append_lastLine cs
  have hdrop := dropBytes_append (wholeLines cs) (lastLine cs)
  have hlength := byteLength_append (wholeLines cs) (lastLine cs)
  rw [hsplit] at hdrop hlength
  rw [placeFrom, htake, hdrop, headLine_of_notMem (notMem_lastLine cs), hlength,
    Nat.add_sub_cancel_left]

theorem placeIn_of_lt (source cs : List Char) {number offset : Nat} (h : offset < byteLength cs) :
    placeIn source (lines cs) number offset = placeFrom number cs offset := by
  induction cs using lines_induction generalizing number offset with
  | last l hl =>
    have hne : l ≠ [] := by
      rintro rfl
      exact Nat.not_lt_zero _ h
    rw [lines_of_notMem hl hne, placeIn, if_pos h,
      placeFrom_of_notMem number (mt mem_of_mem_takeBytes hl), headLine_of_notMem hl]
  | line l cs hl ih =>
    rw [lines_append hl, placeIn]
    split
    · rename_i hlt
      have hle : offset ≤ byteLength l := by
        rw [byteLength_append] at hlt
        exact Nat.le_of_lt_succ hlt
      have hfront : '\n' ∉ takeBytes offset (l ++ '\n' :: cs) := by
        rw [takeBytes_append_of_le hle]
        exact mt mem_of_mem_takeBytes hl
      rw [placeFrom_of_notMem number hfront, headLine_append hl]
    · rename_i hge
      obtain ⟨k, rfl⟩ := Nat.exists_eq_add_of_le (Nat.le_of_not_lt hge)
      have hk : k < byteLength cs := by
        rwa [List.append_cons l '\n' cs, byteLength_append _ cs, Nat.add_lt_add_iff_left] at h
      rw [Nat.add_sub_cancel_left, ih hk, placeFrom_line number l cs k hl]

theorem placeIn_end (source : List Char) (ls : List (List Char)) (number : Nat) :
    placeIn source ls number (byteLength ls.flatten) = endPlace source (number + ls.length - 1) := by
  induction ls generalizing number with
  | nil => rfl
  | cons l ls ih =>
    rw [List.flatten_cons, byteLength_append, placeIn, if_neg (by omega), Nat.add_sub_cancel_left, ih,
      List.length_cons]
    congr 1
    omega

private theorem endPlace_apply (source : List Char) (count : Nat) : endPlace source count =
    if source.contains '\n' && !(lastLine source).isEmpty then
      ⟨count, lastLine source, byteLength (lastLine source)⟩
    else ⟨count + 1, [], 0⟩ := rfl

private theorem endPlace_of_mem (h : '\n' ∈ source) :
    endPlace source (lines source).length = placeFrom 1 source (byteLength source) := by
  rw [endPlace_apply, length_lines, placeFrom_end]
  by_cases hlast : lastLine source = []
  · simp [hlast, Nat.add_comm]
  · simp [h, hlast, Nat.add_comm]

/-- The end of a line without a line break is not placed on that line. -/
theorem endPlace_of_notMem (h : '\n' ∉ source) (hne : source ≠ []) :
    endPlace source (lines source).length = ⟨2, [], 0⟩ := by
  rw [endPlace_apply, if_neg (by simp [h]), lines_of_notMem h hne]
  rfl

/-- The place of every offset, where one past the end counts as the end. Its line is counted by the line
breaks in front of it, its column by the bytes behind the last of them. Only the end of a text that is one
line without a line break is placed on a second line, which the text does not have. -/
theorem placeAt_eq (source : List Char) (offset : Nat) : placeAt source offset =
    if source ≠ [] ∧ '\n' ∉ source ∧ byteLength source ≤ offset then ⟨2, [], 0⟩
    else placeFrom 1 source (min offset (byteLength source)) := by
  by_cases hinside : offset < byteLength source
  · rw [placeAt, Nat.min_eq_left (Nat.le_of_lt hinside), placeIn_of_lt source source hinside,
      if_neg fun h => Nat.not_le_of_lt hinside h.2.2]
  have hend : byteLength source ≤ offset := Nat.le_of_not_lt hinside
  have hsearch := placeIn_end source (lines source) 1
  rw [flatten_lines, Nat.add_sub_cancel_left] at hsearch
  rw [placeAt, Nat.min_eq_right hend, hsearch]
  by_cases hbreak : '\n' ∈ source
  · rw [if_neg fun h => h.2.1 hbreak, endPlace_of_mem hbreak]
  · by_cases hempty : source = []
    · subst hempty
      rfl
    · rw [if_pos ⟨hempty, hbreak, hend⟩, endPlace_of_notMem hbreak hempty]

/-- The end of the first line is not on a second one. -/
theorem placeAt_endOfOneLine :
    placeAt ['a', 'b', 'c'] 3 = ⟨2, [], 0⟩ ∧ placeFrom 1 ['a', 'b', 'c'] 3 = ⟨1, ['a', 'b', 'c'], 3⟩ := by
  decide

end Places

end MiniGo.Text
