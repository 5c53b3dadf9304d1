import Mathlib.Data.List.DropRight
import MiniGo.Error.Report
import MiniGo.Proofs.Text.Line
import MiniGo.Proofs.Token.Joined

/-!
The arrow of a report. It stands behind the gutter and as many dashes as there are bytes between the
indentation of the quoted line and the place of the error, which are as many as characters only as long as
the line is written in ASCII there. The gutters of the two lines are not of one width, so the head of the
arrow is a column away from the character that it means.
-/
namespace MiniGo

open Text

namespace Text

private theorem length_le_byteLength (cs : List Char) : cs.length ≤ byteLength cs := by
  induction cs with
  | nil => exact Nat.le_refl 0
  | cons c cs ih =>
    have := c.utf8Size_pos
    rw [List.length_cons, byteLength_cons]
    omega

theorem byteLength_eq_length (cs : List Char) :
    byteLength cs = cs.length ↔ ∀ c ∈ cs, c.utf8Size = 1 := by
  induction cs with
  | nil => simp
  | cons c cs ih =>
    have := c.utf8Size_pos
    have := length_le_byteLength cs
    rw [List.forall_mem_cons, ← ih, byteLength_cons, List.length_cons]
    omega

private theorem utf8Size_eq_one (c : Char) : c.utf8Size = 1 ↔ c.toNat < 128 := by
  rw [Char.utf8Size_eq_one_iff, UInt32.le_iff_toNat_le]
  exact Nat.lt_succ_iff.symm

theorem headLine_append_of_notMem {l : List Char} (cs : List Char) (h : '\n' ∉ l) :
    headLine (l ++ cs) = l ++ headLine cs := by
  rw [headLine, headLine, List.takeWhile_append_of_pos (ne_of_mem_of_notMem h),
    List.dropWhile_append_of_pos (ne_of_mem_of_notMem h), List.append_assoc]

theorem placeAt_append {front back : List Char} (hback : back ≠ []) :
    placeAt (front ++ back) (byteLength front) = ⟨1 + front.count '\n',
      lastLine front ++ headLine back, byteLength (lastLine front)⟩ := by
  have hinside : byteLength front < byteLength (front ++ back) := by
    have := byteLength_pos hback
    rw [byteLength_append]
    omega
  have hsplit := wholeLines_append_lastLine front
  have hdrop := dropBytes_append (wholeLines front) (lastLine front ++ back)
  rw [← List.append_assoc, hsplit] at hdrop
  have hlength := byteLength_append (wholeLines front) (lastLine front)
  rw [hsplit] at hlength
  rw [placeAt_eq, if_neg fun h => Nat.not_le_of_lt hinside h.2.2, Nat.min_eq_left (Nat.le_of_lt hinside),
    placeFrom, takeBytes_append, hdrop, headLine_append_of_notMem back (notMem_lastLine front), hlength,
    Nat.add_sub_cancel_left]

end Text

namespace Error

@[simp] theorem toList_alignRight (width : Nat) (fill : Char) (text : String) :
    (alignRight width fill text).toList =
      List.replicate (width - text.length) fill ++ text.toList := by
  simp [alignRight]

private theorem lastLine_append_line (above : String) {gutter arrow : String} (hgutter : '\n' ∉ gutter.toList)
    (harrow : '\n' ∉ arrow.toList) :
    lastLine (above ++ "\n" ++ gutter ++ " " ++ arrow).toList = gutter.toList ++ ' ' :: arrow.toList := by
  have hline : '\n' ∉ gutter.toList ++ ' ' :: arrow.toList := by
    simp [hgutter, harrow]
  simp only [String.toList_append, List.append_assoc]
  exact (lastLine_append above.toList _).trans (lastLine_of_notMem hline)

theorem lastLine_render (e : Error) (source : String) :
    let place := placeAt source.toList e.position.offset.toNat
    lastLine (e.render source).toList =
      List.replicate ((toString place.line).length + 1) ' ' ++ ['|'] ++ [' '] ++
        (List.replicate (place.column - (place.text.takeWhile isIndent).length) '-' ++ ['^']) := by
  intro place
  have hgutter : (alignRight ((toString place.line).length + 2) ' ' "|").toList =
      List.replicate ((toString place.line).length + 1) ' ' ++ ['|'] :=
    toList_alignRight _ _ _
  have harrow (dashes : Nat) : (alignRight (dashes + 1) '-' "^").toList =
      List.replicate dashes '-' ++ ['^'] := toList_alignRight _ _ _
  rw [render, lastLine_append_line _ (by rw [hgutter]; simp) (by rw [harrow]; simp), hgutter, harrow]
  exact List.append_cons _ ' ' _

/-- The bytes of a line in front of a place, less the indentation. The indentation has one byte for each of
its characters, and only its part in front of the place counts. -/
theorem column_sub_indent (line rest : List Char) :
    byteLength line - ((line ++ rest).takeWhile isIndent).length =
      byteLength (line.dropWhile isIndent) := by
  have hblank : byteLength (line.takeWhile isIndent) = (line.takeWhile isIndent).length := by
    rw [byteLength_eq_length]
    intro c hc
    have hindent := List.all_eq_true.1 List.all_takeWhile c hc
    rw [isIndent, Bool.or_eq_true, beq_iff_eq, beq_iff_eq] at hindent
    rcases hindent with rfl | rfl <;> rfl
  have hsplit : byteLength line =
      (line.takeWhile isIndent).length + byteLength (line.dropWhile isIndent) := by
    rw [← hblank, ← byteLength_append, List.takeWhile_append_dropWhile]
  rw [List.takeWhile_append]
  split
  · rename_i hall
    have hnone : line.dropWhile isIndent = [] := by
      have hlength := congrArg List.length (List.takeWhile_append_dropWhile (p := isIndent) (l := line))
      rw [List.length_append, hall] at hlength
      exact List.eq_nil_of_length_eq_zero (Nat.left_eq_add.1 hlength.symm)
    rw [hnone, byteLength_nil, Nat.add_zero] at hsplit
    rw [hsplit, hnone, List.length_append, hall]
    simp
  · rw [hsplit, Nat.add_sub_cancel_left]

/-- The arrow under a place inside the source has a dash for each byte of its line in front of it, without
the indentation. These are the characters shown there exactly if all of them are ASCII characters. -/
theorem dashes_render (e : Error) {source : String} {front back : List Char}
    (hsource : source.toList = front ++ back) (hposition : e.position.offset.toNat = byteLength front)
    (hback : back ≠ []) :
    let shown := (lastLine front).dropWhile isIndent
    (∃ gutter, '-' ∉ gutter ∧ lastLine (e.render source).toList =
      gutter ++ (List.replicate (byteLength shown) '-' ++ ['^'])) ∧
    (byteLength shown = shown.length ↔ ∀ c ∈ shown, c.toNat < 128) := by
  intro shown
  have hplace : placeAt (front ++ back) (byteLength front) = _ := placeAt_append hback
  have hline := lastLine_render e source
  simp only [hsource, hposition, hplace, column_sub_indent] at hline
  refine ⟨⟨_, ?_, hline⟩, ?_⟩
  · simp
  · simp only [byteLength_eq_length, utf8Size_eq_one]

theorem dashes_render_accented :
    let e : Error := ⟨.unrecognisedToken "#", ⟨4, "shell"⟩⟩
    let front := ['"', 'é', '"']
    ("\"é\"#".toList = front ++ ['#'] ∧ e.position.offset.toNat = byteLength front ∧ ['#'] ≠ []) ∧
    let shown := (lastLine front).dropWhile isIndent
    (∃ gutter, '-' ∉ gutter ∧ lastLine (e.render "\"é\"#").toList =
      gutter ++ (List.replicate (byteLength shown) '-' ++ ['^'])) ∧
    (byteLength shown = shown.length ↔ ∀ c ∈ shown, c.toNat < 128) := by
  intro e front
  have hsource : "\"é\"#".toList = front ++ ['#'] := by decide
  exact ⟨⟨hsource, by decide, by decide⟩, dashes_render e hsource (by decide) (by decide)⟩

/-- The refused character stands behind three others, and the arrow under it has four dashes. -/
theorem render_accented :
    let source := "\"é\"#"
    ∃ e : Error, tokenize source "shell" = .error e ∧
      e.position.offset.toNat = byteLength ['"', 'é', '"'] ∧ source.toList = ['"', 'é', '"'] ++ ['#'] ∧
      lastLine (e.render source).toList = "  | ".toList ++ (List.replicate 4 '-' ++ ['^']) := by
  intro source
  let e : Error := ⟨.unrecognisedToken "#", ⟨4, "shell"⟩⟩
  have hliteral : Lexer.piece '"' ['é', '"', '#'] = .ok (.token .string "é", 2) := rfl
  have herror : tokenize source "shell" = .error e := by
    rw [tokenize, show source.toList = ['"', 'é', '"', '#'] by decide,
      Lexer.tokensFrom_of_tokenPiece hliteral]
    exact congrArg _ (Lexer.tokensFrom_of_errorPiece rfl)
  exact ⟨e, herror, by decide, by decide, by decide +kernel⟩

section Quoted

variable {line tail : List Char} {c : Char}

private theorem drop_indent (h : ∃ d ∈ line ++ [c], isIndent d = false) :
    (line ++ c :: tail).drop ((line ++ c :: tail).takeWhile isIndent).length =
      line.dropWhile isIndent ++ c :: tail := by
  rw [Lexer.drop_length_takeWhile, List.dropWhile_append]
  split
  · rename_i hempty
    have hnil := List.isEmpty_iff.1 hempty
    have hall := List.dropWhile_eq_nil_iff.1 hnil
    have hc : isIndent c = false := by
      obtain ⟨d, hd, hfalse⟩ := h
      rcases List.mem_append.1 hd with hd | hd
      · rw [hall d hd] at hfalse
        cases hfalse
      · rwa [← List.mem_singleton.1 hd]
    rw [List.dropWhile_cons_of_neg (by simp [hc]), hnil, List.nil_append]
  · rfl

theorem trimEnd_eq (cs : List Char) : trimEnd cs = cs.rdropWhile isBlank := rfl

private theorem notMem_trimEnd {cs : List Char} (h : c ∉ cs) : c ∉ trimEnd cs :=
  mt (fun hc => (List.rdropWhile_prefix isBlank cs).subset hc) h

private theorem trimEnd_append (front : List Char) (h : ∃ d ∈ c :: tail, isBlank d = false) :
    ∃ rest, trimEnd (front ++ c :: tail) = front ++ c :: rest := by
  have hne : trimEnd (c :: tail) ≠ [] := by
    rw [trimEnd_eq, Ne, List.rdropWhile_eq_nil_iff]
    intro hall
    obtain ⟨d, hd, hfalse⟩ := h
    rw [hall d hd] at hfalse
    cases hfalse
  obtain ⟨d, rest, hrest⟩ := List.exists_cons_of_ne_nil hne
  have hstarts := List.rdropWhile_prefix isBlank (c :: tail)
  rw [← trimEnd_eq, hrest, List.cons_prefix_cons] at hstarts
  rw [hstarts.1] at hrest
  refine ⟨rest, ?_⟩
  have hkept : ¬ ((c :: tail).reverse.dropWhile isBlank).isEmpty = true := by
    rw [List.isEmpty_iff, ← List.reverse_eq_nil_iff]
    exact hne
  rw [trimEnd, List.reverse_append, List.dropWhile_append, if_neg hkept, List.reverse_append,
    List.reverse_reverse, ← hrest]
  rfl

private theorem notMem_trimEnd_headLine (cs : List Char) : '\n' ∉ trimEnd (headLine cs) := by
  by_cases hbreak : '\n' ∈ cs
  · obtain ⟨l, rest, rfl, hl⟩ := List.eq_append_cons_of_mem hbreak
    rw [headLine_append hl, trimEnd_eq, List.rdropWhile_concat_pos _ _ _ rfl]
    exact notMem_trimEnd hl
  · rw [headLine_of_notMem hbreak]
    exact notMem_trimEnd hbreak

/-- The quoted line and the line of the arrow, behind the rest of a report. -/
theorem toList_render (e : Error) (source : String) :
    let place := placeAt source.toList e.position.offset.toNat
    let number := (toString place.line).toList
    let indent := (place.text.takeWhile isIndent).length
    ∃ above, (e.render source).toList =
      above ++ '\n' :: (' ' :: (number ++ " | ".toList) ++ trimEnd (place.text.drop indent) ++
        '\n' :: (List.replicate (number.length + 1) ' ' ++ "| ".toList ++
          List.replicate (place.column - indent) '-' ++ ['^'])) := by
  intro place number indent
  have hnumber : (alignRight ((toString place.line).length + 1) ' ' (toString place.line)).toList =
      ' ' :: number := by
    rw [toList_alignRight, Nat.add_sub_cancel_left]
    rfl
  have hgutter : (alignRight ((toString place.line).length + 2) ' ' "|").toList =
      List.replicate (number.length + 1) ' ' ++ ['|'] := toList_alignRight _ _ _
  have harrow (dashes : Nat) : (alignRight (dashes + 1) '-' "^").toList =
      List.replicate dashes '-' ++ ['^'] := toList_alignRight _ _ _
  refine ⟨(headline e ++ "\n" ++ "-> " ++ e.position.file ++ "\n" ++
    alignRight ((toString place.line).length + 2) ' ' "|").toList, ?_⟩
  have hbreak : "\n".toList = ['\n'] := rfl
  have hbar : " | ".toList = [' ', '|', ' '] := rfl
  have hspace : "| ".toList = ['|', ' '] := rfl
  have hblank : " ".toList = [' '] := rfl
  simp only [render, String.toList_append, String.toList_ofList, hgutter, hnumber, harrow, hbreak, hbar,
    hspace, hblank, List.append_assoc, List.cons_append, List.nil_append, number, indent, place]

private theorem notMem_toString (n : Nat) : '\n' ∉ (toString n).toList := by
  rw [Nat.toString_eq_ofList_toDigits, String.toList_ofList]
  intro h
  exact absurd (Nat.isDigit_of_mem_toDigits (by decide) (by decide) h) (by decide)

/-- The arrow and what it points at. The quoted line shows the source line without its indentation, and the
head of the arrow stands behind as many dashes as the character it means has others in front of it there. But
the bar in front of the arrow is one column to the left of the bar in front of the quoted line, and so is the
head of the arrow of its character, whatever the number of the line. -/
theorem caret_render (e : Error) {source : String} {front back : List Char} {c : Char}
    (hsource : source.toList = front ++ c :: back) (hposition : e.position.offset.toNat = byteLength front)
    (hascii : ∀ d ∈ lastLine front, d.toNat < 128)
    (hindent : ∃ d ∈ lastLine front ++ [c], isIndent d = false)
    (htrail : ∃ d ∈ headLine (c :: back), isBlank d = false) :
    let shown := (lastLine front).dropWhile isIndent
    ∃ above left rest bar, (e.render source).toList =
        above ++ '\n' :: (left ++ shown ++ c :: rest ++
          '\n' :: (bar ++ List.replicate shown.length '-' ++ ['^'])) ∧
      '\n' ∉ left ++ shown ++ c :: rest ∧ '\n' ∉ bar ∧ '^' ∉ bar ∧
      (left ++ shown).length = (bar ++ List.replicate shown.length '-').length + 1 := by
  intro shown
  have hc : '\n' ∉ [c] := by
    rw [List.mem_singleton]
    rintro rfl
    obtain ⟨d, hd, hfalse⟩ := htrail
    obtain rfl : d = '\n' := by simpa [headLine] using hd
    exact absurd hfalse (by decide)
  have hhead : headLine (c :: back) = c :: headLine back := headLine_append_of_notMem back hc
  rw [hhead] at htrail
  have hplace : placeAt source.toList e.position.offset.toNat = _ :=
    hsource ▸ hposition ▸ placeAt_append (List.cons_ne_nil c back)
  obtain ⟨rest, hquoted⟩ := trimEnd_append shown htrail
  obtain ⟨above, hrender⟩ := toList_render e source
  have hshown : byteLength shown = shown.length := by
    rw [byteLength_eq_length]
    intro d hd
    exact (utf8Size_eq_one d).2 (hascii d ((List.dropWhile_suffix _).subset hd))
  simp only [hplace, hhead, drop_indent hindent] at hrender
  rw [hquoted, column_sub_indent, hshown] at hrender
  have hclean : '\n' ∉ shown ++ c :: rest := by
    have hnone : '\n' ∉ shown := mt (fun h => (List.dropWhile_suffix _).subset h) (notMem_lastLine front)
    rw [← hquoted, ← hhead, ← headLine_append_of_notMem _ hnone]
    exact notMem_trimEnd_headLine _
  let number := (toString (1 + front.count '\n')).toList
  have hnumber : '\n' ∉ number := notMem_toString _
  refine ⟨above, ' ' :: (number ++ " | ".toList), rest,
    List.replicate (number.length + 1) ' ' ++ "| ".toList, ?_, ?_, ?_, ?_, ?_⟩
  · rw [hrender]
    simp only [number, List.append_assoc]
  · rw [List.append_assoc]
    simp only [List.mem_append, List.mem_cons, not_or] at hclean ⊢
    exact ⟨⟨by decide, hnumber, by decide⟩, hclean⟩
  · simp
  · simp
  · simp
    omega

theorem caret_render_closeCurly :
    let e : Error := ⟨.unexpectedTokenDetailed "\x7d" "expected expression", ⟨7, "main.go"⟩⟩
    let source := "\n\nx := \x7d"
    let front := ['\n', '\n', 'x', ' ', ':', '=', ' ']
    (source.toList = front ++ '\x7d' :: [] ∧ e.position.offset.toNat = byteLength front ∧
      (∀ d ∈ lastLine front, d.toNat < 128) ∧ (∃ d ∈ lastLine front ++ ['\x7d'], isIndent d = false) ∧
      ∃ d ∈ headLine ['\x7d'], isBlank d = false) ∧
    let shown := (lastLine front).dropWhile isIndent
    ∃ above left rest bar, (e.render source).toList =
        above ++ '\n' :: (left ++ shown ++ '\x7d' :: rest ++
          '\n' :: (bar ++ List.replicate shown.length '-' ++ ['^'])) ∧
      '\n' ∉ left ++ shown ++ '\x7d' :: rest ∧ '\n' ∉ bar ∧ '^' ∉ bar ∧
      (left ++ shown).length = (bar ++ List.replicate shown.length '-').length + 1 := by
  intro e source front
  have hsource : source.toList = front ++ '\x7d' :: [] := by decide
  have hposition : e.position.offset.toNat = byteLength front := by decide
  have hall : (lastLine front).all (·.toNat < 128) = true := by decide
  have hascii : ∀ d ∈ lastLine front, d.toNat < 128 :=
    fun d hd => of_decide_eq_true (List.all_eq_true.1 hall d hd)
  have hindent : ∃ d ∈ lastLine front ++ ['\x7d'], isIndent d = false := ⟨'x', by decide, by decide⟩
  have htrail : ∃ d ∈ headLine ['\x7d'], isBlank d = false := ⟨'\x7d', by decide, by decide⟩
  exact ⟨⟨hsource, hposition, hascii, hindent, htrail⟩,
    caret_render e hsource hposition hascii hindent htrail⟩

/-- The refused character is the eleventh of its line in the report, and the head of the arrow the tenth of
the next. -/
theorem render_assignment :
    let source := "x := #;"
    ∃ e : Error, tokenize source "shell" = .error e ∧
      source.toList = "x := ".toList ++ '#' :: [';'] ∧ e.position.offset.toNat = byteLength "x := ".toList ∧
      (e.render source).toList = "Error: UnrecognisedToken\n-> shell\n  |\n".toList ++
        " 1 | x := #;".toList ++ '\n' :: "  | -----^".toList ∧
      " 1 | x := #;".toList.idxOf '#' = 10 ∧ "  | -----^".toList.idxOf '^' = 9 := by
  intro source
  let e : Error := ⟨.unrecognisedToken "#", ⟨5, "shell"⟩⟩
  have hname : Lexer.piece 'x' [' ', ':', '=', ' ', '#', ';'] = .ok (.token .identifier "x", 0) := rfl
  have hbehind : Lexer.piece ' ' [':', '=', ' ', '#', ';'] = .ok (.gap, 0) := rfl
  have hdefine : Lexer.piece ':' ['=', ' ', '#', ';'] = .ok (.token .define ":=", 1) := rfl
  have hahead : Lexer.piece ' ' ['#', ';'] = .ok (.gap, 0) := rfl
  have herror : tokenize source "shell" = .error e := by
    rw [tokenize, show source.toList = ['x', ' ', ':', '=', ' ', '#', ';'] by decide,
      Lexer.tokensFrom_of_tokenPiece hname, List.drop_zero, Lexer.tokensFrom_of_gapPiece hbehind,
      Lexer.behindGap, List.drop_zero, Lexer.tokensFrom_of_tokenPiece hdefine, List.drop_one, List.tail_cons,
      Lexer.tokensFrom_of_gapPiece hahead, Lexer.behindGap, List.drop_zero, Lexer.tokensFrom_of_errorPiece rfl]
    rfl
  exact ⟨e, herror, by decide, by decide, by decide +kernel, by decide, by decide⟩

end Quoted

end Error

end MiniGo
