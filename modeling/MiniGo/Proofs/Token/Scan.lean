import MiniGo.Proofs.Token.Lexeme
import MiniGo.Proofs.Token.Spelling

/-!
The lexer gap by gap. How a gap is cut into pieces does not matter: all that it leaves is the semicolon
of its first line break. So the tokens of a text are those of its lexemes, with the semicolons of the
gaps between them.
-/
namespace MiniGo.Lexer
open Text

section LineBreaks

variable {cs ds : List Char} {offset : Nat} {pending : Bool}

theorem lineBreak?_append (cs ds : List Char) :
    lineBreak? (cs ++ ds) = (lineBreak? cs).or ((lineBreak? ds).map (byteLength cs + ·)) := by
  induction cs with
  | nil =>
    rw [List.nil_append]
    simp [lineBreak?]
  | cons c cs ih =>
    by_cases hc : c = '\n'
    · simp [lineBreak?, hc]
    · rw [List.cons_append, lineBreak?, lineBreak?, if_neg hc, if_neg hc, ih]
      cases lineBreak? cs <;> cases lineBreak? ds <;> simp
      omega

@[simp] theorem lineBreak?_eq_none : lineBreak? cs = none ↔ '\n' ∉ cs := by
  induction cs with
  | nil => simp [lineBreak?]
  | cons c cs ih =>
    by_cases hc : c = '\n'
    · simp [lineBreak?, hc]
    · simp [lineBreak?, hc, ih, Ne.symm hc]

/-- The semicolon that a gap at `offset` leaves, if a line break in it can end a statement. -/
def breaks (offset : Nat) (pending : Bool) (gap : List Char) : List Token :=
  match pending, lineBreak? gap with
  | true, some k => [Token.lineBreak (offset + k)]
  | _, _ => []

/-- Whether a line break behind a gap still stands for a semicolon. -/
def staysPending (pending : Bool) (gap : List Char) : Bool := pending && (lineBreak? gap).isNone

@[simp] theorem breaks_nil (offset : Nat) (pending : Bool) : breaks offset pending [] = [] := by
  cases pending <;> rfl

@[simp] theorem staysPending_nil (pending : Bool) : staysPending pending [] = pending := by
  cases pending <;> rfl

theorem breaks_append (offset : Nat) (pending : Bool) (cs ds : List Char) :
    breaks offset pending (cs ++ ds) =
      breaks offset pending cs ++ breaks (offset + byteLength cs) (staysPending pending cs) ds := by
  simp only [breaks, staysPending, lineBreak?_append]
  cases pending <;> cases lineBreak? cs <;> cases lineBreak? ds <;> simp [Nat.add_assoc]

theorem staysPending_append (pending : Bool) (cs ds : List Char) :
    staysPending pending (cs ++ ds) = staysPending (staysPending pending cs) ds := by
  simp only [staysPending, lineBreak?_append]
  cases pending <;> cases lineBreak? cs <;> cases lineBreak? ds <;> rfl

end LineBreaks

section Gaps

variable {file : String} {offset n : Nat} {pending : Bool} {c : Char} {cs gap after : List Char}

def behindGap (file : String) (offset : Nat) (pending : Bool) (gap after : List Char) :
    Except Error (List Token) :=
  (tokensFrom file (offset + byteLength gap) (staysPending pending gap) after).map
    (breaks offset pending gap ++ ·)

@[simp] theorem map_map {α β γ : Type} (x : Except Error α) (f : α → β) (g : β → γ) :
    (x.map f).map g = x.map (g ∘ f) := by
  cases x <;> rfl

@[simp] theorem map_nil_append (x : Except Error (List Token)) : x.map ([] ++ ·) = x := by
  cases x <;> rfl

@[simp] theorem behindGap_nil (after : List Char) :
    behindGap file offset pending [] after = tokensFrom file offset pending after := by
  simp only [behindGap, breaks_nil, staysPending_nil, byteLength_nil, Nat.add_zero]
  exact map_nil_append _

theorem behindGap_append (gap gap' after : List Char) :
    behindGap file offset pending (gap ++ gap') after =
      (behindGap file (offset + byteLength gap) (staysPending pending gap) gap' after).map
        (breaks offset pending gap ++ ·) := by
  simp only [behindGap, breaks_append, staysPending_append, byteLength_append, Nat.add_assoc, map_map]
  congr 1
  funext tokens
  simp

theorem tokensFrom_of_gapPiece (h : piece c cs = .ok (.gap, n)) :
    tokensFrom file offset pending (c :: cs) =
      behindGap file offset pending (c :: cs.take n) (cs.drop n) := by
  rw [tokensFrom.eq_def]
  simp only [h, behindGap, breaks, staysPending]
  cases pending <;> cases lineBreak? (c :: cs.take n)
  · exact (map_nil_append _).symm
  · exact (map_nil_append _).symm
  · exact (map_nil_append _).symm
  · rfl

theorem piece_blank (hc : isBlank c = true) (cs : List Char) :
    piece c cs = .ok (.gap, (cs.takeWhile isBlank).length) := by
  rw [piece, if_pos hc]

theorem tokensFrom_blank (hc : isBlank c = true) (cs : List Char) :
    tokensFrom file offset pending (c :: cs) = behindGap file offset pending [c] cs := by
  rw [tokensFrom_of_gapPiece (piece_blank hc cs)]
  cases cs with
  | nil => rfl
  | cons d ds =>
    by_cases hd : isBlank d = true
    · rw [List.takeWhile_cons_of_pos hd, List.length_cons, List.take_succ_cons, List.drop_succ_cons]
      have hsplit : c :: d :: ds.take (ds.takeWhile isBlank).length =
          [c] ++ (d :: ds.take (ds.takeWhile isBlank).length) := rfl
      rw [hsplit, behindGap_append, ← tokensFrom_of_gapPiece (piece_blank hd ds)]
      rfl
    · rw [List.takeWhile_cons_of_neg hd]
      rfl

theorem takeWhile_append_of_ends {p : Char → Bool} {body rest : List Char}
    (hbody : ∀ c ∈ body, p c = true) (hrest : ∀ c ∈ rest.head?, p c = false) :
    (body ++ rest).takeWhile p = body := by
  rw [List.takeWhile_append_of_pos hbody]
  cases rest with
  | nil => simp
  | cons c rest => simp [hrest c rfl]

theorem piece_lineComment {body rest : List Char} (hbody : ∀ c ∈ body, c ≠ '\n')
    (hend : ∀ c ∈ rest.head?, c = '\n') :
    piece '/' ('/' :: (body ++ rest)) = .ok (.gap, ('/' :: body).length) := by
  have htake : ('/' :: (body ++ rest)).takeWhile (fun c => decide (c ≠ '\n')) = '/' :: body := by
    rw [List.takeWhile_cons_of_pos (by decide), takeWhile_append_of_ends]
    · simpa using hbody
    · simpa using hend
  rw [piece, if_neg (by decide), if_pos (by simp), htake]

theorem commentLength?_append {body rest : List Char} (hbody : ¬ ['*', '/'] <:+: body ++ ['*']) :
    commentLength? (body ++ '*' :: '/' :: rest) = some (body.length + 2) := by
  induction body with
  | nil => rfl
  | cons c body ih =>
    have htail : ¬ ['*', '/'] <:+: body ++ ['*'] := fun h => hbody (h.trans (List.suffix_cons c _).isInfix)
    have hhead : ¬ (c = '*' ∧ (body ++ '*' :: '/' :: rest).head? = some '/') := by
      rintro ⟨rfl, hhead⟩
      cases body with
      | nil => simp at hhead
      | cons d ds =>
        obtain rfl : d = '/' := by simpa using hhead
        exact hbody ⟨[], ds ++ ['*'], rfl⟩
    rw [List.cons_append, commentLength?, if_neg (by simpa using hhead), ih htail]
    simp

theorem piece_blockComment {body rest : List Char} (hbody : ¬ ['*', '/'] <:+: body ++ ['*']) :
    piece '/' ('*' :: (body ++ '*' :: '/' :: rest)) =
      .ok (.gap, ('*' :: (body ++ ['*', '/'])).length) := by
  rw [piece, if_neg (by decide), if_neg (by simp), if_pos (by simp), List.tail_cons,
    commentLength?_append hbody]
  simp

/-- A gap leaves the semicolon of its first line break and nothing else. -/
theorem tokensFrom_gap (h : Gap after gap) :
    tokensFrom file offset pending (gap ++ after) = behindGap file offset pending gap after := by
  induction h generalizing offset pending with
  | nil => simp
  | @blank c cs hc h ih =>
    rw [List.cons_append, tokensFrom_blank hc]
    change _ = behindGap file offset pending ([c] ++ cs) after
    rw [behindGap_append, ← ih]
    rfl
  | @lineComment body rest hbody hend h ih =>
    have hsplit : '/' :: '/' :: (body ++ rest) = ('/' :: '/' :: body) ++ rest := rfl
    have hpiece := piece_lineComment hbody hend
    rw [← List.append_assoc] at hpiece
    rw [List.cons_append, List.cons_append, tokensFrom_of_gapPiece hpiece, hsplit, behindGap_append,
      ← ih]
    simp [behindGap]
  | @blockComment body rest hbody h ih =>
    have hsplit : '/' :: '*' :: (body ++ '*' :: '/' :: rest) =
        ('/' :: '*' :: (body ++ ['*', '/'])) ++ rest := by simp
    have htext : ('*' :: (body ++ '*' :: '/' :: rest)) ++ after =
        ('*' :: (body ++ ['*', '/'])) ++ (rest ++ after) := by simp
    have hpiece : piece '/' ('*' :: (body ++ '*' :: '/' :: (rest ++ after))) = _ :=
      piece_blockComment hbody
    have htail : '*' :: (body ++ '*' :: '/' :: (rest ++ after)) =
        ('*' :: (body ++ ['*', '/'])) ++ (rest ++ after) := by simp
    rw [htail] at hpiece
    rw [List.cons_append, htext, tokensFrom_of_gapPiece hpiece, hsplit, behindGap_append, ← ih,
      List.take_left, List.drop_left]
    rfl

theorem Gap.congr {after' : List Char} (h : Gap after gap) (hafter : after'.head? = after.head?) :
    Gap after' gap := by
  induction h with
  | nil => exact .nil
  | blank hc _ ih => exact .blank hc ih
  | @lineComment body rest hbody hend _ ih =>
    refine .lineComment hbody ?_ ih
    rwa [List.head?_append, hafter, ← List.head?_append]
  | blockComment hbody _ ih => exact .blockComment hbody ih

theorem Gap.newline (h : Gap [] gap) : Gap after (gap ++ ['\n']) := by
  induction h with
  | nil => exact .blank rfl .nil
  | blank hc _ ih => exact .blank hc ih
  | @lineComment body rest hbody hend _ ih =>
    rw [List.cons_append, List.cons_append, List.append_assoc]
    refine .lineComment hbody ?_ ih
    rw [List.append_nil] at hend
    cases rest with
    | nil =>
      rintro c ⟨⟩
      rfl
    | cons c rest => exact hend
  | @blockComment body rest hbody _ ih =>
    rw [List.cons_append, List.cons_append, List.append_assoc]
    exact .blockComment hbody ih

end Gaps

section Lexemes

variable {c : Char} {cs rest rest' lexeme : List Char} {kind : TokenKind} {value : String} {n : Nat}

theorem isBlank_eq_false_of_isNumberPart (h : isNumberPart c = true) : isBlank c = false := by
  have h0 : ('0' : Char).val.toNat = 48 := rfl
  have h9 : ('9' : Char).val.toNat = 57 := rfl
  have ha : ('a' : Char).val.toNat = 97 := rfl
  have hz : ('z' : Char).val.toNat = 122 := rfl
  have hA : ('A' : Char).val.toNat = 65 := rfl
  have hZ : ('Z' : Char).val.toNat = 90 := rfl
  have hrange : 46 ≤ c.toNat ∧ c.toNat ≤ 122 := by
    simp only [isNumberPart, isWordPart, isLetter, isDigit, Bool.or_eq_true, Bool.and_eq_true,
      decide_eq_true_eq, beq_iff_eq, Char.le_def, UInt32.le_iff_toNat_le] at h
    unfold Char.toNat
    rcases h with (((h | h) | rfl) | h) | rfl
    · omega
    · omega
    · decide
    · omega
    · decide
  rw [← Bool.not_eq_true]
  simp only [isBlank, Bool.or_eq_true, Bool.and_eq_true, decide_eq_true_eq, beq_iff_eq]
  omega

theorem isNumberPart_of_isWordPart (h : isWordPart c = true) : isNumberPart c = true := by
  simp [isNumberPart, h]

private theorem isWordPart_of_isLetter (h : isLetter c = true) : isWordPart c = true := by
  simp [isWordPart, h]

private theorem isWordPart_of_isDigit (h : isDigit c = true) : isWordPart c = true := by
  simp [isWordPart, h]

private theorem ne_slash_of_isWordPart (h : isWordPart c = true) : c ≠ '/' := by
  rintro rfl
  exact absurd h (by decide)

theorem piece_word (hc : isLetter c = true) (cs : List Char) :
    piece c cs = .ok (.token ((reserved? (String.ofList (c :: cs.takeWhile isWordPart))).getD
      .identifier) (String.ofList (c :: cs.takeWhile isWordPart)), (cs.takeWhile isWordPart).length) := by
  have hword := isWordPart_of_isLetter hc
  have hblank := isBlank_eq_false_of_isNumberPart (isNumberPart_of_isWordPart hword)
  simp [piece, hblank, ne_slash_of_isWordPart hword, hc]

theorem piece_numeral (hc : isDigit c = true)
    (hn : isNumber (c :: cs.takeWhile isNumberPart) = true) :
    piece c cs = .ok (.token .number (String.ofList (c :: cs.takeWhile isNumberPart)),
      (cs.takeWhile isNumberPart).length) := by
  have hword := isWordPart_of_isDigit hc
  have hblank := isBlank_eq_false_of_isNumberPart (isNumberPart_of_isWordPart hword)
  have hletter : isLetter c = false := by
    rw [← Bool.not_eq_true]
    intro hletter
    rw [not_isDigit_of_isLetter hletter] at hc
    exact absurd hc (by decide)
  simp [piece, hblank, ne_slash_of_isWordPart hword, hletter, hc, hn]

theorem piece_string {value : List Char} (hn : StringLiteral.length? cs = some n)
    (hvalue : StringLiteral.decode? (cs.take (n - 1)) = some value) :
    piece '"' cs = .ok (.token .string (String.ofList value), n) := by
  have hpiece : piece '"' cs = stringPiece cs := by simp [piece, isBlank, isLetter, isDigit]
  simp [hpiece, stringPiece, hn, hvalue]

def OpensComment (c : Char) (next : Option Char) : Prop :=
  c = '/' ∧ (next = some '/' ∨ next = some '*')

theorem not_opensComment_of_piece (h : piece c cs = .ok (.token kind value, n)) :
    ¬ OpensComment c cs.head? := by
  rintro ⟨rfl, hnext | hnext⟩
  · simp [piece, isBlank, hnext] at h
  · simp only [piece, isBlank, hnext] at h
    revert h
    cases commentLength? cs.tail <;> simp

private theorem operators_head_not_isBlank : ∀ op ∈ operators, ∀ c ∈ op.toList.head?, isBlank c = false := by
  have hall : ∀ op ∈ operators, op.toList.head?.all (fun c => !isBlank c) = true := by decide
  intro op hop c hc
  have hhead := hall op hop
  rw [Option.mem_def.1 hc] at hhead
  simpa using hhead

theorem piece_operator (hop : operator? c cs.head? = some (kind, value))
    (hcomment : ¬ OpensComment c cs.head?) :
    piece c cs = .ok (.token kind value, value.length - 1) := by
  have hscanned := isScanned_operator c cs.head? _ hop
  have hblank := operators_head_not_isBlank value hscanned.known c hscanned.head
  obtain ⟨hletter, hdigit, hquote⟩ := operators_head value hscanned.known c hscanned.head
  have hline : ¬ (c = '/' ∧ cs.head? = some '/') := fun h => hcomment ⟨h.1, .inl h.2⟩
  have hblock : ¬ (c = '/' ∧ cs.head? = some '*') := fun h => hcomment ⟨h.1, .inr h.2⟩
  simp only [piece, hblank, hletter, hdigit, hquote, hop, Bool.false_eq_true, if_false,
    Bool.and_eq_true, decide_eq_true_eq, hline, hblock]

private theorem operator?_none (c : Char) (next : Option Char) :
    ∀ p ∈ operator? c next, p.2.length = 1 → operator? c none = some p := by
  generalize halone : operator? c none = alone
  unfold operator?
  repeat' refine forall_mem_of_ite (fun _ => ?_) fun _ => ?_
  all_goals rintro _ ⟨⟩ hlength
  all_goals subst_vars
  all_goals first
    | rfl
    | exact absurd hlength (by decide)

private theorem operator?_of_isBlank {next : Option Char} (h : ∀ d ∈ next, isBlank d = true) (c : Char) :
    operator? c next = operator? c none := by
  have hother : ∀ d, isBlank d = false → next ≠ some d := by
    rintro d hd rfl
    rw [h d rfl] at hd
    cases hd
  simp [operator?, hother '=' rfl, hother '-' rfl, hother '|' rfl, hother '&' rfl]

/-- A lexeme ends in front of `rest'` if it ends in front of `rest`: the next character is the same, or
one that ends every lexeme. -/
def EndsAlike (rest rest' : List Char) : Prop :=
  rest'.head? = rest.head? ∨ ∀ d ∈ rest'.head?, isBlank d = true

/-- The text in front of `rest` is one token. -/
def Begins (c : Char) (cs rest : List Char) (kind : TokenKind) (value : String) : Prop :=
  piece c (cs ++ rest) = .ok (.token kind value, cs.length)

theorem ends_of_length_takeWhile {p : Char → Bool}
    (h : cs.length = ((cs ++ rest).takeWhile p).length) :
    (∀ d ∈ cs, p d = true) ∧ ∀ d ∈ rest.head?, p d = false := by
  have htake : (cs ++ rest).takeWhile p = cs := by
    rw [← take_length_takeWhile, ← h, List.take_left]
  have hcs : ∀ d ∈ cs, p d = true := by
    rw [← htake]
    exact fun d => mem_takeWhile
  rw [List.takeWhile_append_of_pos hcs, List.append_right_eq_self] at htake
  refine ⟨hcs, fun d hd => ?_⟩
  obtain ⟨ds, rfl⟩ := List.head?_eq_some_iff.1 hd
  by_cases hpd : p d = true
  · simp [List.takeWhile_cons_of_pos hpd] at htake
  · simpa using hpd

private theorem takeWhile_congr_of_endsAlike {p : Char → Bool} (hp : ∀ d, isBlank d = true → p d = false)
    (hrest : EndsAlike rest rest') (h : cs.length = ((cs ++ rest).takeWhile p).length) :
    (cs ++ rest').takeWhile p = (cs ++ rest).takeWhile p := by
  obtain ⟨hcs, hends⟩ := ends_of_length_takeWhile h
  rw [takeWhile_append_of_ends hcs hends, takeWhile_append_of_ends hcs]
  intro d hd
  rcases hrest with hsame | hblank
  · exact hends d (hsame ▸ hd)
  · exact hp d (hblank d hd)

/-- What a lexeme is read as depends on the lexeme and on where it ends. -/
theorem Begins.congr (h : Begins c cs rest kind value) (hrest : EndsAlike rest rest') :
    Begins c cs rest' kind value := by
  have hpiece : piece c (cs ++ rest) = _ := h
  unfold Begins
  have hnumber : ∀ d, isBlank d = true → isNumberPart d = false := by
    intro d hd
    rw [← Bool.not_eq_true]
    intro hpart
    rw [isBlank_eq_false_of_isNumberPart hpart] at hd
    cases hd
  have hword : ∀ d, isBlank d = true → isWordPart d = false := by
    intro d hd
    rw [← Bool.not_eq_true]
    intro hpart
    exact absurd (isNumberPart_of_isWordPart hpart) (by simp [hnumber d hd])
  generalize hn : cs.length = n at hpiece ⊢
  generalize hrole : Role.token kind value = role at hpiece ⊢
  generalize htext : cs ++ rest = text at hpiece
  cases cut_of_piece hpiece with
  | blank | lineComment | blockComment => cases hrole
  | word hc =>
    subst htext
    rw [piece_word hc, takeWhile_congr_of_endsAlike hword hrest hn]
  | numeral hc hnumeral =>
    subst htext
    have htake := takeWhile_congr_of_endsAlike hnumber hrest hn
    rw [piece_numeral hc (htake ▸ hnumeral), htake]
  | string hlength hvalue =>
    subst htext hn
    obtain ⟨body, behind, hbody, hsplit, hlen⟩ := exists_quotable_of_length? hlength
    have hcs : cs = body ++ ['"'] := by
      have htake := congrArg (List.take cs.length) hsplit
      rwa [List.take_left, hlen, ← List.singleton_append, ← List.append_assoc,
        List.take_left' (by simp)] at htake
    refine piece_string ?_ ?_
    · rw [hcs, List.append_assoc, List.singleton_append, hbody.length? rest']
      simp
    · rw [List.take_append_of_le_length (by omega)] at hvalue ⊢
      exact hvalue
  | operator hletter hdigit hquote hop =>
    cases hrole
    subst htext
    have hscanned := isScanned_operator c (cs ++ rest).head? _ hop
    have hcomment := not_opensComment_of_piece hpiece
    cases cs with
    | cons d ds => exact piece_operator hop hcomment
    | nil =>
      rcases hrest with hsame | hblank
      · rw [List.nil_append, ← hsame] at hop hcomment
        exact piece_operator hop hcomment
      · have hlength : 0 < value.length := by
          rw [← String.length_toList]
          exact List.length_pos_of_mem (List.mem_of_mem_head? hscanned.head)
        have hone := operator?_none c _ _ hop (by rw [List.length_nil] at hn; dsimp only; omega)
        rw [← operator?_of_isBlank hblank] at hone
        refine piece_operator hone ?_
        rintro ⟨-, hnext | hnext⟩
        · exact absurd (hblank '/' hnext) (by decide)
        · exact absurd (hblank '*' hnext) (by decide)

end Lexemes

section Runs

variable {file : String} {offset n : Nat} {pending : Bool} {c : Char} {cs : List Char}
  {tokens : List Token}

theorem Cut.length_le {kind : TokenKind} {value : String} (h : Cut c cs (.token kind value) n) :
    n ≤ cs.length := by
  cases h with
  | word | numeral => exact (List.takeWhile_prefix _).length_le
  | string hn =>
    obtain ⟨body, rest, -, rfl, rfl⟩ := exists_quotable_of_length? hn
    simp
  | operator _ _ _ hop =>
    have hscanned := isScanned_operator c cs.head? _ hop
    have hnext : cs.head?.toList.length ≤ cs.length := by cases cs <;> simp
    have htail : value.toList.tail.length ≤ cs.head?.toList.length := hscanned.tail.length_le
    rw [List.length_tail, String.length_toList] at htail
    omega

def closing (offset : Nat) (pending : Bool) : List Token :=
  (if pending then [Token.lineBreak offset] else []) ++ [Token.endOfInput (.ofNat offset)]

/-- The tokens of a text that starts at `offset`: those of its lexemes, with the semicolons of the gaps
around them. -/
inductive Scan : Nat → Bool → List Char → List Token → Prop where
  | last {offset : Nat} {pending : Bool} {gap : List Char} (hgap : Gap [] gap) :
      Scan offset pending gap
        (breaks offset pending gap ++ closing (offset + byteLength gap) (staysPending pending gap))
  | token {offset : Nat} {pending : Bool} {gap : List Char} {c : Char} {cs rest : List Char}
      {kind : TokenKind} {value : String} {tokens : List Token} (hgap : Gap (c :: (cs ++ rest)) gap)
      (hbegins : Begins c cs rest kind value)
      (h : Scan (offset + byteLength gap + byteLength (c :: cs)) kind.endsStatement rest tokens) :
      Scan offset pending (gap ++ c :: (cs ++ rest))
        (breaks offset pending gap ++
          .covering kind value (offset + byteLength gap) (c :: cs) :: tokens)

theorem Scan.gap (hcut : Cut c cs .gap n)
    (h : Scan (offset + byteLength (c :: cs.take n)) (staysPending pending (c :: cs.take n))
      (cs.drop n) tokens) :
    Scan offset pending (c :: cs) (breaks offset pending (c :: cs.take n) ++ tokens) := by
  have hsplit : c :: cs = c :: cs.take n ++ cs.drop n :=
    congrArg (c :: ·) (List.take_append_drop n cs).symm
  generalize hrest : cs.drop n = text at h
  rw [hsplit, hrest]
  cases h with
  | last hgap =>
    have hwhole : Gap [] (c :: cs.take n ++ text) :=
      hcut.gap (hrest.trans (List.append_nil text).symm) hgap
    have hscan : Scan offset pending _ _ := .last hwhole
    rwa [breaks_append, staysPending_append, byteLength_append, ← Nat.add_assoc, List.append_assoc]
      at hscan
  | @token _ _ gap d ds rest kind value tokens hgap hbegins h =>
    have hwhole : Gap (d :: (ds ++ rest)) (c :: cs.take n ++ gap) := hcut.gap hrest hgap
    rw [Nat.add_assoc offset, ← byteLength_append] at h ⊢
    have hscan : Scan offset pending _ _ := .token hwhole hbegins h
    rwa [breaks_append, List.append_assoc, List.append_assoc] at hscan

private theorem exists_of_map {α β : Type} {x : Except Error α} {f : α → β} {b : β} (h : x.map f = .ok b) :
    ∃ a, x = .ok a ∧ b = f a := by
  cases x with
  | error e => cases h
  | ok a => exact ⟨a, rfl, (Except.ok.inj h).symm⟩

theorem scan_of_tokensFrom (h : tokensFrom file offset pending cs = .ok tokens) :
    Scan offset pending cs tokens := by
  induction hlength : cs.length using Nat.strongRecOn generalizing offset pending cs tokens with
  | _ length ih =>
    cases cs with
    | nil =>
      rw [tokensFrom_nil] at h
      cases h
      have hscan : Scan offset pending [] _ := .last .nil
      simpa [closing] using hscan
    | cons c cs =>
      have hshorter : ∀ n, (cs.drop n).length < length := by
        intro n
        rw [← hlength, List.length_drop, List.length_cons]
        omega
      cases hpiece : piece c cs with
      | error cause =>
        rw [tokensFrom.eq_def] at h
        simp [hpiece] at h
      | ok found =>
        obtain ⟨role, n⟩ := found
        cases role with
        | gap =>
          rw [tokensFrom_of_gapPiece hpiece] at h
          obtain ⟨rest, hrest, rfl⟩ := exists_of_map h
          exact (ih _ (hshorter n) hrest rfl).gap (cut_of_piece hpiece)
        | token kind value =>
          rw [tokensFrom.eq_def] at h
          simp only [hpiece] at h
          obtain ⟨rest, hrest, rfl⟩ := exists_of_map h
          have hn := (cut_of_piece hpiece).length_le
          have hbegins : Begins c (cs.take n) (cs.drop n) kind value := by
            rw [Begins, List.take_append_drop, hpiece, List.length_take, Nat.min_eq_left hn]
          have hscan : Scan offset pending ([] ++ _) _ :=
            .token .nil hbegins (ih _ (hshorter n) hrest rfl)
          simpa using hscan

/-- The lexer yields the tokens of the lexemes and gaps that make up its text, and nothing else. -/
theorem tokensFrom_eq_ok_iff :
    tokensFrom file offset pending cs = .ok tokens ↔ Scan offset pending cs tokens := by
  refine ⟨scan_of_tokensFrom, ?_⟩
  intro h
  induction h with
  | @last offset pending gap hgap =>
    have hrun : tokensFrom file offset pending (gap ++ []) = _ := tokensFrom_gap hgap
    rw [List.append_nil, behindGap, tokensFrom_nil] at hrun
    exact hrun
  | @token offset pending gap c cs rest kind value tokens hgap hbegins h ih =>
    have hbehind : tokensFrom file
        (offset + byteLength gap + byteLength (c :: (cs ++ rest).take cs.length)) kind.endsStatement
          ((cs ++ rest).drop cs.length) = .ok tokens := by
      rwa [List.take_left, List.drop_left]
    have htoken : tokensFrom file (offset + byteLength gap) (staysPending pending gap)
        (c :: (cs ++ rest)) = _ := tokensFrom_token hbegins hbehind
    rw [List.take_left] at htoken
    rw [tokensFrom_gap hgap, behindGap, htoken]
    rfl

end Runs

end MiniGo.Lexer
