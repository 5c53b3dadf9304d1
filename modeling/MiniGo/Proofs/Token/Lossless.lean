import MiniGo.Proofs.Token.Scan

/-!
Nothing of a source is lost between its tokens: the lexemes and the gaps, in order, are the source, and
every token covers the longest lexeme at its place. Offsets are kept in 32 bits, so spans tell where the
lexemes of a source are as long as it is shorter than that.
-/
namespace MiniGo

namespace Text

def dropBytes : Nat → List Char → List Char
  | _, [] => []
  | n, c :: cs => if n = 0 then c :: cs else dropBytes (n - c.utf8Size) cs

def takeBytes : Nat → List Char → List Char
  | _, [] => []
  | n, c :: cs => if n = 0 then [] else c :: takeBytes (n - c.utf8Size) cs

/-- The text between two byte offsets. -/
def slice (start stop : Nat) (cs : List Char) : List Char :=
  takeBytes (stop - start) (dropBytes start cs)

/-- The offset does not lie inside a character. -/
def IsBoundary (offset : Nat) (cs : List Char) : Prop :=
  ∃ before after, cs = before ++ after ∧ byteLength before = offset

@[simp] theorem utf8Size_ne_zero (c : Char) : c.utf8Size ≠ 0 := Nat.pos_iff_ne_zero.1 c.utf8Size_pos

@[simp] theorem dropBytes_zero (cs : List Char) : dropBytes 0 cs = cs := by
  cases cs <;> rfl

@[simp] theorem takeBytes_zero (cs : List Char) : takeBytes 0 cs = [] := by
  cases cs <;> rfl

@[simp] theorem dropBytes_append (before after : List Char) :
    dropBytes (byteLength before) (before ++ after) = after := by
  induction before with
  | nil => exact dropBytes_zero after
  | cons c before ih => simp [dropBytes, ih]

@[simp] theorem takeBytes_append (before after : List Char) :
    takeBytes (byteLength before) (before ++ after) = before := by
  induction before with
  | nil => exact takeBytes_zero after
  | cons c before ih => simp [takeBytes, ih]

theorem slice_append (before middle after : List Char) :
    slice (byteLength before) (byteLength before + byteLength middle) (before ++ (middle ++ after)) =
      middle := by
  rw [slice, dropBytes_append, Nat.add_sub_cancel_left, takeBytes_append]

theorem byteLength_pos {cs : List Char} (h : cs ≠ []) : 0 < byteLength cs := by
  cases cs with
  | nil => exact absurd rfl h
  | cons c cs =>
    rw [byteLength_cons]
    have := c.utf8Size_pos
    omega

end Text

open Text

/-- The token was written in the source: it is neither the end of the input nor the semicolon that a
line break stands for. -/
def Token.IsWritten (t : Token) : Prop := Lexer.IsWritten t.kind t.value

instance (t : Token) : Decidable t.IsWritten :=
  inferInstanceAs (Decidable (Lexer.IsWritten t.kind t.value))

/-- The span of a token holds the longest lexeme at its place, and that lexeme gives its value. -/
structure Token.Covers (source : List Char) (t : Token) : Prop where
  nonempty : t.start < t.stop
  startBoundary : IsBoundary t.start.toNat source
  stopBoundary : IsBoundary t.stop.toNat source
  longest : Lexer.IsLongest (slice t.start.toNat t.stop.toNat source) (dropBytes t.start.toNat source)
  value : t.kind ≠ .string → t.value.toList = slice t.start.toNat t.stop.toNat source
  quoted : t.kind = .string → ∃ body, slice t.start.toNat t.stop.toNat source = '"' :: (body ++ ['"'])

namespace Lexer

/-- A gap at `offset` and the longest lexeme behind it, from which `t` is read, in front of `rest`. -/
structure Stands (t : Token) (offset : Nat) (gap lexeme rest : List Char) : Prop where
  isGap : Gap (lexeme ++ rest) gap
  longest : IsLongest lexeme (lexeme ++ rest)
  noComment : ¬ ['/', '/'] <+: lexeme ++ rest ∧ ¬ ['/', '*'] <+: lexeme ++ rest
  reading : IsReading lexeme t.kind t.value
  start : t.start = .ofNat (offset + byteLength gap)
  stop : t.stop = .ofNat (offset + byteLength gap + byteLength lexeme)

/-- The text, which starts at `offset`, is cut into the lexemes of the tokens and the gaps around them. -/
inductive Lays : Nat → List Char → List Token → List (List Char) → List (List Char) → Prop where
  | nil {offset : Nat} {gap : List Char} (hgap : Gap [] gap) : Lays offset gap [] [gap] []
  | cons {offset : Nat} {gap lexeme rest : List Char} {t : Token} {ts : List Token}
      {gaps lexemes : List (List Char)} (ht : Stands t offset gap lexeme rest)
      (h : Lays (offset + byteLength gap + byteLength lexeme) rest ts gaps lexemes) :
      Lays offset (gap ++ (lexeme ++ rest)) (t :: ts) (gap :: gaps) (lexeme :: lexemes)

/-- The end of the input, at `offset`, comes last, and nowhere else. -/
def EndsAt (offset : Nat) (tokens : List Token) : Prop :=
  ∃ init, tokens = init ++ [Token.endOfInput (.ofNat offset)] ∧ ∀ t ∈ init, t.kind ≠ .eof

section Run

variable {file : String} {offset : Nat} {pending : Bool} {text gap cs rest : List Char} {c : Char}
  {kind : TokenKind} {value : String} {tokens : List Token}

@[simp] theorem not_isWritten_lineBreak (offset : Nat) : ¬ (Token.lineBreak offset).IsWritten :=
  fun h => h.2 ⟨rfl, rfl⟩

@[simp] theorem not_isWritten_endOfInput (offset : Offset) : ¬ (Token.endOfInput offset).IsWritten :=
  fun h => h.1 rfl

private theorem breaks_eq (offset : Nat) (pending : Bool) (gap : List Char) :
    breaks offset pending gap = [] ∨ ∃ place, breaks offset pending gap = [Token.lineBreak place] := by
  unfold breaks
  split
  · exact .inr ⟨_, rfl⟩
  · exact .inl rfl

@[simp] theorem not_isWritten_breaks (offset : Nat) (pending : Bool) (gap : List Char) :
    ∀ u ∈ breaks offset pending gap, ¬ u.IsWritten := by
  rcases breaks_eq offset pending gap with h | ⟨place, h⟩
  · simp [h]
  · simp [h]

theorem not_isWritten_closing (offset : Nat) (pending : Bool) :
    ∀ u ∈ closing offset pending, ¬ u.IsWritten := by
  cases pending <;> simp [closing]

@[simp] theorem filter_isWritten_breaks (offset : Nat) (pending : Bool) (gap : List Char) (ts : List Token) :
    (breaks offset pending gap ++ ts).filter (fun t => t.IsWritten) =
      ts.filter fun t => t.IsWritten := by
  rw [List.filter_append, List.filter_eq_nil_iff.2, List.nil_append]
  simpa using not_isWritten_breaks offset pending gap

theorem Begins.isWritten (h : Begins c cs rest kind value) : IsWritten kind value :=
  (cut_of_piece h).token.2.written

theorem Begins.stands (hgap : Gap (c :: (cs ++ rest)) gap) (h : Begins c cs rest kind value)
    (offset : Nat) :
    Stands (.covering kind value (offset + byteLength gap) (c :: cs)) offset gap (c :: cs) rest := by
  obtain ⟨hlongest, hreading⟩ := (cut_of_piece h).token
  rw [List.take_left] at hlongest hreading
  have hnext : ∀ d, ['/', d] <+: c :: (cs ++ rest) → c = '/' ∧ (cs ++ rest).head? = some d := by
    rintro d ⟨after, hafter⟩
    obtain ⟨hc, htail⟩ := List.cons.inj hafter
    exact ⟨hc.symm, congrArg List.head? htail.symm⟩
  have hcomment := not_opensComment_of_piece h
  refine ⟨hgap, hlongest, ⟨fun hline => ?_, fun hblock => ?_⟩, hreading, rfl, rfl⟩
  · exact hcomment ⟨(hnext _ hline).1, .inl (hnext _ hline).2⟩
  · exact hcomment ⟨(hnext _ hblock).1, .inr (hnext _ hblock).2⟩

theorem written_last (offset : Nat) (pending : Bool) (gap : List Char) :
    (breaks offset pending gap ++ closing (offset + byteLength gap) (staysPending pending gap)).filter
      (fun t => t.IsWritten) = [] := by
  rw [filter_isWritten_breaks, List.filter_eq_nil_iff]
  simpa using not_isWritten_closing _ _

theorem Begins.written_token (h : Begins c cs rest kind value) (offset : Nat) (pending : Bool)
    (gap : List Char) (tokens : List Token) :
    (breaks offset pending gap ++ .covering kind value (offset + byteLength gap) (c :: cs) :: tokens).filter
        (fun t => t.IsWritten) =
      .covering kind value (offset + byteLength gap) (c :: cs) :: tokens.filter fun t => t.IsWritten := by
  rw [filter_isWritten_breaks, List.filter_cons_of_pos (by exact decide_eq_true h.isWritten)]

theorem Scan.lays (h : Scan offset pending text tokens) :
    ∃ gaps lexemes, Lays offset text (tokens.filter fun t => t.IsWritten) gaps lexemes := by
  induction h with
  | @last offset pending gap hgap =>
    rw [written_last]
    exact ⟨[gap], [], .nil hgap⟩
  | @token offset pending gap c cs rest kind value tokens hgap hbegins _ ih =>
    obtain ⟨gaps, lexemes, hrest⟩ := ih
    rw [hbegins.written_token]
    exact ⟨gap :: gaps, (c :: cs) :: lexemes, .cons (hbegins.stands hgap offset) hrest⟩

theorem Scan.endsAt (h : Scan offset pending text tokens) : EndsAt (offset + byteLength text) tokens := by
  have hbreaks : ∀ offset pending gap, ∀ t ∈ breaks offset pending gap, t.kind ≠ .eof := by
    intro offset pending gap
    rcases breaks_eq offset pending gap with h | ⟨place, h⟩
    · simp [h]
    · simp [h, Token.lineBreak]
  induction h with
  | @last offset pending gap _ =>
    refine ⟨breaks offset pending gap ++ if staysPending pending gap then
      [Token.lineBreak (offset + byteLength gap)] else [], (List.append_assoc ..).symm, ?_⟩
    refine List.forall_mem_append.2 ⟨hbreaks _ _ _, ?_⟩
    split
    · exact List.forall_mem_singleton.2 nofun
    · exact List.forall_mem_nil _
  | @token offset pending gap c cs rest kind value tokens _ hbegins _ ih =>
    obtain ⟨init, rfl, hinit⟩ := ih
    have hlength : offset + byteLength gap + byteLength (c :: cs) + byteLength rest =
        offset + byteLength (gap ++ c :: (cs ++ rest)) := by
      rw [← List.cons_append, byteLength_append, byteLength_append, Nat.add_assoc, Nat.add_assoc]
    rw [← hlength]
    refine ⟨_, (List.append_assoc _ (_ :: init) _).symm, ?_⟩
    exact List.forall_mem_append.2 ⟨hbreaks _ _ _, List.forall_mem_cons.2 ⟨hbegins.isWritten.1, hinit⟩⟩

end Run

section Source

variable {source text gap lexeme rest : List Char} {t : Token} {ts : List Token}
  {gaps lexemes : List (List Char)}

theorem toNat_ofNat_of_le {n m : Nat} (h : n ≤ m) (hm : m < UInt32.size) : (UInt32.ofNat n).toNat = n :=
  UInt32.toNat_ofNat_of_lt' (Nat.lt_of_le_of_lt h hm)

/-- In a short source the span of a token is where its lexeme is. -/
theorem Stands.span (before : List Char) (h : Stands t (byteLength before) gap lexeme rest)
    (hsource : source = before ++ (gap ++ (lexeme ++ rest))) (hsize : byteLength source < UInt32.size) :
    t.start.toNat = byteLength (before ++ gap) ∧ t.stop.toNat = byteLength (before ++ gap ++ lexeme) := by
  have hlength : byteLength source = byteLength (before ++ gap ++ lexeme) + byteLength rest := by
    rw [hsource, ← byteLength_append]
    simp
  have hle : byteLength (before ++ gap ++ lexeme) ≤ byteLength source := by omega
  rw [h.start, h.stop, ← byteLength_append, ← byteLength_append]
  refine ⟨toNat_ofNat_of_le (Nat.le_trans ?_ hle) hsize, toNat_ofNat_of_le hle hsize⟩
  rw [byteLength_append (before ++ gap)]
  exact Nat.le_add_right _ _

theorem Stands.slice_lexeme (before : List Char) (h : Stands t (byteLength before) gap lexeme rest)
    (hsource : source = before ++ (gap ++ (lexeme ++ rest))) (hsize : byteLength source < UInt32.size) :
    slice t.start.toNat t.stop.toNat source = lexeme := by
  obtain ⟨hstart, hstop⟩ := h.span before hsource hsize
  have hsplit : source = before ++ gap ++ (lexeme ++ rest) := by simp [hsource]
  rw [hstart, hstop, byteLength_append (before ++ gap), hsplit, slice_append]

theorem Stands.slice_gap (before : List Char) (h : Stands t (byteLength before) gap lexeme rest)
    (hsource : source = before ++ (gap ++ (lexeme ++ rest))) (hsize : byteLength source < UInt32.size) :
    slice (byteLength before) t.start.toNat source = gap := by
  rw [(h.span before hsource hsize).1, hsource, byteLength_append, slice_append]

theorem Stands.dropBytes_start (before : List Char) (h : Stands t (byteLength before) gap lexeme rest)
    (hsource : source = before ++ (gap ++ (lexeme ++ rest))) (hsize : byteLength source < UInt32.size) :
    dropBytes t.start.toNat source = lexeme ++ rest := by
  rw [(h.span before hsource hsize).1, hsource, ← List.append_assoc, dropBytes_append]

theorem Stands.covers (before : List Char) (h : Stands t (byteLength before) gap lexeme rest)
    (hsource : source = before ++ (gap ++ (lexeme ++ rest))) (hsize : byteLength source < UInt32.size) :
    t.Covers source := by
  obtain ⟨hstart, hstop⟩ := h.span before hsource hsize
  have hslice := h.slice_lexeme before hsource hsize
  have hpos := byteLength_pos h.longest.isLexeme.ne_nil
  refine ⟨?_, ?_, ?_, ?_, ?_, ?_⟩
  · rw [UInt32.lt_iff_toNat_lt, hstart, hstop, byteLength_append (before ++ gap)]
    omega
  · exact ⟨before ++ gap, lexeme ++ rest, by simp [hsource], hstart.symm⟩
  · exact ⟨before ++ gap ++ lexeme, rest, by simp [hsource], hstop.symm⟩
  · rw [h.dropBytes_start before hsource hsize, hslice]
    exact h.longest
  · rw [hslice]
    exact h.reading.value
  · rw [hslice]
    intro hstring
    obtain ⟨body, -, hbody⟩ := h.reading.quoted hstring
    exact ⟨body, hbody⟩

/-- Along a source the texts that are still to be cut start behind the tokens before them. -/
@[elab_as_elim]
theorem Lays.along
    {motive : List Char → List Token → List (List Char) → List (List Char) → Prop} {before : List Char}
    (h : Lays (byteLength before) text ts gaps lexemes) (hsource : source = before ++ text)
    (last : ∀ before gap, source = before ++ gap → Gap [] gap → motive before [] [gap] [])
    (token : ∀ before gap lexeme rest t ts gaps lexemes, source = before ++ (gap ++ (lexeme ++ rest)) →
      Stands t (byteLength before) gap lexeme rest → motive (before ++ gap ++ lexeme) ts gaps lexemes →
      motive before (t :: ts) (gap :: gaps) (lexeme :: lexemes)) : motive before ts gaps lexemes := by
  generalize hoffset : byteLength before = offset at h
  induction h generalizing before with
  | nil hgap => exact last _ _ hsource hgap
  | @cons offset gap lexeme rest t ts gaps lexemes ht _ ih =>
    subst hoffset
    refine token before gap lexeme rest t ts gaps lexemes hsource ht (ih ?_ ?_)
    · simp [hsource]
    · rw [byteLength_append, byteLength_append]

theorem Lays.covers (before : List Char) (h : Lays (byteLength before) text ts gaps lexemes)
    (hsource : source = before ++ text) (hsize : byteLength source < UInt32.size) :
    (∀ u ∈ ts, byteLength before ≤ u.start.toNat) ∧ (∀ u ∈ ts, u.Covers source) ∧
      ts.Pairwise fun a b => a.stop ≤ b.start := by
  refine h.along hsource (fun _ _ _ _ => ⟨nofun, nofun, .nil⟩) ?_
  rintro before gap lexeme rest t ts _ _ hsource ht ⟨hbehind, hcovers, hpairwise⟩
  obtain ⟨hstart, hstop⟩ := ht.span before hsource hsize
  have hcover := ht.covers before hsource hsize
  have hle : byteLength before ≤ t.start.toNat := by
    rw [hstart, byteLength_append]
    exact Nat.le_add_right _ _
  rw [← hstop] at hbehind
  refine ⟨List.forall_mem_cons.2 ⟨hle, fun u hu => ?_⟩, List.forall_mem_cons.2 ⟨hcover, hcovers⟩,
    .cons (fun u hu => UInt32.le_iff_toNat_le.2 (hbehind u hu)) hpairwise⟩
  have hspan := UInt32.lt_iff_toNat_lt.1 hcover.nonempty
  exact Nat.le_trans (Nat.le_trans hle (Nat.le_of_lt hspan)) (hbehind u hu)

/-- The spans between the tokens of a text that starts at `offset` and ends at `stop`. -/
def spansBetween (offset : Nat) (ts : List Token) (stop : Nat) : List (Nat × Nat) :=
  (offset :: ts.map (·.stop.toNat)).zip (ts.map (·.start.toNat) ++ [stop])

/-- Behind the last token the text up to the end of the source is a slice of it. -/
theorem slice_last {before : List Char} (hsource : source = before ++ gap) :
    slice (byteLength before) (byteLength source) source = gap := by
  have hslice := slice_append before gap []
  rwa [List.append_nil, ← byteLength_append, ← hsource] at hslice

/-- In a short source the gaps are what lies between the spans, and the lexemes what lies in them. -/
theorem Lays.slices (before : List Char) (h : Lays (byteLength before) text ts gaps lexemes)
    (hsource : source = before ++ text) (hsize : byteLength source < UInt32.size) :
    gaps = (spansBetween (byteLength before) ts (byteLength source)).map (fun p => slice p.1 p.2 source) ∧
      lexemes = ts.map fun t => slice t.start.toNat t.stop.toNat source := by
  refine h.along hsource (fun _ _ hsource _ => ⟨congrArg (· :: []) (slice_last hsource).symm, rfl⟩) ?_
  rintro before gap lexeme rest t ts gaps lexemes hsource ht ⟨hgaps, hlexemes⟩
  rw [← (ht.span before hsource hsize).2] at hgaps
  constructor
  · rw [hgaps]
    exact congrArg (· :: _) (ht.slice_gap before hsource hsize).symm
  · rw [hlexemes]
    exact congrArg (· :: _) (ht.slice_lexeme before hsource hsize).symm

theorem Lays.isGap (before : List Char) (h : Lays (byteLength before) text ts gaps lexemes)
    (hsource : source = before ++ text) (hsize : byteLength source < UInt32.size) :
    ∀ p ∈ spansBetween (byteLength before) ts (byteLength source),
      Gap (dropBytes p.2 source) (slice p.1 p.2 source) := by
  refine h.along hsource (fun before gap hsource hgap => ?_) ?_
  · have hdrop := dropBytes_append source []
    rw [List.append_nil] at hdrop
    refine List.forall_mem_cons.2 ⟨?_, nofun⟩
    rwa [hdrop, slice_last hsource]
  · rintro before gap lexeme rest t ts _ _ hsource ht hbehind
    rw [← (ht.span before hsource hsize).2] at hbehind
    refine List.forall_mem_cons.2 ⟨?_, hbehind⟩
    rw [ht.dropBytes_start before hsource hsize, ht.slice_gap before hsource hsize]
    exact ht.isGap

end Source

end Lexer

/-- The lexer loses nothing and takes the longest lexeme everywhere. The written tokens cover
non-empty, disjoint, increasing spans of whole characters, each the longest lexeme at its place; what
lies between them, in front of the first and behind the last is white space and comments; and the end
of the input is the last token and no other. -/
theorem tokenize_lossless {source file : String} {tokens : List Token}
    (h : tokenize source file = .ok tokens) (hsize : byteLength source.toList < UInt32.size) :
    let text := source.toList
    let written := tokens.filter fun t => t.IsWritten
    (∀ t ∈ written, t.Covers text) ∧
      written.Pairwise (fun a b => a.stop ≤ b.start) ∧
      (∀ p ∈ Lexer.spansBetween 0 written (byteLength text),
        Lexer.Gap (dropBytes p.2 text) (slice p.1 p.2 text)) ∧
      ∃ init, tokens = init ++ [Token.endOfInput (.ofNat (byteLength text))] ∧
        ∀ t ∈ init, t.kind ≠ .eof := by
  have hscan := Lexer.scan_of_tokensFrom h
  obtain ⟨gaps, lexemes, hlays⟩ := hscan.lays
  have hends := hscan.endsAt
  rw [Nat.zero_add] at hends
  obtain ⟨-, hcovers, hpairwise⟩ := hlays.covers [] rfl hsize
  exact ⟨hcovers, hpairwise, hlays.isGap [] rfl hsize, hends⟩

theorem tokenize_lossless_lessEqual :
    tokenize "x<=-1" "shell" = .ok [⟨.identifier, "x", 0, 1⟩, ⟨.lessEqual, "<=", 1, 3⟩,
        ⟨.dash, "-", 3, 4⟩, ⟨.number, "1", 4, 5⟩, Token.lineBreak 5, Token.endOfInput 5] ∧
      byteLength "x<=-1".toList < UInt32.size ∧ Lexer.IsLongest ['<', '='] ['<', '=', '-', '1'] := by
  have hone : Lexer.tokensFrom "shell" 4 false ['1'] =
      .ok [⟨.number, "1", 4, 5⟩, Token.lineBreak 5, Token.endOfInput 5] :=
    Lexer.tokensFrom_token (n := 0) rfl (Lexer.tokensFrom_nil "shell" 5 true)
  have hdash : Lexer.tokensFrom "shell" 3 false ['-', '1'] =
      .ok [⟨.dash, "-", 3, 4⟩, ⟨.number, "1", 4, 5⟩, Token.lineBreak 5, Token.endOfInput 5] :=
    Lexer.tokensFrom_token (n := 0) rfl hone
  have hless : Lexer.tokensFrom "shell" 1 true ['<', '=', '-', '1'] =
      .ok [⟨.lessEqual, "<=", 1, 3⟩, ⟨.dash, "-", 3, 4⟩, ⟨.number, "1", 4, 5⟩, Token.lineBreak 5,
        Token.endOfInput 5] := Lexer.tokensFrom_token (n := 1) rfl hdash
  have htokens : tokenize "x<=-1" "shell" = _ := Lexer.tokensFrom_token (n := 0) rfl hless
  have hsize : byteLength "x<=-1".toList < UInt32.size := by decide
  exact ⟨htokens, hsize,
    ((tokenize_lossless htokens hsize).1 ⟨.lessEqual, "<=", 1, 3⟩ (by decide)).longest⟩

end MiniGo
