import MiniGo.Proofs.Token.Joined

/-!
Runs that stop in the middle of a text. What the lexer has read is cut into pieces, each of which is a piece
just as well when the text ends behind the last of them. So a lexical error points at the first piece that is
none, and the text in front of it has the tokens that were read by then.
-/
namespace MiniGo

open Text

namespace Lexer

section Runs

variable {file : String} {rest rest' text : List Char} {offset n : Nat} {pending last : Bool} {c : Char}
  {cs : List Char} {found : List Token}

def Skips (c : Char) (cs rest : List Char) : Prop := piece c (cs ++ rest) = .ok (.gap, cs.length)

/-- The lexer reads a text in front of `rest`, piece by piece, from `offset` and `pending` on. It has found
these tokens behind the last piece, and `last` says whether a line break stands for a semicolon there. -/
inductive Reads (rest : List Char) : Nat → Bool → List Char → List Token → Bool → Prop where
  | nil {offset : Nat} {pending : Bool} : Reads rest offset pending [] [] pending
  | gap {offset : Nat} {pending last : Bool} {c : Char} {cs text : List Char} {found : List Token}
      (hskips : Skips c cs (text ++ rest))
      (h : Reads rest (offset + byteLength (c :: cs)) (staysPending pending (c :: cs)) text found last) :
      Reads rest offset pending (c :: cs ++ text) (breaks offset pending (c :: cs) ++ found) last
  | token {offset : Nat} {pending last : Bool} {c : Char} {cs text : List Char} {found : List Token}
      {kind : TokenKind} {value : String} (hbegins : Begins c cs (text ++ rest) kind value)
      (h : Reads rest (offset + byteLength (c :: cs)) kind.endsStatement text found last) :
      Reads rest offset pending (c :: cs ++ text) (.covering kind value offset (c :: cs) :: found) last

theorem Reads.tokensFrom (h : Reads rest offset pending text found last) :
    tokensFrom file offset pending (text ++ rest) =
      (tokensFrom file (offset + byteLength text) last rest).map (found ++ ·) := by
  induction h with
  | nil => exact (map_nil_append _).symm
  | @gap offset pending last c cs text found hskips _ ih =>
    rw [List.append_assoc, List.cons_append, tokensFrom_of_gapPiece hskips, List.take_left,
      List.drop_left, behindGap, ih, byteLength_append, ← Nat.add_assoc, map_map]
    congr 1
    funext tokens
    exact (List.append_assoc ..).symm
  | @token offset pending last c cs text found kind value hbegins _ ih =>
    rw [List.append_assoc, List.cons_append, tokensFrom_of_tokenPiece hbegins, List.take_left,
      List.drop_left, ih, byteLength_append, ← Nat.add_assoc, map_map]
    rfl

theorem Reads.append {text' : List Char} {found' : List Token} {middle : Bool}
    (h : Reads (text' ++ rest) offset pending text found middle)
    (h' : Reads rest (offset + byteLength text) middle text' found' last) :
    Reads rest offset pending (text ++ text') (found ++ found') last := by
  induction h with
  | nil => exact h'
  | @gap offset pending _ c cs text found hskips _ ih =>
    rw [← List.append_assoc] at hskips
    rw [byteLength_append, ← Nat.add_assoc] at h'
    rw [List.append_assoc, List.append_assoc]
    exact .gap hskips (ih h')
  | @token offset pending _ c cs text found kind value hbegins _ ih =>
    rw [← List.append_assoc] at hbegins
    rw [byteLength_append, ← Nat.add_assoc] at h'
    rw [List.append_assoc]
    exact .token hbegins (ih h')

private theorem eq_error_of_map {α β : Type} {x : Except Error α} {f : α → β} {e : Error}
    (h : x.map f = .error e) : x = .error e := by
  cases x with
  | error e => exact congrArg Except.error (Except.error.inj h)
  | ok a => cases h

private theorem length_le_of_commentLength? (h : commentLength? cs = some n) : n ≤ cs.length := by
  obtain ⟨body, rest, rfl, rfl, -⟩ := commentLength?_eq_some h
  simp

private theorem length_le_of_piece {role : Role} (h : piece c cs = .ok (role, n)) : n ≤ cs.length := by
  cases cut_of_piece h with
  | blank | lineComment => exact (List.takeWhile_prefix _).length_le
  | blockComment hn => exact Nat.succ_le_succ (length_le_of_commentLength? hn)
  | word hletter => exact (Cut.word hletter).length_le
  | numeral hdigit hn => exact (Cut.numeral hdigit hn).length_le
  | string hn hvalue => exact (Cut.string hn hvalue).length_le
  | operator hletter hdigit hquote hop => exact (Cut.operator hletter hdigit hquote hop).length_le

/-- A lexical error is that of the first piece that is neither a token nor part of a gap. -/
theorem reads_of_error {e : Error} (h : Lexer.tokensFrom file offset pending text = .error e) :
    ∃ read c behind found last, text = read ++ c :: behind ∧
      Reads (c :: behind) offset pending read found last ∧
      piece c behind = .error e.cause ∧ e.position = ⟨.ofNat (offset + byteLength read), file⟩ := by
  induction hlength : text.length using Nat.strongRecOn generalizing offset pending text with
  | _ length ih =>
    cases text with
    | nil =>
      rw [tokensFrom_nil] at h
      cases h
    | cons c cs =>
      have hshorter : ∀ n, (cs.drop n).length < length := by
        intro n
        rw [← hlength, List.length_drop, List.length_cons]
        omega
      cases hpiece : piece c cs with
      | error cause =>
        rw [tokensFrom_of_errorPiece hpiece] at h
        cases h
        exact ⟨[], c, cs, [], pending, rfl, .nil, hpiece, rfl⟩
      | ok result =>
        obtain ⟨role, n⟩ := result
        have htake : (cs.take n).length = n := List.length_take_of_le (length_le_of_piece hpiece)
        have hsplit : ∀ {read behind : List Char} {d : Char}, cs.drop n = read ++ d :: behind →
            cs = cs.take n ++ (read ++ d :: behind) := fun h => by rw [← h, List.take_append_drop]
        cases role with
        | gap =>
          rw [tokensFrom_of_gapPiece hpiece] at h
          obtain ⟨read, d, behind, found, last, hrest, hreads, hbad, hposition⟩ :=
            ih _ (hshorter n) (eq_error_of_map h) rfl
          have hskips : Skips c (cs.take n) (read ++ d :: behind) := by
            rw [Skips, ← hsplit hrest, htake, hpiece]
          refine ⟨c :: cs.take n ++ read, d, behind, _, last, ?_, .gap hskips hreads, hbad, ?_⟩
          · rw [List.append_assoc, List.cons_append, ← hsplit hrest]
          · rw [hposition, byteLength_append, Nat.add_assoc]
        | token kind value =>
          rw [tokensFrom_of_tokenPiece hpiece] at h
          obtain ⟨read, d, behind, found, last, hrest, hreads, hbad, hposition⟩ :=
            ih _ (hshorter n) (eq_error_of_map h) rfl
          have hbegins : Begins c (cs.take n) (read ++ d :: behind) kind value := by
            rw [Begins, ← hsplit hrest, htake, hpiece]
          refine ⟨c :: cs.take n ++ read, d, behind, _, last, ?_, .token hbegins hreads, hbad, ?_⟩
          · rw [List.append_assoc, List.cons_append, ← hsplit hrest]
          · rw [hposition, byteLength_append, Nat.add_assoc]

private theorem takeWhile_of_cut {p : Char → Bool} (hrest : ∀ d ∈ rest'.head?, d ∈ rest.head?)
    (h : cs.length = ((cs ++ rest).takeWhile p).length) : (cs ++ rest').takeWhile p = cs := by
  obtain ⟨hcs, hends⟩ := ends_of_length_takeWhile h
  exact takeWhile_append_of_ends hcs fun d hd => hends d (hrest d hd)

theorem Skips.congr (h : Skips c cs rest) (hrest : ∀ d ∈ rest'.head?, d ∈ rest.head?) :
    Skips c cs rest' := by
  have hpiece : piece c (cs ++ rest) = _ := h
  unfold Skips
  generalize hn : cs.length = n at hpiece ⊢
  generalize hrole : Role.gap = role at hpiece ⊢
  generalize htext : cs ++ rest = text at hpiece
  cases cut_of_piece hpiece with
  | word | numeral | string | operator => cases hrole
  | blank hc =>
    subst htext
    rw [piece_blank hc, takeWhile_of_cut hrest hn, hn]
  | @lineComment ds =>
    cases cs with
    | nil => cases hn
    | cons d cs =>
      obtain ⟨rfl, rfl⟩ := List.cons.inj htext
      rw [← hn]
      exact congrArg (fun run => Except.ok (Role.gap, run.length)) (takeWhile_of_cut hrest hn)
  | @blockComment ds m hm =>
    obtain ⟨body, behind, rfl, rfl, hbody⟩ := commentLength?_eq_some hm
    have hcs : cs = '*' :: (body ++ ['*', '/']) := by
      have hsplit : cs ++ rest = '*' :: (body ++ ['*', '/']) ++ behind := by simp [htext]
      exact (List.append_inj hsplit (by simp [hn])).1
    rw [hcs, List.cons_append, List.append_assoc]
    exact (piece_blockComment hbody).trans (by simp)

theorem Begins.cut {kind : TokenKind} {value : String} (h : Begins c cs rest kind value)
    (hrest : ∀ d ∈ rest'.head?, d ∈ rest.head?) : Begins c cs rest' kind value := by
  refine h.congr ?_
  cases rest' with
  | nil => exact .inr nofun
  | cons d ds => exact .inl (hrest d rfl).symm

/-- What was read is read the same with nothing behind it. -/
theorem Reads.cut (h : Reads rest offset pending text found last) :
    Reads [] offset pending text found last := by
  have hhead : ∀ text : List Char, ∀ d ∈ (text ++ []).head?, d ∈ (text ++ rest).head? := by
    intro text d hd
    cases text with
    | nil => cases hd
    | cons c cs => exact hd
  induction h with
  | nil => exact .nil
  | gap hskips _ ih => exact .gap (hskips.congr (hhead _)) ih
  | token hbegins _ ih => exact .token (hbegins.cut (hhead _)) ih

end Runs

end Lexer

/-- A lexical error points at the first bad piece. Its offset is that of a character of the source, and the
text in front of it is read piece by piece up to there. That text alone has the tokens that were found by then,
with the same kinds, values and spans, and no other written ones. -/
theorem tokenize_before_error {source file : String} {e : Error} (h : tokenize source file = .error e)
    (hsize : byteLength source.toList < UInt32.size) :
    let place := e.position.offset.toNat
    let before := takeBytes place source.toList
    let after := dropBytes place source.toList
    place < byteLength source.toList ∧ IsBoundary place source.toList ∧
      (∃ c cs, after = c :: cs ∧ Lexer.piece c cs = .error e.cause) ∧
      (∃ found pending, Lexer.Reads after 0 false before found pending) ∧
      ∀ found pending, Lexer.Reads after 0 false before found pending →
        ∃ implied, tokenize (String.ofList before) file = .ok (found ++ implied) ∧
          ∀ t ∈ implied, ¬ t.IsWritten := by
  intro place before after
  obtain ⟨read, c, behind, found, last, hsource, hreads, hbad, hposition⟩ := Lexer.reads_of_error h
  have hlength : byteLength source.toList = byteLength read + byteLength (c :: behind) := by
    rw [hsource, byteLength_append]
  have hplace : place = byteLength read := by
    simp only [place, hposition, Nat.zero_add]
    exact Lexer.toNat_ofNat_of_le (by omega) hsize
  have hbefore : before = read := by
    simp only [before, hplace, hsource, takeBytes_append]
  have hafter : after = c :: behind := by
    simp only [after, hplace, hsource, dropBytes_append]
  refine ⟨?_, ⟨read, c :: behind, hsource, hplace.symm⟩, ⟨c, behind, hafter, hbad⟩,
    ⟨found, last, hbefore ▸ hafter ▸ hreads⟩, ?_⟩
  · have := byteLength_pos (List.cons_ne_nil c behind)
    omega
  · intro found pending hreads
    have hrun : Lexer.tokensFrom file 0 false (before ++ []) = _ := hreads.cut.tokensFrom
    rw [List.append_nil, Lexer.tokensFrom_nil] at hrun
    refine ⟨Lexer.closing (0 + byteLength before) pending, ?_, Lexer.not_isWritten_closing _ _⟩
    rw [tokenize, String.toList_ofList, hrun]
    rfl

theorem tokenize_before_error_secondLine :
    let source := String.ofList ['x', '\n', '#']
    let e : Error := ⟨.unrecognisedToken "#", ⟨2, "shell"⟩⟩
    let found := [⟨.identifier, "x", 0, 1⟩, Token.lineBreak 1]
    tokenize source "shell" = .error e ∧ byteLength source.toList < UInt32.size ∧
      Lexer.Reads ['#'] 0 false ['x', '\n'] found false ∧
      ∃ implied, tokenize (String.ofList ['x', '\n']) "shell" = .ok (found ++ implied) ∧
        ∀ t ∈ implied, ¬ t.IsWritten := by
  intro source e found
  have htext : source.toList = ['x', '\n'] ++ ['#'] := String.toList_ofList
  have hname : Lexer.Begins 'x' [] ['\n', '#'] .identifier "x" := rfl
  have hbreak : Lexer.Skips '\n' [] ['#'] := rfl
  have hreads : Lexer.Reads ['#'] 0 false ['x', '\n'] found false := .token hname (.gap hbreak .nil)
  have herror : tokenize source "shell" = .error e := by
    rw [tokenize, htext, hreads.tokensFrom, Lexer.tokensFrom_of_errorPiece rfl]
    rfl
  have hsize : byteLength source.toList < UInt32.size := by
    rw [htext]
    decide
  obtain ⟨-, -, -, -, hbefore⟩ := tokenize_before_error herror hsize
  have hplace : e.position.offset.toNat = byteLength ['x', '\n'] := by decide
  rw [hplace, htext, takeBytes_append, dropBytes_append] at hbefore
  exact ⟨herror, hsize, hreads, hbefore found false hreads⟩

end MiniGo
