import MiniGo.Proofs.Token.Semicolons

/-!
A line break is a clean cut. On a text with a line break behind it the lexer yields the tokens of the text,
without the end of the input, and goes on as it would at the start of a source: nothing but the offset
reaches over the cut.
-/
namespace MiniGo

open Text

/-- The token, with `n` more bytes in front of its text. -/
def Token.shift (n : Nat) (t : Token) : Token := ⟨t.kind, t.value, t.start + .ofNat n, t.stop + .ofNat n⟩

def Error.shift (n : Nat) (e : Error) : Error :=
  ⟨e.cause, e.position.offset + .ofNat n, e.position.file⟩

namespace Lexer

section Shift

variable {file : String} {offset n : Nat} {pending : Bool} {c : Char} {cs : List Char}

def shifted (n : Nat) (result : Except Error (List Token)) : Except Error (List Token) :=
  (result.map (List.map (Token.shift n))).mapError (Error.shift n)

private theorem shifted_map (n : Nat) (front : List Token) (result : Except Error (List Token)) :
    shifted n (result.map (front ++ ·)) = (shifted n result).map (front.map (Token.shift n) ++ ·) := by
  cases result with
  | error e => rfl
  | ok tokens => exact congrArg Except.ok List.map_append

@[simp] theorem shift_lineBreak (n offset : Nat) :
    (Token.lineBreak offset).shift n = Token.lineBreak (offset + n) := by
  simp only [Token.shift, Token.lineBreak, ← UInt32.ofNat_add, Nat.add_right_comm]

@[simp] theorem shift_endOfInput (n offset : Nat) :
    (Token.endOfInput (.ofNat offset)).shift n = Token.endOfInput (.ofNat (offset + n)) := by
  simp only [Token.shift, Token.endOfInput, UInt32.ofNat_add]

@[simp] theorem shift_covering (n offset : Nat) (kind : TokenKind) (value : String) (text : List Char) :
    (Token.covering kind value offset text).shift n = .covering kind value (offset + n) text := by
  simp only [Token.shift, Token.covering, ← UInt32.ofNat_add, Nat.add_right_comm]

private theorem shift_breaks (n offset : Nat) (pending : Bool) (gap : List Char) :
    (breaks offset pending gap).map (Token.shift n) = breaks (offset + n) pending gap := by
  cases pending <;> cases h : lineBreak? gap <;>
    simp [breaks, h, Nat.add_right_comm]

private theorem shift_closing (n offset : Nat) (pending : Bool) :
    (closing offset pending).map (Token.shift n) = closing (offset + n) pending := by
  cases pending
  · exact congrArg ([·]) (shift_endOfInput n offset)
  · simp [closing]

theorem tokensFrom_of_errorPiece {cause : Cause} (h : piece c cs = .error cause) :
    tokensFrom file offset pending (c :: cs) = .error ⟨cause, .ofNat offset, file⟩ := by
  rw [tokensFrom.eq_def]
  simp only [h]

theorem tokensFrom_of_tokenPiece {kind : TokenKind} {value : String}
    (h : piece c cs = .ok (.token kind value, n)) :
    tokensFrom file offset pending (c :: cs) =
      (tokensFrom file (offset + byteLength (c :: cs.take n)) kind.endsStatement (cs.drop n)).map
        ([.covering kind value offset (c :: cs.take n)] ++ ·) := by
  rw [tokensFrom.eq_def]
  simp only [h]
  rfl

theorem tokensFrom_shift (file : String) (n offset : Nat) (pending : Bool) (cs : List Char) :
    tokensFrom file (offset + n) pending cs = shifted n (tokensFrom file offset pending cs) := by
  induction hlength : cs.length using Nat.strongRecOn generalizing offset pending cs with
  | _ length ih =>
    cases cs with
    | nil =>
      rw [tokensFrom_nil, tokensFrom_nil]
      exact congrArg Except.ok (shift_closing n offset pending).symm
    | cons c cs =>
      have hshorter : ∀ m, (cs.drop m).length < length := by
        intro m
        rw [← hlength, List.length_drop, List.length_cons]
        omega
      cases hpiece : piece c cs with
      | error cause =>
        rw [tokensFrom_of_errorPiece hpiece, tokensFrom_of_errorPiece hpiece, UInt32.ofNat_add]
        rfl
      | ok found =>
        obtain ⟨role, m⟩ := found
        cases role with
        | gap =>
          rw [tokensFrom_of_gapPiece hpiece, tokensFrom_of_gapPiece hpiece, behindGap, behindGap,
            shifted_map, shift_breaks, Nat.add_right_comm, ih _ (hshorter m) _ _ _ rfl]
        | token kind value =>
          rw [tokensFrom_of_tokenPiece hpiece, tokensFrom_of_tokenPiece hpiece, shifted_map,
            Nat.add_right_comm, ih _ (hshorter m) _ _ _ rfl, List.map_singleton, shift_covering]

end Shift

section Cut

variable {file : String} {offset : Nat} {pending : Bool} {text : List Char} {tokens : List Token}

private theorem breaks_newline (offset : Nat) (pending : Bool) (gap : List Char) :
    breaks offset pending (gap ++ ['\n']) = breaksAtEnd offset pending gap := by
  rw [breaks_append, breaksAtEnd]
  congr 1
  cases staysPending pending gap <;> rfl

private theorem staysPending_newline (pending : Bool) (gap : List Char) :
    staysPending pending (gap ++ ['\n']) = false := by
  rw [staysPending_append]
  cases staysPending pending gap <;> rfl

theorem Begins.tokensFrom {c : Char} {cs rest : List Char} {kind : TokenKind} {value : String}
    (h : Begins c cs rest kind value) :
    Lexer.tokensFrom file offset pending (c :: (cs ++ rest)) =
      (Lexer.tokensFrom file (offset + byteLength (c :: cs)) kind.endsStatement rest).map
        ([.covering kind value offset (c :: cs)] ++ ·) := by
  rw [tokensFrom_of_tokenPiece h, List.take_left, List.drop_left]

private theorem endsAlike_newline (rest after : List Char) : EndsAlike rest (rest ++ '\n' :: after) := by
  cases rest with
  | nil =>
    right
    rintro d ⟨⟩
    rfl
  | cons d rest => exact .inl rfl

/-- Behind a text that the lexer reads it goes on as at the start of a source, if a line break ends the
text. -/
theorem Scan.tokensFrom_newline (h : Scan offset pending text tokens) (file : String)
    (after : List Char) :
    ∃ init, tokens = init ++ [Token.endOfInput (.ofNat (offset + byteLength text))] ∧
      tokensFrom file offset pending (text ++ '\n' :: after) =
        (tokensFrom file (offset + byteLength text + 1) false after).map (init ++ ·) := by
  induction h with
  | @last offset pending gap hgap =>
    refine ⟨breaksAtEnd offset pending gap, (List.append_assoc _ _ _).symm, ?_⟩
    have hrun : tokensFrom file offset pending (gap ++ ['\n'] ++ after) = _ :=
      tokensFrom_gap (Gap.newline hgap)
    rw [behindGap, breaks_newline, staysPending_newline, byteLength_append, List.append_assoc] at hrun
    exact hrun
  | @token offset pending gap c cs rest kind value tokens hgap hbegins h ih =>
    obtain ⟨init, rfl, hrest⟩ := ih
    have hlength : byteLength (gap ++ c :: (cs ++ rest)) =
        byteLength gap + byteLength (c :: cs) + byteLength rest := by
      rw [← List.cons_append, byteLength_append, byteLength_append, Nat.add_assoc]
    rw [hlength, ← Nat.add_assoc, ← Nat.add_assoc]
    refine ⟨_, (List.append_assoc _ (_ :: init) _).symm, ?_⟩
    have hgap' : Gap (c :: (cs ++ (rest ++ '\n' :: after))) gap := hgap.congr rfl
    have hbegins' : Begins c cs (rest ++ '\n' :: after) kind value :=
      hbegins.congr (endsAlike_newline rest after)
    rw [List.append_assoc, List.cons_append, List.append_assoc, tokensFrom_gap hgap', behindGap,
      hbegins'.tokensFrom, hrest, map_map, map_map]
    congr 1
    funext rest
    simp

end Cut

end Lexer

section Source

variable {a file : String} {tokens : List Token}

/-- Behind a source that has tokens and a line break, another source has the tokens or the error that it has
alone, as far behind the start as the first source and the line break reach. The end of the first source
is the only token that is lost. -/
theorem tokenize_newline (h : tokenize a file = .ok tokens) (b : String) :
    let cut := byteLength a.toList + 1
    tokens.getLast? = some (Token.endOfInput (.ofNat (byteLength a.toList))) ∧
      (∀ tokens', tokenize b file = .ok tokens' →
        tokenize (a ++ "\n" ++ b) file = .ok (tokens.dropLast ++ tokens'.map (Token.shift cut))) ∧
      ∀ e, tokenize b file = .error e → tokenize (a ++ "\n" ++ b) file = .error (e.shift cut) := by
  intro cut
  obtain ⟨init, htokens, hjoined⟩ :=
    (Lexer.scan_of_tokensFrom h).tokensFrom_newline file b.toList
  rw [Nat.zero_add] at htokens hjoined
  have hshift := Lexer.tokensFrom_shift file cut 0 false b.toList
  rw [Nat.zero_add] at hshift
  have htext : (a ++ "\n" ++ b).toList = a.toList ++ '\n' :: b.toList := by
    simp [String.toList_append]
  rw [hshift, ← htext] at hjoined
  change tokenize (a ++ "\n" ++ b) file = (Lexer.shifted cut (tokenize b file)).map (init ++ ·) at hjoined
  rw [htokens, List.dropLast_concat]
  refine ⟨List.getLast?_concat, ?_, ?_⟩
  · intro tokens' hb
    rw [hjoined, hb]
    rfl
  · intro e hb
    rw [hjoined, hb]
    rfl

end Source

theorem tokenize_newline_comment :
    tokenize "x//" "shell" = .ok [⟨.identifier, "x", 0, 1⟩, Token.lineBreak 3, Token.endOfInput 3] ∧
      tokenize ("x//" ++ "\n" ++ ";") "shell" = .ok [⟨.identifier, "x", 0, 1⟩, Token.lineBreak 3,
        ⟨.semicolon, ";", 4, 5⟩, Token.endOfInput 5] ∧
      tokenize ("x//" ++ "\n" ++ "|") "shell" = .error ⟨.unrecognisedToken "|", 4, "shell"⟩ := by
  have hgap : Lexer.Gap [] ('/' :: '/' :: ([] ++ [])) := .lineComment (by simp) (by simp) .nil
  have hcomment : Lexer.Scan 1 true ['/', '/'] _ := .last hgap
  have hbegins : Lexer.Begins 'x' [] ['/', '/'] .identifier "x" := rfl
  have hfirst : tokenize "x//" "shell" = .ok [⟨.identifier, "x", 0, 1⟩, Token.lineBreak 3,
      Token.endOfInput 3] :=
    Lexer.tokensFrom_eq_ok_iff.2 (.token (show Lexer.Gap ('x' :: _) [] from .nil) hbegins hcomment)
  have hsemicolon : tokenize ";" "shell" = .ok [⟨.semicolon, ";", 0, 1⟩, Token.endOfInput 1] :=
    Lexer.tokensFrom_token (n := 0) rfl (Lexer.tokensFrom_nil "shell" 1 false)
  have hbar : tokenize "|" "shell" = .error ⟨.unrecognisedToken "|", 0, "shell"⟩ :=
    Lexer.tokensFrom_of_errorPiece rfl
  refine ⟨hfirst, ?_, ?_⟩
  · exact (tokenize_newline hfirst ";").2.1 _ hsemicolon
  · exact (tokenize_newline hfirst "|").2.2 _ hbar

end MiniGo
