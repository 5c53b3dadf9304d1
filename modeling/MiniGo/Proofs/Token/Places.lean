import MiniGo.Proofs.Json.Scalar
import MiniGo.Proofs.Token.Joined

/-!
Where the lexer finds tokens and errors: between two characters of the text, semicolons that line breaks
stand for and the end included. What it takes for a number denotes one.
-/
namespace MiniGo

open Text

section Numbers

open Lexer

theorem splitSign_of_isDigits {cs ds : List Char} (h : IsDigits cs) :
    Decimal.splitSign (cs ++ ds) = (false, cs ++ ds) := by
  cases cs with
  | nil => exact absurd rfl h.1
  | cons c cs =>
    have hc := h.2 c List.mem_cons_self
    unfold Decimal.splitSign
    split
    · rename_i heq
      obtain ⟨rfl, -⟩ := List.cons.inj heq
      exact absurd hc (by decide)
    · rename_i heq
      obtain ⟨rfl, -⟩ := List.cons.inj heq
      exact absurd hc (by decide)
    · rfl

private theorem parse?_of_isNumeral {cs : List Char} (h : IsNumeral cs) :
    (Decimal.parse? (String.ofList cs)).isSome := by
  have htake : ∀ {ds es}, IsDigits ds → Json.NoDigit es → (ds ++ es).takeWhile Decimal.isDigit = ds :=
    fun hds hes => Json.takeWhile_digits hds hes
  have hdrop : ∀ {ds es}, IsDigits ds → Json.NoDigit es → (ds ++ es).dropWhile Decimal.isDigit = es :=
    fun hds hes => Json.dropWhile_digits hds hes
  have hnil : Json.NoDigit [] := nofun
  rw [Decimal.parse?, String.toList_ofList]
  rcases h with h | ⟨whole, fraction, hwhole, hfraction, rfl⟩
  · rw [← List.append_nil cs, splitSign_of_isDigits h]
    simp only [Decimal.unsigned?, htake h hnil, hdrop h hnil]
    simp [h.1, Decimal.exponent?]
  · have hpoint : Json.NoDigit ('.' :: fraction) := by
      rintro c ⟨⟩
      rfl
    have htake' := htake hfraction hnil
    have hdrop' := hdrop hfraction hnil
    rw [List.append_nil] at htake' hdrop'
    rw [splitSign_of_isDigits hwhole]
    simp only [Decimal.unsigned?, htake hwhole hpoint, hdrop hwhole hpoint, htake', hdrop']
    simp [hwhole.1, Decimal.exponent?]

theorem isNumeral_of_piece {c : Char} {cs : List Char} {value : String} {n : Nat}
    (h : piece c cs = .ok (.token .number value, n)) :
    ∃ digits, value = String.ofList digits ∧ IsNumeral digits := by
  have hcut := cut_of_piece h
  generalize hrole : Role.token .number value = role at hcut
  cases hcut with
  | blank | lineComment | blockComment => cases hrole
  | word =>
    obtain ⟨hkind, -⟩ := Role.token.inj hrole
    revert hkind
    generalize String.ofList _ = word
    cases hword : reserved? word with
    | none => nofun
    | some kind =>
      obtain ⟨before, after, hwords, -⟩ := List.lookup_eq_some_iff.1 hword
      have hall : ∀ p ∈ reservedWords, TokenKind.number ≠ p.2 := by decide
      intro hkind
      refine absurd hkind (hall (word, kind) ?_)
      rw [hwords]
      exact List.mem_append_right before List.mem_cons_self
  | numeral hc hn =>
    obtain ⟨-, rfl⟩ := Role.token.inj hrole
    exact ⟨_, rfl, isNumeral_of_isNumber hn⟩
  | string => cases hrole
  | operator _ _ _ hop =>
    obtain ⟨rfl, rfl⟩ := Role.token.inj hrole
    have hall : ∀ p ∈ operator? c cs.head?, p.1 ≠ .number := by
      unfold operator?
      repeat' apply forall_mem_ite
      all_goals decide
    exact absurd rfl (hall _ hop)

theorem tokenize_numbers {source file : String} {tokens : List Token}
    (h : tokenize source file = .ok tokens) :
    ∀ t ∈ tokens, t.kind = .number → (Decimal.parse? t.value).isSome := by
  refine forall_mem_of_tokensFrom h (fun c cs kind value n start stop hpiece => ?_) (fun _ => nofun)
    fun _ => nofun
  rintro rfl
  obtain ⟨digits, rfl, hdigits⟩ := isNumeral_of_piece hpiece
  exact parse?_of_isNumeral hdigits

end Numbers

namespace Lexer

section Places

variable {c : Char} {cs gap before after : List Char}

private theorem lexical_of_stringPiece {cause : Cause} (h : stringPiece cs = .error cause) :
    cause.errorClass = .lexical := by
  unfold stringPiece at h
  split at h
  · cases h
    rfl
  · split at h <;> cases h
    rfl

theorem lexical_of_piece {cause : Cause} (h : piece c cs = .error cause) :
    cause.errorClass = .lexical := by
  unfold piece at h
  split at h
  · cases h
  · split at h
    · cases h
    · split at h
      · split at h <;> cases h
        rfl
      · split at h
        · cases h
        · split at h
          · dsimp only at h
            split at h <;> cases h
            rfl
          · split at h
            · exact lexical_of_stringPiece h
            · split at h <;> cases h
              rfl

/-- The offset is what 32 bits keep of a place between two characters of the text. -/
def AtBoundary (offset : Offset) (text : List Char) : Prop :=
  ∃ place, IsBoundary place text ∧ offset = .ofNat place

theorem atBoundary_append (before after : List Char) :
    AtBoundary (.ofNat (byteLength before)) (before ++ after) :=
  ⟨byteLength before, ⟨before, after, rfl, rfl⟩, rfl⟩

private theorem exists_of_lineBreak? {k : Nat} (h : lineBreak? gap = some k) :
    ∃ front back, gap = front ++ '\n' :: back ∧ k = byteLength front := by
  induction gap generalizing k with
  | nil => cases h
  | cons c gap ih =>
    rw [lineBreak?] at h
    split at h
    · rename_i hc
      cases h
      exact ⟨[], gap, by rw [hc]; rfl, rfl⟩
    · obtain ⟨j, hj, rfl⟩ := Option.map_eq_some_iff.1 h
      obtain ⟨front, back, rfl, rfl⟩ := ih hj
      exact ⟨c :: front, back, rfl, Nat.add_comm _ _⟩

theorem breaks_boundary (before gap after : List Char) (pending : Bool) :
    ∀ t ∈ breaks (byteLength before) pending gap, AtBoundary t.start (before ++ (gap ++ after)) := by
  cases hbreak : lineBreak? gap with
  | none => cases pending <;> simp [breaks, hbreak]
  | some k =>
    obtain ⟨front, back, rfl, rfl⟩ := exists_of_lineBreak? hbreak
    cases pending with
    | false => simp [breaks]
    | true =>
      simp only [breaks, hbreak]
      have hplace := atBoundary_append (before ++ front) ('\n' :: (back ++ after))
      rw [byteLength_append, List.append_assoc] at hplace
      rw [List.append_assoc, List.cons_append]
      exact List.forall_mem_singleton.2 hplace

/-- What the lexer yields lies between the characters of the text: every token starts there, and so does
what is no token, for a lexical reason. -/
def Located (file : String) (text : List Char) : Except Error (List Token) → Prop
  | .ok tokens => ∀ t ∈ tokens, AtBoundary t.start text
  | .error e => e.cause.errorClass = .lexical ∧ e.position.file = file ∧
      AtBoundary e.position.offset text

theorem Located.map {file : String} {text : List Char} {x : Except Error (List Token)}
    {front : List Token} (hfront : ∀ t ∈ front, AtBoundary t.start text) (h : Located file text x) :
    Located file text (x.map (front ++ ·)) := by
  cases x with
  | error e => exact h
  | ok tokens => exact List.forall_mem_append.2 ⟨hfront, h⟩

theorem tokensFrom_located (file : String) (before cs : List Char) (pending : Bool) :
    Located file (before ++ cs) (tokensFrom file (byteLength before) pending cs) := by
  induction hlength : cs.length using Nat.strongRecOn generalizing before pending cs with
  | _ length ih =>
    cases cs with
    | nil =>
      rw [tokensFrom_nil]
      have hend := atBoundary_append before []
      cases pending with
      | false => exact List.forall_mem_singleton.2 hend
      | true => exact List.forall_mem_cons.2 ⟨hend, List.forall_mem_singleton.2 hend⟩
    | cons c cs =>
      have hrest : ∀ n pending, Located file (before ++ c :: cs)
          (tokensFrom file (byteLength before + byteLength (c :: cs.take n)) pending (cs.drop n)) := by
        intro n pending
        have hshorter : (cs.drop n).length < length := by
          rw [← hlength, List.length_drop, List.length_cons]
          omega
        have hlocated := ih _ hshorter (before ++ c :: cs.take n) _ pending rfl
        rwa [byteLength_append, List.append_assoc, List.cons_append, List.take_append_drop]
          at hlocated
      cases hpiece : piece c cs with
      | error cause =>
        rw [tokensFrom_of_errorPiece hpiece]
        exact ⟨lexical_of_piece hpiece, rfl, atBoundary_append before (c :: cs)⟩
      | ok found =>
        obtain ⟨role, n⟩ := found
        cases role with
        | gap =>
          rw [tokensFrom_of_gapPiece hpiece]
          refine (hrest n _).map ?_
          have hbreaks := breaks_boundary before (c :: cs.take n) (cs.drop n) pending
          rwa [List.cons_append, List.take_append_drop] at hbreaks
        | token kind value =>
          rw [tokensFrom_of_tokenPiece hpiece]
          exact (hrest n _).map (List.forall_mem_singleton.2 (atBoundary_append before (c :: cs)))

end Places

end Lexer

theorem tokenize_located (source file : String) :
    Lexer.Located file source.toList (tokenize source file) :=
  Lexer.tokensFrom_located file [] source.toList false

end MiniGo
