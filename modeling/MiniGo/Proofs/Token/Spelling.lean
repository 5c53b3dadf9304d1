import MiniGo.Grammar.Table
import MiniGo.Token.Lexer
import MiniGo.Tree.Check

/-!
How the tokens of a source are spelled. Names are never empty, and a token that the grammar takes for
an operator is spelled as one that the check knows.
-/
namespace MiniGo

open Grammar

/-- A spelling of a kind of token that the rules may put into a tree as it is. -/
structure Spells (kind : TokenKind) (value : String) : Prop where
  name : kind = .identifier → value ≠ ""
  binary : (Table.standard.operator kind).map Prod.snd = some .binary → value ∈ Check.binaryOperators
  unary : Table.standard.operand kind = some .unary → value ∈ Check.unaryOperators

instance (kind : TokenKind) (value : String) : Decidable (Spells kind value) :=
  decidable_of_iff
    ((kind = .identifier → value ≠ "") ∧
      ((Table.standard.operator kind).map Prod.snd = some .binary → value ∈ Check.binaryOperators) ∧
        (Table.standard.operand kind = some .unary → value ∈ Check.unaryOperators))
    ⟨fun h => ⟨h.1, h.2.1, h.2.2⟩, fun h => ⟨h.name, h.binary, h.unary⟩⟩

def Token.Spelled (t : Token) : Prop := Spells t.kind t.value

namespace Lexer

private theorem spells_reserved {word : String} {kind : TokenKind} (h : reserved? word = some kind) :
    Spells kind word := by
  have hall : ∀ p ∈ reservedWords, Spells p.2 p.1 := by decide
  obtain ⟨before, after, hwords, -⟩ := List.lookup_eq_some_iff.1 h
  apply hall (word, kind)
  rw [hwords]
  exact List.mem_append_right before List.mem_cons_self

theorem spells_word (c : Char) (word : List Char) :
    Spells ((reserved? (String.ofList (c :: word))).getD .identifier) (String.ofList (c :: word)) := by
  cases h : reserved? (String.ofList (c :: word)) with
  | some kind => exact spells_reserved h
  | none => exact ⟨fun _ => by simp, nofun, nofun⟩

theorem forall_mem_ite {α : Type} {P : α → Prop} {p : Prop} [Decidable p] {x y : Option α}
    (hx : ∀ a ∈ x, P a) (hy : ∀ a ∈ y, P a) : ∀ a ∈ if p then x else y, P a := by
  by_cases hp : p
  · rwa [if_pos hp]
  · rwa [if_neg hp]

private theorem spells_operator (c : Char) (next : Option Char) :
    ∀ p ∈ operator? c next, Spells p.1 p.2 := by
  unfold operator?
  repeat' apply forall_mem_ite
  all_goals decide

theorem spells_number (value : String) : Spells .number value := ⟨nofun, nofun, nofun⟩

private theorem spells_string (value : String) : Spells .string value := ⟨nofun, nofun, nofun⟩

private theorem spells_stringPiece {cs : List Char} {kind : TokenKind} {value : String} {n : Nat}
    (h : stringPiece cs = .ok (.token kind value, n)) : Spells kind value := by
  unfold stringPiece at h
  split at h
  · cases h
  · split at h
    · cases h
    · cases h
      exact spells_string _

theorem spells_piece {c : Char} {cs : List Char} {kind : TokenKind} {value : String} {n : Nat}
    (h : piece c cs = .ok (.token kind value, n)) : Spells kind value := by
  unfold piece at h
  split at h
  · cases h
  · split at h
    · cases h
    · split at h
      · split at h <;> cases h
      · split at h
        · cases h
          exact spells_word c _
        · split at h
          · dsimp only at h
            split at h
            · cases h
              exact spells_number _
            · cases h
          · split at h
            · exact spells_stringPiece h
            · split at h
              · rename_i hop
                cases h
                exact spells_operator c cs.head? _ hop
              · cases h

@[simp] theorem spelled_lineBreak (offset : Nat) : (Token.lineBreak offset).Spelled := ⟨nofun, nofun, nofun⟩

@[simp] theorem spelled_endOfInput (offset : Text.Offset) : (Token.endOfInput offset).Spelled :=
  ⟨nofun, nofun, nofun⟩

private theorem forall_mem_of_map_cons {P : Token → Prop} {x : Except Error (List Token)} {k : Token}
    {tokens : List Token} (h : x.map (k :: ·) = .ok tokens) (hk : P k)
    (hrest : ∀ rest, x = .ok rest → ∀ t ∈ rest, P t) : ∀ t ∈ tokens, P t := by
  cases x with
  | error e => cases h
  | ok rest =>
    cases h
    exact List.forall_mem_cons.2 ⟨hk, hrest rest rfl⟩

/-- What is true of the tokens of all pieces, of the semicolons that line breaks stand for and of the end is
true of all tokens. -/
theorem forall_mem_of_tokensFrom {P : Token → Prop} {file : String} {offset : Nat} {pending : Bool}
    {cs : List Char} {tokens : List Token} (h : tokensFrom file offset pending cs = .ok tokens)
    (hpiece : ∀ c cs kind value n start stop, piece c cs = .ok (.token kind value, n) →
      P ⟨kind, value, start, stop⟩)
    (hbreak : ∀ offset, P (Token.lineBreak offset))
    (hend : ∀ offset, P (Token.endOfInput offset)) :
    ∀ t ∈ tokens, P t := by
  fun_induction tokensFrom file offset pending cs generalizing tokens with
  | case1 offset pending =>
    cases h
    cases pending with
    | false => exact List.forall_mem_singleton.2 (hend (.ofNat offset))
    | true => exact List.forall_mem_cons.2 ⟨hbreak offset, List.forall_mem_singleton.2 (hend (.ofNat offset))⟩
  | case2 => cases h
  | case3 =>
    rename_i hp ih
    exact forall_mem_of_map_cons h (hpiece _ _ _ _ _ _ _ hp) fun _ => ih
  | case4 =>
    rename_i ih
    exact forall_mem_of_map_cons h (hbreak _) fun _ => ih
  | case5 =>
    rename_i ih
    exact ih h
  | case6 =>
    rename_i ih
    exact ih h

theorem tokensFrom_spelled {file : String} {offset : Nat} {pending : Bool} {cs : List Char}
    {tokens : List Token} (h : tokensFrom file offset pending cs = .ok tokens) :
    ∀ t ∈ tokens, t.Spelled :=
  forall_mem_of_tokensFrom h (fun _ _ _ _ _ _ _ hpiece => spells_piece hpiece) spelled_lineBreak
    spelled_endOfInput

theorem tokensFrom_token {file : String} {offset n : Nat} {pending : Bool} {c : Char} {cs : List Char}
    {kind : TokenKind} {value : String} {tokens : List Token}
    (hpiece : piece c cs = .ok (.token kind value, n))
    (hrest : tokensFrom file (offset + Text.byteLength (c :: cs.take n)) kind.endsStatement
      (cs.drop n) = .ok tokens) :
    tokensFrom file offset pending (c :: cs) =
      .ok (.covering kind value offset (c :: cs.take n) :: tokens) := by
  rw [tokensFrom.eq_def]
  simp only [hpiece, hrest]
  rfl

theorem tokensFrom_nil (file : String) (offset : Nat) (pending : Bool) :
    tokensFrom file offset pending [] =
      .ok ((if pending then [Token.lineBreak offset] else []) ++ [Token.endOfInput (.ofNat offset)]) := by
  rw [tokensFrom.eq_def]

end Lexer

theorem tokenize_spelled {source file : String} {tokens : List Token}
    (h : tokenize source file = .ok tokens) : ∀ t ∈ tokens, t.Spelled :=
  Lexer.tokensFrom_spelled h

end MiniGo
