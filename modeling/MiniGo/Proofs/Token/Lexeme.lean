import MiniGo.Token.Lexer

/-!
Lexemes and gaps as classes of texts, without a scanner: what a token may look like, and what may stand
between two tokens. A piece of source that is a token is the longest lexeme at its place, and a piece
that is not belongs to a gap.
-/
namespace MiniGo.Lexer

def IsWord (cs : List Char) : Prop :=
  ∃ c ds, cs = c :: ds ∧ isLetter c = true ∧ ∀ d ∈ ds, isWordPart d = true

def IsDigits (cs : List Char) : Prop := cs ≠ [] ∧ ∀ c ∈ cs, isDigit c = true

/-- Digits, or digits with a point between them. -/
def IsNumeral (cs : List Char) : Prop :=
  IsDigits cs ∨ ∃ whole fraction, IsDigits whole ∧ IsDigits fraction ∧ cs = whole ++ '.' :: fraction

/-- What may stand between the quotes of a string literal: a backslash takes the next character with
it, and there is no line break. -/
inductive Quotable : List Char → Prop where
  | nil : Quotable []
  | plain {c : Char} {cs : List Char} (hquote : c ≠ '"') (hbackslash : c ≠ '\\') (hbreak : c ≠ '\n')
      (h : Quotable cs) : Quotable (c :: cs)
  | escape {c : Char} {cs : List Char} (hbreak : c ≠ '\n') (h : Quotable cs) :
      Quotable ('\\' :: c :: cs)

def IsStringLiteral (cs : List Char) : Prop := ∃ body, Quotable body ∧ cs = '"' :: (body ++ ['"'])

def operators : List String :=
  ["[", "]", "\x7b", "\x7d", "(", ")", ":=", "==", "!=", "!", "=", "<-", "<=", "<", ">=", ">", "||",
    "&&", ".", ";", ":", ",", "+", "-", "/", "*", "%"]

def IsOperator (cs : List Char) : Prop := String.ofList cs ∈ operators

/-- What a token may look like in the source. -/
def IsLexeme (cs : List Char) : Prop :=
  IsWord cs ∨ IsNumeral cs ∨ IsStringLiteral cs ∨ IsOperator cs

/-- The text starts with a lexeme, and with no longer one. -/
structure IsLongest (lexeme text : List Char) : Prop where
  isLexeme : IsLexeme lexeme
  starts : lexeme <+: text
  longest : ∀ other, IsLexeme other → other <+: text → other.length ≤ lexeme.length

/-- Text in front of `after` that holds no token: blanks, line comments up to a line break or the end
of the source, and block comments up to their first end. -/
inductive Gap (after : List Char) : List Char → Prop where
  | nil : Gap after []
  | blank {c : Char} {cs : List Char} (hc : Text.isBlank c = true) (h : Gap after cs) :
      Gap after (c :: cs)
  | lineComment {body rest : List Char} (hbody : ∀ c ∈ body, c ≠ '\n')
      (hend : ∀ c ∈ (rest ++ after).head?, c = '\n') (h : Gap after rest) :
      Gap after ('/' :: '/' :: (body ++ rest))
  | blockComment {body rest : List Char} (hbody : ¬ ['*', '/'] <:+: body ++ ['*'])
      (h : Gap after rest) : Gap after ('/' :: '*' :: (body ++ '*' :: '/' :: rest))

section FirstCharacter

theorem not_isDigit_of_isLetter {c : Char} (h : isLetter c = true) : isDigit c = false := by
  have h9 : ('9' : Char).val.toNat = 57 := rfl
  have ha : ('a' : Char).val.toNat = 97 := rfl
  have hA : ('A' : Char).val.toNat = 65 := rfl
  simp only [isLetter, Bool.or_eq_true, Bool.and_eq_true, decide_eq_true_eq, beq_iff_eq,
    Char.le_def, UInt32.le_iff_toNat_le] at h
  rw [← Bool.not_eq_true]
  simp only [isDigit, Bool.and_eq_true, decide_eq_true_eq, Char.le_def, UInt32.le_iff_toNat_le]
  rcases h with (h | h) | rfl
  · omega
  · omega
  · decide

theorem operators_head : ∀ op ∈ operators, ∀ c ∈ op.toList.head?,
    isLetter c = false ∧ isDigit c = false ∧ c ≠ '"' := by
  have hall : ∀ op ∈ operators,
      op.toList.head?.all (fun c => !isLetter c && !isDigit c && c != '"') = true := by
    decide
  intro op hop c hc
  have hhead := hall op hop
  rw [Option.mem_def.1 hc] at hhead
  simpa [and_assoc] using hhead

variable {c : Char} {cs : List Char}

theorem IsOperator.head (h : IsOperator (c :: cs)) :
    isLetter c = false ∧ isDigit c = false ∧ c ≠ '"' := by
  apply operators_head _ h
  rw [String.toList_ofList]
  rfl

theorem IsNumeral.head (h : IsNumeral (c :: cs)) : isDigit c = true := by
  rcases h with h | ⟨whole, fraction, hwhole, -, heq⟩
  · exact h.2 c List.mem_cons_self
  · cases whole with
    | nil => exact absurd rfl hwhole.1
    | cons d ds =>
      obtain ⟨rfl, -⟩ := List.cons.inj heq
      exact hwhole.2 c List.mem_cons_self

theorem IsWord.head (h : IsWord (c :: cs)) : isLetter c = true := by
  obtain ⟨d, ds, heq, hd, -⟩ := h
  rwa [(List.cons.inj heq).1]

theorem IsStringLiteral.head (h : IsStringLiteral (c :: cs)) : c = '"' := by
  obtain ⟨body, -, heq⟩ := h
  exact (List.cons.inj heq).1

theorem IsLexeme.isWord (h : IsLexeme (c :: cs)) (hc : isLetter c = true) : IsWord (c :: cs) := by
  rcases h with h | h | h | h
  · exact h
  · exact absurd h.head (by simp [not_isDigit_of_isLetter hc])
  · rw [h.head] at hc
    exact absurd hc (by decide)
  · exact absurd hc (by simp [h.head.1])

theorem IsLexeme.isNumeral (h : IsLexeme (c :: cs)) (hc : isDigit c = true) :
    IsNumeral (c :: cs) := by
  rcases h with h | h | h | h
  · exact absurd hc (by simp [not_isDigit_of_isLetter h.head])
  · exact h
  · rw [h.head] at hc
    exact absurd hc (by decide)
  · exact absurd hc (by simp [h.head.2.1])

theorem IsLexeme.isStringLiteral (h : IsLexeme ('"' :: cs)) : IsStringLiteral ('"' :: cs) := by
  rcases h with h | h | h | h
  · exact absurd h.head (by decide)
  · exact absurd h.head (by decide)
  · exact h
  · exact absurd rfl h.head.2.2

theorem IsLexeme.isOperator (h : IsLexeme (c :: cs)) (hletter : isLetter c = false)
    (hdigit : isDigit c = false) (hquote : c ≠ '"') : IsOperator (c :: cs) := by
  rcases h with h | h | h | h
  · exact absurd h.head (by simp [hletter])
  · exact absurd h.head (by simp [hdigit])
  · exact absurd h.head hquote
  · exact h

theorem IsLexeme.ne_nil {lexeme : List Char} (h : IsLexeme lexeme) : lexeme ≠ [] := by
  rintro rfl
  rcases h with ⟨c, ds, h, -⟩ | (h | ⟨whole, fraction, -, -, h⟩) | ⟨body, -, h⟩ | h
  · cases h
  · exact h.1 rfl
  · exact absurd h.symm (by simp)
  · cases h
  · exact absurd (show "" ∈ operators from h) (by decide)

end FirstCharacter

section Longest

variable {c : Char} {cs : List Char} {p : Char → Bool}

/-- A text that starts with the same character and is no longer than every lexeme of the class is the
longest lexeme. -/
theorem isLongest_of_head {ds : List Char} (hlexeme : IsLexeme (c :: ds)) (hstarts : ds <+: cs)
    (h : ∀ other, IsLexeme (c :: other) → other <+: cs → other.length ≤ ds.length) :
    IsLongest (c :: ds) (c :: cs) := by
  refine ⟨hlexeme, List.cons_prefix_cons.2 ⟨rfl, hstarts⟩, ?_⟩
  intro other hother hpre
  cases other with
  | nil => exact absurd rfl hother.ne_nil
  | cons d other =>
    obtain ⟨rfl, hother'⟩ := List.cons_prefix_cons.1 hpre
    simpa using h other hother hother'

private theorem length_le_takeWhile {other : List Char} (hp : ∀ d ∈ other, p d = true)
    (h : other <+: cs) : other.length ≤ (cs.takeWhile p).length := by
  obtain ⟨rest, rfl⟩ := h
  rw [List.takeWhile_append_of_pos hp, List.length_append]
  omega

theorem take_length_takeWhile (p : Char → Bool) (cs : List Char) :
    cs.take (cs.takeWhile p).length = cs.takeWhile p :=
  (List.prefix_iff_eq_take.1 (List.takeWhile_prefix p)).symm

theorem drop_length_takeWhile (p : Char → Bool) (cs : List Char) :
    cs.drop (cs.takeWhile p).length = cs.dropWhile p := by
  induction cs with
  | nil => rfl
  | cons c cs ih =>
    by_cases hc : p c = true
    · simp [hc, ih]
    · simp [hc]

theorem mem_takeWhile {d : Char} (h : d ∈ cs.takeWhile p) : p d = true :=
  List.all_eq_true.1 List.all_takeWhile d h

theorem isLongest_word (hc : isLetter c = true) :
    IsLongest (c :: cs.takeWhile isWordPart) (c :: cs) := by
  refine isLongest_of_head (.inl ⟨c, _, rfl, hc, fun _ => mem_takeWhile⟩)
    (List.takeWhile_prefix _) ?_
  intro other hother hpre
  obtain ⟨d, ds, heq, -, hds⟩ := hother.isWord hc
  obtain ⟨-, rfl⟩ := List.cons.inj heq
  exact length_le_takeWhile hds hpre

theorem isNumeral_of_isNumber {cs : List Char} (h : isNumber cs = true) : IsNumeral cs := by
  simp only [isNumber, Bool.and_eq_true, Bool.not_eq_true', List.isEmpty_eq_false_iff] at h
  obtain ⟨hwhole, h⟩ := h
  have hdigits : IsDigits (cs.takeWhile isDigit) := ⟨hwhole, fun _ => mem_takeWhile⟩
  have happend : cs.takeWhile isDigit ++ cs.dropWhile isDigit = cs := List.takeWhile_append_dropWhile
  split at h
  · rename_i hnil
    rw [hnil, List.append_nil] at happend
    exact .inl (happend ▸ hdigits)
  · rename_i d ds hcons
    simp only [Bool.and_eq_true, beq_iff_eq, Bool.not_eq_true', List.isEmpty_eq_false_iff,
      List.all_eq_true] at h
    obtain ⟨⟨rfl, hne⟩, hds⟩ := h
    rw [hcons] at happend
    exact .inr ⟨_, ds, hdigits, ⟨hne, hds⟩, happend.symm⟩

theorem IsDigits.isNumberPart (h : IsDigits cs) : ∀ d ∈ cs, isNumberPart d = true := by
  intro d hd
  simp [Lexer.isNumberPart, isWordPart, h.2 d hd]

theorem IsNumeral.isNumberPart (h : IsNumeral cs) : ∀ d ∈ cs, isNumberPart d = true := by
  rcases h with h | ⟨whole, fraction, hwhole, hfraction, rfl⟩
  · exact h.isNumberPart
  · refine List.forall_mem_append.2 ⟨hwhole.isNumberPart, ?_⟩
    exact List.forall_mem_cons.2 ⟨by decide, hfraction.isNumberPart⟩

theorem isLongest_numeral (hc : isDigit c = true)
    (h : isNumber (c :: cs.takeWhile isNumberPart) = true) :
    IsLongest (c :: cs.takeWhile isNumberPart) (c :: cs) := by
  refine isLongest_of_head (.inr (.inl (isNumeral_of_isNumber h))) (List.takeWhile_prefix _) ?_
  intro other hother hpre
  have hparts := (hother.isNumeral hc).isNumberPart
  exact length_le_takeWhile (fun d hd => hparts d (List.mem_cons_of_mem c hd)) hpre

theorem Quotable.length? {body : List Char} (h : Quotable body) (rest : List Char) :
    StringLiteral.length? (body ++ '"' :: rest) = some (body.length + 1) := by
  induction h with
  | nil =>
    rw [List.nil_append, StringLiteral.length?.eq_def]
    rfl
  | plain hquote hbackslash hbreak _ ih =>
    rw [List.cons_append, StringLiteral.length?.eq_def]
    simp [hquote, hbackslash, hbreak, ih]
  | escape hbreak _ ih =>
    rw [List.cons_append, List.cons_append, StringLiteral.length?.eq_def]
    simp [hbreak, ih]

theorem exists_quotable_of_length? {n : Nat} (h : StringLiteral.length? cs = some n) :
    ∃ body rest, Quotable body ∧ cs = body ++ '"' :: rest ∧ n = body.length + 1 := by
  fun_induction StringLiteral.length? cs generalizing n with
  | case1 => cases h
  | case2 cs =>
    cases h
    exact ⟨[], cs, .nil, rfl, rfl⟩
  | case3 => cases h
  | case4 => cases h
  | case5 => cases h
  | case6 =>
    rename_i d ds hbreak _ _ ih
    obtain ⟨m, hm, rfl⟩ := Option.map_eq_some_iff.1 h
    obtain ⟨body, rest, hbody, rfl, rfl⟩ := ih hm
    exact ⟨'\\' :: d :: body, rest, .escape hbreak hbody, rfl, rfl⟩
  | case7 c cs hquote hbreak hbackslash ih =>
    obtain ⟨m, hm, rfl⟩ := Option.map_eq_some_iff.1 h
    obtain ⟨body, rest, hbody, rfl, rfl⟩ := ih hm
    exact ⟨c :: body, rest, .plain hquote hbackslash hbreak hbody, rfl, rfl⟩

theorem isLongest_string {body : List Char} (hbody : Quotable body) (rest : List Char) :
    IsLongest ('"' :: (body ++ ['"'])) ('"' :: (body ++ '"' :: rest)) := by
  refine isLongest_of_head (.inr (.inr (.inl ⟨body, hbody, rfl⟩))) ⟨rest, by simp⟩ ?_
  rintro other hother ⟨behind, heq⟩
  obtain ⟨body', hbody', hcons⟩ := hother.isStringLiteral
  obtain ⟨-, rfl⟩ := List.cons.inj hcons
  have hlength := hbody'.length? behind
  rw [List.append_assoc] at heq
  rw [show body' ++ '"' :: behind = body ++ '"' :: rest from heq, hbody.length? rest] at hlength
  have := Option.some.inj hlength
  simp only [List.length_append, List.length_singleton]
  omega

private theorem operators_scanned : ∀ op ∈ operators, ∀ c ∈ op.toList.head?, ∀ d ∈ op.toList.tail.head?,
    (operator? c (some d)).map Prod.snd = some op := by
  have hall : ∀ op ∈ operators, op.toList.head?.all (fun c =>
      op.toList.tail.head?.all fun d => (operator? c (some d)).map Prod.snd == some op) = true := by
    decide
  intro op hop c hc d hd
  have hhead := hall op hop
  rw [Option.mem_def.1 hc, Option.mem_def.1 hd] at hhead
  simpa using hhead

theorem isLongest_operator {kind : TokenKind} {value : String} (hletter : isLetter c = false)
    (hdigit : isDigit c = false) (hquote : c ≠ '"')
    (h : operator? c cs.head? = some (kind, value)) {ds : List Char} (hvalue : value.toList = c :: ds)
    (hds : ds <+: cs) (hmem : value ∈ operators) : IsLongest (c :: ds) (c :: cs) := by
  have hself : IsOperator (c :: ds) := by
    rw [IsOperator, ← hvalue, String.ofList_toList]
    exact hmem
  refine isLongest_of_head (.inr (.inr (.inr hself))) hds ?_
  intro other hother hpre
  have hscan := operators_scanned _ (hother.isOperator hletter hdigit hquote)
  rw [String.toList_ofList] at hscan
  cases other with
  | nil => exact Nat.zero_le _
  | cons d other =>
    obtain ⟨rest, rfl⟩ := hpre
    have hvalue' : (operator? c (some d)).map Prod.snd = some (String.ofList (c :: d :: other)) :=
      hscan c rfl d rfl
    rw [show operator? c (some d) = some (kind, value) from h] at hvalue'
    have heq : value = String.ofList (c :: d :: other) := Option.some.inj hvalue'
    rw [heq, String.toList_ofList] at hvalue
    exact Nat.le_of_eq (congrArg List.length (List.cons.inj hvalue).2)

end Longest

section Pieces

variable {c : Char} {cs : List Char} {kind : TokenKind} {value : String} {n : Nat}

/-- Neither the end of the input nor the semicolon that a line break stands for. -/
def IsWritten (kind : TokenKind) (value : String) : Prop :=
  kind ≠ .eof ∧ ¬ (kind = .semicolon ∧ value = "\n")

instance (kind : TokenKind) (value : String) : Decidable (IsWritten kind value) :=
  inferInstanceAs (Decidable (_ ∧ _))

/-- A token with this kind and value may be read from a lexeme. -/
structure IsReading (lexeme : List Char) (kind : TokenKind) (value : String) : Prop where
  written : IsWritten kind value
  value : kind ≠ .string → value.toList = lexeme
  quoted : kind = .string → IsStringLiteral lexeme

private theorem isWritten_reserved {word : String} (h : reserved? word = some kind) :
    IsWritten kind word ∧ kind ≠ .string := by
  have hall : ∀ p ∈ reservedWords, IsWritten p.2 p.1 ∧ p.2 ≠ .string := by decide
  obtain ⟨before, after, hwords, -⟩ := List.lookup_eq_some_iff.1 h
  apply hall (word, kind)
  rw [hwords]
  exact List.mem_append_right before List.mem_cons_self

private theorem isReading_word (word : List Char) :
    IsReading word ((reserved? (String.ofList word)).getD .identifier) (String.ofList word) := by
  cases h : reserved? (String.ofList word) with
  | none =>
    exact ⟨⟨nofun, nofun⟩, fun _ => String.toList_ofList, nofun⟩
  | some kind =>
    obtain ⟨hwritten, hstring⟩ := isWritten_reserved h
    exact ⟨hwritten, fun _ => String.toList_ofList, fun heq => absurd heq hstring⟩

structure IsScanned (c : Char) (next : Option Char) (kind : TokenKind) (value : String) : Prop where
  known : value ∈ operators
  head : value.toList.head? = some c
  tail : value.toList.tail <+: next.toList
  written : IsWritten kind value
  notString : kind ≠ .string

instance (c : Char) (next : Option Char) (kind : TokenKind) (value : String) :
    Decidable (IsScanned c next kind value) :=
  decidable_of_iff (value ∈ operators ∧ value.toList.head? = some c ∧
      value.toList.tail <+: next.toList ∧ IsWritten kind value ∧ kind ≠ .string)
    ⟨fun ⟨h₁, h₂, h₃, h₄, h₅⟩ => ⟨h₁, h₂, h₃, h₄, h₅⟩,
      fun h => ⟨h.known, h.head, h.tail, h.written, h.notString⟩⟩

theorem forall_mem_of_ite {α : Type} {P : α → Prop} {p : Prop} [Decidable p] {x y : Option α}
    (hx : p → ∀ a ∈ x, P a) (hy : ¬ p → ∀ a ∈ y, P a) : ∀ a ∈ if p then x else y, P a := by
  by_cases hp : p
  · rw [if_pos hp]
    exact hx hp
  · rw [if_neg hp]
    exact hy hp

theorem isScanned_operator (c : Char) (next : Option Char) :
    ∀ p ∈ operator? c next, IsScanned c next p.1 p.2 := by
  unfold operator?
  repeat' refine forall_mem_of_ite (fun _ => ?_) fun _ => ?_
  all_goals rintro _ ⟨⟩
  all_goals subst_vars
  all_goals first
    | decide
    | exact ⟨by decide, by decide, List.nil_prefix, by decide, by decide⟩

/-- All the ways in which a piece can be cut off a text. -/
inductive Cut : Char → List Char → Role → Nat → Prop where
  | blank {c : Char} {cs : List Char} (hc : Text.isBlank c = true) :
      Cut c cs .gap (cs.takeWhile Text.isBlank).length
  | lineComment {cs : List Char} : Cut '/' ('/' :: cs) .gap (('/' :: cs).takeWhile (· ≠ '\n')).length
  | blockComment {cs : List Char} {n : Nat} (hn : commentLength? cs = some n) :
      Cut '/' ('*' :: cs) .gap (n + 1)
  | word {c : Char} {cs : List Char} (hc : isLetter c = true) :
      Cut c cs (.token ((reserved? (String.ofList (c :: cs.takeWhile isWordPart))).getD .identifier)
        (String.ofList (c :: cs.takeWhile isWordPart))) (cs.takeWhile isWordPart).length
  | numeral {c : Char} {cs : List Char} (hc : isDigit c = true)
      (hn : isNumber (c :: cs.takeWhile isNumberPart) = true) :
      Cut c cs (.token .number (String.ofList (c :: cs.takeWhile isNumberPart)))
        (cs.takeWhile isNumberPart).length
  | string {cs value : List Char} {n : Nat} (hn : StringLiteral.length? cs = some n)
      (hvalue : StringLiteral.decode? (cs.take (n - 1)) = some value) :
      Cut '"' cs (.token .string (String.ofList value)) n
  | operator {c : Char} {cs : List Char} {kind : TokenKind} {value : String}
      (hletter : isLetter c = false) (hdigit : isDigit c = false) (hquote : c ≠ '"')
      (hop : operator? c cs.head? = some (kind, value)) :
      Cut c cs (.token kind value) (value.length - 1)

private theorem cut_of_stringPiece {role : Role} (h : stringPiece cs = .ok (role, n)) : Cut '"' cs role n := by
  unfold stringPiece at h
  split at h
  · cases h
  · rename_i hn
    split at h
    · cases h
    · rename_i hvalue
      cases h
      exact .string hn hvalue

theorem and_head?_eq_true {a b : Char} :
    (decide (c = a) && decide (cs.head? = some b)) = true ↔ c = a ∧ ∃ ds, cs = b :: ds := by
  rw [Bool.and_eq_true, decide_eq_true_eq, decide_eq_true_eq, List.head?_eq_some_iff]

theorem cut_of_piece {role : Role} (h : piece c cs = .ok (role, n)) : Cut c cs role n := by
  unfold piece at h
  split at h
  · rename_i hblank
    cases h
    exact .blank hblank
  split at h
  · rename_i hslash
    obtain ⟨rfl, ds, rfl⟩ := and_head?_eq_true.1 hslash
    cases h
    exact .lineComment
  split at h
  · rename_i hslash
    obtain ⟨rfl, ds, rfl⟩ := and_head?_eq_true.1 hslash
    split at h
    · rename_i hn
      cases h
      exact .blockComment hn
    · cases h
  split at h
  · rename_i hletter
    cases h
    exact .word hletter
  split at h
  · rename_i hdigit
    dsimp only at h
    split at h
    · rename_i hnumber
      cases h
      exact .numeral hdigit hnumber
    · cases h
  split at h
  · rename_i hquote
    subst hquote
    exact cut_of_stringPiece h
  split at h
  · rename_i hletter hdigit hquote _ _ _ hop
    cases h
    exact .operator (by simpa using hletter) (by simpa using hdigit) hquote hop
  · cases h

/-- A piece that is a token is the longest lexeme at its place. -/
theorem Cut.token {kind : TokenKind} {value : String} (h : Cut c cs (.token kind value) n) :
    IsLongest (c :: cs.take n) (c :: cs) ∧ IsReading (c :: cs.take n) kind value := by
  cases h with
  | word hletter =>
    rw [take_length_takeWhile]
    exact ⟨isLongest_word hletter, isReading_word _⟩
  | numeral hdigit hnumber =>
    rw [take_length_takeWhile]
    exact ⟨isLongest_numeral hdigit hnumber, ⟨nofun, nofun⟩, fun _ => String.toList_ofList, nofun⟩
  | string hn hvalue =>
    obtain ⟨body, rest, hbody, rfl, rfl⟩ := exists_quotable_of_length? hn
    have htake : (body ++ '"' :: rest).take (body.length + 1) = body ++ ['"'] := by
      rw [List.take_append, List.take_of_length_le (Nat.le_succ _)]
      simp
    rw [htake]
    exact ⟨isLongest_string hbody rest, ⟨nofun, nofun⟩, nofun, fun _ => ⟨body, hbody, rfl⟩⟩
  | operator hletter hdigit hquote hop =>
    obtain ⟨hknown, hhead, htail, hwritten, hstring⟩ := isScanned_operator c cs.head? _ hop
    obtain ⟨ds, hds⟩ := List.head?_eq_some_iff.1 hhead
    rw [hds] at htail
    have hpre : ds <+: cs := htail.trans (by cases cs <;> simp)
    have htake : cs.take (value.length - 1) = ds := by
      rw [← String.length_toList, hds]
      exact (List.prefix_iff_eq_take.1 hpre).symm
    rw [htake]
    exact ⟨isLongest_operator hletter hdigit hquote hop hds hpre hknown, hwritten, fun _ => hds,
      fun heq => absurd heq hstring⟩

theorem commentLength?_eq_some (h : commentLength? cs = some n) :
    ∃ body rest, cs = body ++ '*' :: '/' :: rest ∧ n = body.length + 2 ∧
      ¬ ['*', '/'] <:+: body ++ ['*'] := by
  induction cs generalizing n with
  | nil => cases h
  | cons c cs ih =>
    rw [commentLength?] at h
    split at h
    · rename_i hend
      obtain ⟨rfl, rest, rfl⟩ := and_head?_eq_true.1 hend
      cases h
      exact ⟨[], rest, rfl, rfl, by decide⟩
    · rename_i hend
      obtain ⟨m, hm, rfl⟩ := Option.map_eq_some_iff.1 h
      obtain ⟨body, rest, rfl, rfl, hbody⟩ := ih hm
      refine ⟨c :: body, rest, rfl, rfl, ?_⟩
      intro hinfix
      rcases List.infix_cons_iff.1 hinfix with hpre | hinfix
      · -- The end would start with this character, and the scanner would have stopped.
        obtain ⟨rfl, hnext⟩ := List.cons_prefix_cons.1 hpre
        apply hend
        rw [and_head?_eq_true]
        cases body with
        | nil => exact absurd hnext (by decide)
        | cons d ds =>
          obtain ⟨rfl, -⟩ := List.cons_prefix_cons.1 hnext
          exact ⟨rfl, _, rfl⟩
      · exact hbody hinfix

theorem Cut.gap (h : Cut c cs .gap n) {gap after : List Char} (hrest : cs.drop n = gap ++ after)
    (hgap : Gap after gap) : Gap after (c :: (cs.take n ++ gap)) := by
  cases h with
  | blank hc =>
    rw [take_length_takeWhile]
    have hblank : ∀ ds : List Char, (∀ d ∈ ds, Text.isBlank d = true) → Gap after (ds ++ gap) := by
      intro ds hds
      induction ds with
      | nil => exact hgap
      | cons d ds ih =>
        obtain ⟨hd, hds⟩ := List.forall_mem_cons.1 hds
        exact .blank hd (ih hds)
    exact .blank hc (hblank _ fun _ => mem_takeWhile)
  | @lineComment ds =>
    have htake : ('/' :: ds).takeWhile (· ≠ '\n') = '/' :: ds.takeWhile (· ≠ '\n') := rfl
    rw [take_length_takeWhile, htake]
    rw [htake, List.length_cons, List.drop_succ_cons, drop_length_takeWhile] at hrest
    refine .lineComment (fun d hd => by simpa using mem_takeWhile hd) ?_ hgap
    rw [← hrest]
    intro d hd
    have hhead := List.head?_dropWhile_not (fun c => decide (c ≠ '\n')) ds
    rw [hd] at hhead
    simpa using hhead
  | blockComment hn =>
    obtain ⟨body, rest, rfl, rfl, hbody⟩ := commentLength?_eq_some hn
    have htake : ('*' :: (body ++ '*' :: '/' :: rest)).take (body.length + 2 + 1) =
        '*' :: (body ++ ['*', '/']) := by
      rw [List.take_succ_cons, List.take_append, List.take_of_length_le (by omega)]
      simp
    rw [htake, List.cons_append, List.append_assoc]
    exact .blockComment hbody hgap

end Pieces

end MiniGo.Lexer
