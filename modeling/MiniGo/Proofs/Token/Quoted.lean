import MiniGo.Proofs.Token.Truncation

/-!
String literals unit by unit. A literal is a sequence of units between quotes, each a character or an escape
with a text that it denotes; the literal denotes these texts in order. The scan for the closing quote and the
resolution of the escapes cut a literal into the same units.
-/
namespace MiniGo

open Text

namespace StringLiteral
open Lexer

def escapes : List (Char × Char) :=
  [('n', '\n'), ('t', '\t'), ('r', '\r'), ('0', '\x00'), ('\\', '\\'), ('"', '"')]

def hexDigits : List (Char × Nat) := "0123456789abcdef".toList.zipIdx ++ "ABCDEF".toList.zipIdx 10

/-- The first text is a unit of a literal, and denotes the second. -/
inductive Denotes : List Char → List Char → Prop where
  | plain {c : Char} (hquote : c ≠ '"') (hbackslash : c ≠ '\\') (hbreak : c ≠ '\n') : Denotes [c] [c]
  | escape {c d : Char} (h : (c, d) ∈ escapes) : Denotes ['\\', c] [d]
  | code {a b : Char} {high low : Nat} (ha : (a, high) ∈ hexDigits) (hb : (b, low) ∈ hexDigits) :
      Denotes ['\\', 'x', a, b] [Char.ofNat (16 * high + low)]
  | unknown {c : Char} (hbreak : c ≠ '\n') (hx : c ≠ 'x') (hother : ∀ d, (c, d) ∉ escapes) :
      Denotes ['\\', c] ['\\', c]

/-- The text behind `\x` is a character code. -/
def StartsWithCode (cs : List Char) : Prop :=
  ∃ a high b low rest, (a, high) ∈ hexDigits ∧ (b, low) ∈ hexDigits ∧ cs = a :: b :: rest

section Units

variable {unit value body front back rest : List Char} {c : Char} {n : Nat}

theorem hexValue?_eq_some : hexValue? c = some n ↔ (c, n) ∈ hexDigits := by
  have h9 : ('9' : Char).val.toNat = 57 := rfl
  have hf : ('f' : Char).val.toNat = 102 := rfl
  have hF : ('F' : Char).val.toNat = 70 := rfl
  have hdigits : ∀ k < 103, ∀ n ∈ hexValue? (Char.ofNat k), (Char.ofNat k, n) ∈ hexDigits := by decide
  have hvalues : ∀ p ∈ hexDigits, hexValue? p.1 = some p.2 := by decide
  constructor
  · intro h
    have hc : c.toNat < 103 := by
      have hsome := h
      unfold hexValue? at hsome
      simp only [Bool.and_eq_true, decide_eq_true_eq, Char.le_def, UInt32.le_iff_toNat_le] at hsome
      unfold Char.toNat
      split at hsome
      · omega
      split at hsome
      · omega
      split at hsome
      · omega
      · cases hsome
    have hmem := hdigits c.toNat hc n
    rw [Char.ofNat_toNat] at hmem
    exact hmem h
  · exact hvalues (c, n)

private theorem simpleEscape_of_mem {d : Char} (h : (c, d) ∈ escapes) : c ≠ 'x' ∧ simpleEscape c = [d] := by
  have hall : ∀ p ∈ escapes, p.1 ≠ 'x' ∧ simpleEscape p.1 = [p.2] := by decide
  exact hall (c, d) h

private theorem simpleEscape_of_notMem (h : ∀ d, (c, d) ∉ escapes) : simpleEscape c = ['\\', c] := by
  have hne : ∀ p ∈ escapes, c ≠ p.1 := by
    rintro p hp rfl
    exact h p.2 hp
  simp only [escapes, List.forall_mem_cons] at hne
  simp [simpleEscape, hne]

private theorem decode?_plain (hc : c ≠ '\\') (rest : List Char) :
    decode? (c :: rest) = (decode? rest).map (c :: ·) := by
  rw [decode?.eq_def]
  simp only [if_neg hc]

private theorem decode?_escape (hc : c ≠ 'x') (rest : List Char) :
    decode? ('\\' :: c :: rest) = (decode? rest).map (simpleEscape c ++ ·) := by
  rw [decode?.eq_def]
  simp only [if_true, if_neg hc]

private theorem decode?_code {a b : Char} {high low : Nat} (ha : (a, high) ∈ hexDigits)
    (hb : (b, low) ∈ hexDigits) (rest : List Char) :
    decode? ('\\' :: 'x' :: a :: b :: rest) =
      (decode? rest).map (Char.ofNat (16 * high + low) :: ·) := by
  rw [decode?.eq_def]
  simp only [if_true, hexValue?_eq_some.2 ha, hexValue?_eq_some.2 hb]

theorem Denotes.decode? (h : Denotes unit value) (rest : List Char) :
    decode? (unit ++ rest) = (decode? rest).map (value ++ ·) := by
  cases h with
  | plain hquote hbackslash hbreak => exact decode?_plain hbackslash rest
  | escape h =>
    obtain ⟨hx, hescape⟩ := simpleEscape_of_mem h
    exact hescape ▸ decode?_escape hx rest
  | code ha hb => exact decode?_code ha hb rest
  | @unknown c hbreak hx hother =>
    have hrun := decode?_escape hx rest
    rwa [simpleEscape_of_notMem hother] at hrun

theorem ne_of_mem_hexDigits (h : (c, n) ∈ hexDigits) : c ≠ '"' ∧ c ≠ '\\' ∧ c ≠ '\n' := by
  have hall : ∀ p ∈ hexDigits, p.1 ≠ '"' ∧ p.1 ≠ '\\' ∧ p.1 ≠ '\n' := by decide
  exact hall (c, n) h

theorem Denotes.quotable (h : Denotes unit value) (hrest : Quotable rest) : Quotable (unit ++ rest) := by
  cases h with
  | plain hquote hbackslash hbreak => exact .plain hquote hbackslash hbreak hrest
  | escape h =>
    have hall : ∀ p ∈ escapes, p.1 ≠ '\n' := by decide
    exact .escape (hall _ h) hrest
  | code ha hb =>
    obtain ⟨haq, has, han⟩ := ne_of_mem_hexDigits ha
    obtain ⟨hbq, hbs, hbn⟩ := ne_of_mem_hexDigits hb
    exact .escape (by decide) (.plain haq has han (.plain hbq hbs hbn hrest))
  | unknown hbreak _ _ => exact .escape hbreak hrest

section Sequences

variable {units : List (List Char × List Char)}

theorem quotable_of_units (h : ∀ u ∈ units, Denotes u.1 u.2) : Quotable (units.flatMap Prod.fst) := by
  induction units with
  | nil => exact .nil
  | cons u units ih =>
    obtain ⟨hu, hunits⟩ := List.forall_mem_cons.1 h
    exact hu.quotable (ih hunits)

theorem decode?_of_units (h : ∀ u ∈ units, Denotes u.1 u.2) :
    decode? (units.flatMap Prod.fst) = some (units.flatMap Prod.snd) := by
  induction units with
  | nil => rfl
  | cons u units ih =>
    obtain ⟨hu, hunits⟩ := List.forall_mem_cons.1 h
    rw [List.flatMap_cons, List.flatMap_cons, hu.decode?, ih hunits]
    rfl

end Sequences

theorem exists_behind_plain (hfront : Quotable front) (hc : c ≠ '\\')
    (h : front ++ '\\' :: back = c :: rest) :
    ∃ front', Quotable front' ∧ front' ++ '\\' :: back = rest := by
  cases hfront with
  | nil => exact absurd (List.cons.inj h).1.symm hc
  | plain _ _ _ hfront => exact ⟨_, hfront, (List.cons.inj h).2⟩
  | escape _ hfront => exact absurd (List.cons.inj h).1.symm hc

private theorem behind_escape (hfront : Quotable front) (h : front ++ '\\' :: 'x' :: back = '\\' :: c :: rest) :
    (c = 'x' ∧ back = rest) ∨ ∃ front', Quotable front' ∧ front' ++ '\\' :: 'x' :: back = rest := by
  cases hfront with
  | nil =>
    obtain ⟨hc, hback⟩ := List.cons.inj (List.cons.inj h).2
    exact .inl ⟨hc.symm, hback⟩
  | plain _ hbackslash => exact absurd (List.cons.inj h).1 hbackslash
  | escape _ hfront => exact .inr ⟨_, hfront, (List.cons.inj (List.cons.inj h).2).2⟩

/-- The units of a literal are resolved one by one up to a bad escape, and the whole fails there. -/
theorem decode?_badEscape (hfront : Quotable front) (hback : ¬ StartsWithCode back) :
    decode? (front ++ '\\' :: 'x' :: back) = none := by
  generalize htext : front ++ '\\' :: 'x' :: back = text
  fun_induction decode? text generalizing front with
  | case1 => simp at htext
  | case2 =>
    have hlength := congrArg List.length htext
    simp only [List.length_append, List.length_cons, List.length_nil] at hlength
    omega
  | case3 a b rest high low hb ha ih =>
    have ha' := hexValue?_eq_some.1 ha
    have hb' := hexValue?_eq_some.1 hb
    rcases behind_escape hfront htext with ⟨-, hrest⟩ | ⟨front, hfront, htext⟩
    · exact absurd ⟨a, high, b, low, rest, ha', hb', hrest⟩ hback
    · obtain ⟨front, hfront, htext⟩ := exists_behind_plain hfront (ne_of_mem_hexDigits ha').2.1 htext
      obtain ⟨front, hfront, htext⟩ := exists_behind_plain hfront (ne_of_mem_hexDigits hb').2.1 htext
      rw [ih hfront htext]
      rfl
  | case4 => rfl
  | case5 => rfl
  | case6 d ds hd ih =>
    rcases behind_escape hfront htext with ⟨hx, -⟩ | ⟨front, hfront, htext⟩
    · exact absurd hx hd
    · rw [ih hfront htext]
      rfl
  | case7 d ds hd ih =>
    obtain ⟨front, hfront, htext⟩ := exists_behind_plain hfront hd htext
    rw [ih hfront htext]
    rfl

end Units

end StringLiteral

namespace Lexer

section Quoted

variable {file : String} {body value after text : List Char} {units : List (List Char × List Char)}

@[simp] theorem piece_quote (cs : List Char) : piece '"' cs = stringPiece cs := by
  simp [piece, isBlank, isLetter, isDigit]

theorem begins_string (h : ∀ u ∈ units, StringLiteral.Denotes u.1 u.2) (after : List Char) :
    Begins '"' (units.flatMap Prod.fst ++ ['"']) after .string
      (String.ofList (units.flatMap Prod.snd)) := by
  have hlength := (StringLiteral.quotable_of_units h).length? after
  have hdecode : StringLiteral.decode? ((units.flatMap Prod.fst ++ '"' :: after).take
      ((units.flatMap Prod.fst).length + 1 - 1)) = some (units.flatMap Prod.snd) := by
    rw [Nat.add_sub_cancel, List.take_left]
    exact StringLiteral.decode?_of_units h
  unfold Begins
  rw [List.append_assoc, List.singleton_append, piece_string hlength hdecode]
  simp

theorem piece_badEscape (hbody : Quotable body) (hdecode : StringLiteral.decode? body = none)
    (after : List Char) :
    piece '"' (body ++ '"' :: after) = .error (.invalidEscape (String.ofList ('"' :: (body ++ ['"'])))) := by
  have htake : (body ++ '"' :: after).take (body.length + 1) = body ++ ['"'] := by
    rw [List.take_append, List.take_of_length_le (Nat.le_succ _)]
    simp
  rw [piece_quote, stringPiece, hbody.length? after]
  simp only [Nat.add_sub_cancel, List.take_left, hdecode, htake]

theorem piece_unterminated (h : ∀ body, Quotable body → ¬ body ++ ['"'] <+: text) :
    piece '"' text = .error (.unterminatedString (String.ofList (firstLine ('"' :: text)))) := by
  have hlength : StringLiteral.length? text = none := by
    rw [Option.eq_none_iff_forall_ne_some]
    intro n hn
    obtain ⟨body, rest, hbody, rfl, -⟩ := exists_quotable_of_length? hn
    exact h body hbody ⟨rest, by simp⟩
  rw [piece_quote, stringPiece, hlength]

end Quoted

end Lexer

/-- A string literal is read unit by unit. Where the lexer stands at a double quote, a sequence of units and
another double quote behind it are one token that covers them with both quotes, and whose value is what the
units denote, in order; the lexer goes on behind it. With an `x` escape without two hexadecimal digits in a text
up to a closing quote, or without a closing quote on the line, the run fails at the opening quote. -/
theorem tokenize_string {source file : String} {before text : List Char} {found : List Token} {pending : Bool}
    (hsource : source.toList = before ++ '"' :: text)
    (hreads : Lexer.Reads ('"' :: text) 0 false before found pending) :
    (∀ (units : List (List Char × List Char)) (after : List Char),
      (∀ u ∈ units, StringLiteral.Denotes u.1 u.2) → text = units.flatMap Prod.fst ++ '"' :: after →
      let quoted := '"' :: (units.flatMap Prod.fst ++ ['"'])
      let stop := byteLength before + byteLength quoted
      let read := found ++
        [⟨.string, String.ofList (units.flatMap Prod.snd), .ofNat (byteLength before), .ofNat stop⟩]
      Lexer.Reads after 0 false (before ++ quoted) read true ∧
        tokenize source file = (Lexer.tokensFrom file stop true after).map (read ++ ·)) ∧
    (∀ front back after, Lexer.Quotable front → ¬ StringLiteral.StartsWithCode back →
      Lexer.Quotable (front ++ '\\' :: 'x' :: back) → text = front ++ '\\' :: 'x' :: back ++ '"' :: after →
      tokenize source file = .error
        ⟨.invalidEscape (String.ofList ('"' :: (front ++ '\\' :: 'x' :: back ++ ['"']))),
          ⟨.ofNat (byteLength before), file⟩⟩) ∧
    ((∀ body, Lexer.Quotable body → ¬ body ++ ['"'] <+: text) →
      tokenize source file = .error
        ⟨.unterminatedString (String.ofList (Lexer.firstLine ('"' :: text))),
          ⟨.ofNat (byteLength before), file⟩⟩) := by
  have herror : ∀ cause, Lexer.piece '"' text = .error cause →
      tokenize source file = .error ⟨cause, ⟨.ofNat (byteLength before), file⟩⟩ := by
    intro cause hcause
    rw [tokenize, hsource, hreads.tokensFrom, Lexer.tokensFrom_of_errorPiece hcause, Nat.zero_add]
    rfl
  refine ⟨?_, ?_, ?_⟩
  · rintro units after hunits rfl quoted stop read
    have hbegins : Lexer.Begins '"' (units.flatMap Prod.fst ++ ['"']) ([] ++ after) .string _ :=
      Lexer.begins_string hunits after
    have hsplit : '"' :: (units.flatMap Prod.fst ++ '"' :: after) = quoted ++ after := by simp [quoted]
    have hquoted : Lexer.Reads after (0 + byteLength before) pending (quoted ++ [])
        [.covering .string _ (0 + byteLength before) quoted] true :=
      .token hbegins .nil
    rw [List.append_nil] at hquoted
    rw [hsplit] at hreads hsource
    have hread := hreads.append hquoted
    rw [Nat.zero_add] at hread
    refine ⟨hread, ?_⟩
    rw [tokenize, hsource, ← List.append_assoc, hread.tokensFrom, Nat.zero_add, byteLength_append]
    rfl
  · rintro front back after hfront hback hbody rfl
    exact herror _ (Lexer.piece_badEscape hbody (StringLiteral.decode?_badEscape hfront hback) after)
  · intro hopen
    exact herror _ (Lexer.piece_unterminated hopen)

theorem tokenize_string_units :
    let source := String.ofList ['x', ':', '=', '"', 'a', '\\', 'x', '4', '1', '\\', 'q', '\\', '"', '"']
    let units := [(['a'], ['a']), (['\\', 'x', '4', '1'], ['A']), (['\\', 'q'], ['\\', 'q']),
      (['\\', '"'], ['"'])]
    let found := [⟨.identifier, "x", 0, 1⟩, ⟨.define, ":=", 1, 3⟩]
    source.toList = ['x', ':', '='] ++ '"' :: (units.flatMap Prod.fst ++ ['"']) ∧
      Lexer.Reads ('"' :: (units.flatMap Prod.fst ++ ['"'])) 0 false ['x', ':', '='] found false ∧
      (∀ u ∈ units, StringLiteral.Denotes u.1 u.2) ∧
      tokenize source "shell" = .ok (found ++ [⟨.string, "aA\\q\"", 3, 14⟩, Token.lineBreak 14,
        Token.endOfInput 14]) := by
  intro source units found
  have hsource : source.toList = ['x', ':', '='] ++ '"' :: (units.flatMap Prod.fst ++ ['"']) :=
    String.toList_ofList
  have hname : Lexer.Begins 'x' [] ([':', '='] ++ '"' :: (units.flatMap Prod.fst ++ ['"'])) .identifier "x" :=
    rfl
  have hdefine : Lexer.Begins ':' ['='] ('"' :: (units.flatMap Prod.fst ++ ['"'])) .define ":=" := rfl
  have hreads : Lexer.Reads ('"' :: (units.flatMap Prod.fst ++ ['"'])) 0 false ['x', ':', '='] found
      false := .token hname (.token hdefine .nil)
  have hother : ∀ d, ('q', d) ∉ StringLiteral.escapes := by simp [StringLiteral.escapes]
  have hfour : ('4', 4) ∈ StringLiteral.hexDigits := by decide
  have hone : ('1', 1) ∈ StringLiteral.hexDigits := by decide
  have hunits : ∀ u ∈ units, StringLiteral.Denotes u.1 u.2 := by
    simp only [units, List.forall_mem_cons]
    exact ⟨.plain (by decide) (by decide) (by decide), .code hfour hone,
      .unknown (by decide) (by decide) hother, .escape (by decide), nofun⟩
  refine ⟨hsource, hreads, hunits, ?_⟩
  rw [((tokenize_string hsource hreads).1 units [] hunits rfl).2, Lexer.tokensFrom_nil]
  rfl

end MiniGo
