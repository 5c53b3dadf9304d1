import MiniGo.Proofs.Token.Lossless

/-!
Where line breaks stand for semicolons: in the gap behind a token that can end a statement, once, at the
first line break of the gap or at the end of the input. Gaps and offsets are counted in the text itself, so
this holds of sources of any length, with what 32 bits keep of the offsets.
-/
namespace MiniGo

open Text

namespace Lexer

/-- What stands for the gap at `offset` between two written tokens: the semicolon of its first line break if
the token in front of it can end a statement, and nothing otherwise. -/
structure BreaksBefore (ends : Bool) (offset : Nat) (gap : List Char) (between : List Token) : Prop where
  one : ends = true → ∀ before after, gap = before ++ '\n' :: after → '\n' ∉ before →
    between = [Token.lineBreak (offset + byteLength before)]
  none : ends = false ∨ '\n' ∉ gap → between = []

/-- What stands for the gap at `offset` that reaches to the end of the input, which breaks the line if nothing
before it does. -/
structure BreaksAtEnd (ends : Bool) (offset : Nat) (gap : List Char) (between : List Token) : Prop where
  one : ends = true → ∀ before after, gap = before ++ '\n' :: after → '\n' ∉ before →
    between = [Token.lineBreak (offset + byteLength before)]
  atEnd : ends = true → '\n' ∉ gap → between = [Token.lineBreak (offset + byteLength gap)]
  none : ends = false → between = []

/-- The tokens of a text at `offset`: the written ones, which lay out the text, the semicolons that line breaks
in its gaps stand for, and the end of the input. `ends` says whether a token in front of the text can end a
statement. -/
inductive Punctuated : Bool → Nat → List Char → List Token → Prop where
  | last {ends : Bool} {offset : Nat} {gap : List Char} {between : List Token} (hgap : Gap [] gap)
      (hbetween : BreaksAtEnd ends offset gap between) :
      Punctuated ends offset gap (between ++ [Token.endOfInput (.ofNat (offset + byteLength gap))])
  | token {ends : Bool} {offset : Nat} {gap lexeme rest : List Char} {between tokens : List Token} {t : Token}
      (ht : Stands t offset gap lexeme rest) (hbetween : BreaksBefore ends offset gap between)
      (h : Punctuated t.kind.endsStatement (offset + byteLength gap + byteLength lexeme) rest tokens) :
      Punctuated ends offset (gap ++ (lexeme ++ rest)) (between ++ t :: tokens)

section Breaks

variable {pending : Bool} {offset : Nat} {before gap text : List Char} {tokens : List Token}

private theorem lineBreak?_first (after : List Char) (h : '\n' ∉ before) :
    lineBreak? (before ++ '\n' :: after) = some (byteLength before) := by
  rw [lineBreak?_append, lineBreak?_eq_none.2 h]
  simp [lineBreak?]

private theorem breaks_first (offset : Nat) (after : List Char) (h : '\n' ∉ before) :
    breaks offset true (before ++ '\n' :: after) = [Token.lineBreak (offset + byteLength before)] := by
  simp [breaks, lineBreak?_first after h]

private theorem staysPending_first (after : List Char) (h : '\n' ∉ before) :
    staysPending true (before ++ '\n' :: after) = false := by
  simp [staysPending, lineBreak?_first after h]

private theorem breaks_of_notMem (offset : Nat) (pending : Bool) (h : '\n' ∉ gap) :
    breaks offset pending gap = [] := by
  cases pending <;> simp [breaks, lineBreak?_eq_none.2 h]

theorem breaksBefore_breaks : BreaksBefore pending offset gap (breaks offset pending gap) := by
  constructor
  · rintro rfl before after rfl hbefore
    exact breaks_first _ after hbefore
  · rintro (rfl | hgap)
    · rfl
    · exact breaks_of_notMem _ _ hgap

def breaksAtEnd (offset : Nat) (pending : Bool) (gap : List Char) : List Token :=
  breaks offset pending gap ++
    if staysPending pending gap then [Token.lineBreak (offset + byteLength gap)] else []

theorem breaksAtEnd_breaksAtEnd : BreaksAtEnd pending offset gap (breaksAtEnd offset pending gap) := by
  constructor
  · rintro rfl before after rfl hbefore
    rw [breaksAtEnd, breaks_first _ after hbefore, staysPending_first after hbefore]
    rfl
  · rintro rfl hgap
    simp [breaksAtEnd, breaks_of_notMem _ _ hgap, staysPending, lineBreak?_eq_none.2 hgap]
  · rintro rfl
    rfl

theorem Scan.punctuated (h : Scan offset pending text tokens) : Punctuated pending offset text tokens := by
  induction h with
  | last hgap =>
    rw [closing, ← List.append_assoc]
    exact .last hgap breaksAtEnd_breaksAtEnd
  | token hgap hbegins _ ih => exact .token (hbegins.stands hgap _) breaksBefore_breaks ih

end Breaks

end Lexer

/-- Line breaks stand for semicolons exactly where they end a statement. There is no such semicolon in
front of the first written token; between two written tokens, and between the last one and the end of
the input, there is one or none as the text between them says. -/
theorem tokenize_semicolons {source file : String} {tokens : List Token}
    (h : tokenize source file = .ok tokens) : Lexer.Punctuated false 0 source.toList tokens :=
  (Lexer.scan_of_tokensFrom h).punctuated

theorem tokenize_semicolons_comment :
    tokenize "x /*\n\n*/ y" "shell" = .ok [⟨.identifier, "x", 0, 1⟩, Token.lineBreak 4,
        ⟨.identifier, "y", 9, 10⟩, Token.lineBreak 10, Token.endOfInput 10] ∧
      Lexer.Punctuated false 0 "x /*\n\n*/ y".toList [⟨.identifier, "x", 0, 1⟩, Token.lineBreak 4,
        ⟨.identifier, "y", 9, 10⟩, Token.lineBreak 10, Token.endOfInput 10] := by
  have hgap : Lexer.Gap ['y'] [' ', '/', '*', '\n', '\n', '*', '/', ' '] :=
    .blank rfl (.blockComment (show ¬ ['*', '/'] <:+: ['\n', '\n'] ++ ['*'] by decide) (.blank rfl .nil))
  have hscan : Lexer.Scan 1 true ([' ', '/', '*', '\n', '\n', '*', '/', ' '] ++ ['y']) _ :=
    .token hgap (show Lexer.Begins 'y' [] [] .identifier "y" from rfl) (.last .nil)
  have hbegins : Lexer.Begins 'x' [] ([' ', '/', '*', '\n', '\n', '*', '/', ' '] ++ ['y']) .identifier
      "x" := rfl
  have htokens : tokenize "x /*\n\n*/ y" "shell" = _ :=
    Lexer.tokensFrom_eq_ok_iff.2 (.token (show Lexer.Gap ('x' :: _) [] from .nil) hbegins hscan)
  exact ⟨htokens, tokenize_semicolons htokens⟩

end MiniGo
