import Mathlib.Data.List.Forall2
import MiniGo.FrontEnd
import MiniGo.Proofs.Grammar.Tracking.Statements
import MiniGo.Proofs.Token.Semicolons

/-!
How a source is spaced does not matter. Other white space and comments between the lexemes of a source,
with line breaks in the same gaps, leave its tokens as they are up to their places, and tokens that differ
in their places give the same tree or fail with the same cause.
-/
namespace MiniGo

open Text

namespace Lexer

/-- White space, complete block comments, and line comments each with the line break that ends it. -/
inductive Trivia : List Char → Prop where
  | nil : Trivia []
  | blank {c : Char} {cs : List Char} (hc : isBlank c = true) (h : Trivia cs) : Trivia (c :: cs)
  | lineComment {body rest : List Char} (hbody : '\n' ∉ body) (h : Trivia rest) :
      Trivia ('/' :: '/' :: (body ++ '\n' :: rest))
  | blockComment {body rest : List Char} (hbody : ¬ ['*', '/'] <:+: body ++ ['*'])
      (h : Trivia rest) : Trivia ('/' :: '*' :: (body ++ '*' :: '/' :: rest))

/-- The gap stays as it is, or becomes trivia that starts with a blank and has a line break if the gap
had one. -/
def Replaces (gap gap' : List Char) : Prop :=
  gap' = gap ∨ Trivia gap' ∧ (∃ c ∈ gap'.head?, isBlank c = true) ∧ ('\n' ∈ gap' ↔ '\n' ∈ gap)

/-- A gap in front of each lexeme and one behind the last. -/
def weave : List (List Char) → List (List Char) → List Char
  | gap :: gaps, lexeme :: lexemes => gap ++ (lexeme ++ weave gaps lexemes)
  | gap :: _, [] => gap
  | [], _ => []

section Gaps

variable {gap gap' after after' : List Char}

theorem Trivia.isGap (h : Trivia gap) (after : List Char) : Gap after gap := by
  induction h with
  | nil => exact .nil
  | blank hc _ ih => exact .blank hc ih
  | lineComment hbody _ ih =>
    refine .lineComment (fun c hc heq => hbody (heq ▸ hc)) ?_ (.blank rfl ih)
    rintro c ⟨⟩
    rfl
  | blockComment hbody _ ih => exact .blockComment hbody ih

theorem Replaces.isGap (h : Replaces gap gap') (hgap : Gap after gap)
    (hafter : after'.head? = after.head?) : Gap after' gap' := by
  rcases h with rfl | ⟨htrivia, -, -⟩
  · exact hgap.congr hafter
  · exact htrivia.isGap after'

theorem Replaces.newline (h : Replaces gap gap') : '\n' ∈ gap' ↔ '\n' ∈ gap := by
  rcases h with rfl | ⟨-, -, hnewline⟩
  · rfl
  · exact hnewline

theorem Replaces.endsAlike (h : Replaces gap gap') (hafter : after'.head? = after.head?) :
    EndsAlike (gap ++ after) (gap' ++ after') := by
  rcases h with rfl | ⟨-, ⟨c, hc, hblank⟩, -⟩
  · left
    rw [List.head?_append, hafter, List.head?_append]
  · right
    intro d hd
    rw [List.head?_append, Option.mem_def.1 hc] at hd
    cases hd
    exact hblank

theorem Replaces.isNone_lineBreak? (h : Replaces gap gap') :
    (lineBreak? gap').isNone = (lineBreak? gap).isNone := by
  rw [Bool.eq_iff_iff, Option.isNone_iff_eq_none, Option.isNone_iff_eq_none, lineBreak?_eq_none,
    lineBreak?_eq_none, h.newline]

theorem Replaces.staysPending (h : Replaces gap gap') (pending : Bool) :
    staysPending pending gap' = staysPending pending gap := by
  rw [Lexer.staysPending, Lexer.staysPending, h.isNone_lineBreak?]

theorem Replaces.breaks (h : Replaces gap gap') (pending : Bool) (offset offset' : Nat) :
    (breaks offset' pending gap').map Token.content = (breaks offset pending gap).map Token.content := by
  have hnone := h.isNone_lineBreak?
  revert hnone
  unfold Lexer.breaks
  cases pending <;> cases lineBreak? gap <;> cases lineBreak? gap' <;> simp [Token.lineBreak,
    Token.content]

private theorem closing_content (pending : Bool) (offset offset' : Nat) :
    (closing offset' pending).map Token.content = (closing offset pending).map Token.content := by
  cases pending <;> rfl

end Gaps

theorem Lays.weave {offset : Nat} {text : List Char} {ts : List Token} {gaps lexemes : List (List Char)}
    (h : Lays offset text ts gaps lexemes) : Lexer.weave gaps lexemes = text := by
  induction h with
  | nil => rfl
  | cons _ _ ih => rw [Lexer.weave, ih]

/-- A text is made of its gaps and lexemes, and if the gaps are replaced, the tokens keep their contents
wherever the text lies. -/
theorem Scan.respace {offset : Nat} {pending : Bool} {text : List Char} {tokens : List Token}
    (h : Scan offset pending text tokens) :
    ∃ gaps lexemes, Lays offset text (tokens.filter fun t => t.IsWritten) gaps lexemes ∧
      ∀ offset' gaps', List.Forall₂ Replaces gaps gaps' →
        EndsAlike text (Lexer.weave gaps' lexemes) ∧
          ∃ tokens', Scan offset' pending (Lexer.weave gaps' lexemes) tokens' ∧
            tokens'.map Token.content = tokens.map Token.content := by
  induction h with
  | @last offset pending gap hgap =>
    rw [written_last]
    refine ⟨[gap], [], .nil hgap, fun offset' gaps' hgaps => ?_⟩
    obtain ⟨gap', _, hreplaces, hnil, rfl⟩ := List.forall₂_cons_left_iff.1 hgaps
    obtain rfl := List.forall₂_nil_left_iff.1 hnil
    have hscan : Scan offset' pending gap' _ := .last (hreplaces.isGap hgap rfl)
    refine ⟨?_, _, hscan, ?_⟩
    · have hends : EndsAlike (gap ++ []) (gap' ++ []) := hreplaces.endsAlike rfl
      rwa [List.append_nil, List.append_nil] at hends
    · rw [List.map_append, List.map_append, hreplaces.breaks pending offset, hreplaces.staysPending,
        closing_content]
  | @token offset pending gap c cs rest kind value tokens hgap hbegins _ ih =>
    obtain ⟨gaps, lexemes, hlays, hrespace⟩ := ih
    rw [hbegins.written_token]
    refine ⟨gap :: gaps, (c :: cs) :: lexemes, .cons (hbegins.stands hgap offset) hlays, ?_⟩
    intro offset' gaps' hgaps
    obtain ⟨gap', gaps', hreplaces, hrest, rfl⟩ := List.forall₂_cons_left_iff.1 hgaps
    -- The lexeme is followed by the same character as before, or by a blank.
    obtain ⟨hends, tokens', hscan, hcontent⟩ :=
      hrespace (offset' + byteLength gap' + byteLength (c :: cs)) gaps' hrest
    have hgap' : Gap (c :: (cs ++ Lexer.weave gaps' lexemes)) gap' := hreplaces.isGap hgap rfl
    have hscan' : Scan offset' pending _ _ := .token hgap' (hbegins.congr hends) hscan
    refine ⟨hreplaces.endsAlike rfl, _, hscan', ?_⟩
    simp only [List.map_append, List.map_cons, hreplaces.breaks pending offset, hcontent]
    rfl

end Lexer

theorem Grammar.tokensBeside_of_endsAt {offset : Nat} {tokens tokens' : List Token}
    (hends : Lexer.EndsAt offset tokens) (h : tokens'.map Token.content = tokens.map Token.content) :
    TokensBeside none tokens tokens' := by
  obtain ⟨init, rfl, hinit⟩ := hends
  rw [List.map_append, List.map_singleton, List.map_eq_append_iff] at h
  obtain ⟨init', last, rfl, hcontent, hlast⟩ := h
  obtain ⟨e', rfl, he'⟩ := List.map_eq_singleton_iff.1 hlast
  exact .append hinit hcontent (.last rfl rfl (Token.alike_of_content he'))

/-- The places of tokens have no influence on the tree, nor on why there is none. -/
theorem Node.ofTokens_congr {offset : Nat} {tokens tokens' : List Token}
    (hends : Lexer.EndsAt offset tokens) (h : tokens'.map Token.content = tokens.map Token.content)
    (file : String) (limit : Nat) :
    (Node.ofTokens tokens' file limit).mapError Error.cause =
      (Node.ofTokens tokens file limit).mapError Error.cause := by
  have hbeside := Grammar.tokensBeside_of_endsAt hends h
  let v : Grammar.View := ⟨⟨file, limit, .standard⟩, rfl, none, 0⟩
  have hmatched := Grammar.program_tracks.beside
    (v.beside_ofTokens rfl (Grammar.tokensBeside_of_endsAt hends rfl) hbeside.right hbeside)
  unfold Node.ofTokens
  revert hmatched
  generalize Grammar.program _ _ = r, Grammar.program _ _ = r'
  intro hmatched
  cases hmatched with
  | ok => rfl
  | lost _ hlost => exact absurd rfl hlost.seam
  | error he =>
    obtain ⟨e', t', rfl, hcause⟩ := he rfl
    exact congrArg Except.error hcause

/-- A source is made of its gaps and its lexemes. Other gaps, each with a blank in front and with a line
break if the old one had one, leave the kinds and the values of the tokens as they are, and with them the
tree, or the cause of the error if there is none. -/
theorem parseTree_respace {source file : String} {tokens : List Token}
    (h : tokenize source file = .ok tokens) :
    ∃ gaps lexemes, Lexer.Lays 0 source.toList (tokens.filter fun t => t.IsWritten) gaps lexemes ∧
      Lexer.weave gaps lexemes = source.toList ∧
      ∀ gaps', List.Forall₂ Lexer.Replaces gaps gaps' →
        let respaced := String.ofList (Lexer.weave gaps' lexemes)
        (∃ tokens', tokenize respaced file = .ok tokens' ∧
          tokens'.map Token.content = tokens.map Token.content) ∧
        ∀ o, (parseTree respaced o).mapError Error.cause = (parseTree source o).mapError Error.cause := by
  have hscan := Lexer.scan_of_tokensFrom h
  obtain ⟨gaps, lexemes, hlays, hrespace⟩ := hscan.respace
  refine ⟨gaps, lexemes, hlays, hlays.weave, fun gaps' hgaps => ?_⟩
  intro respaced
  obtain ⟨-, tokens', hscan', hcontent⟩ := hrespace 0 gaps' hgaps
  have htokenize : ∀ file, tokenize source file = .ok tokens :=
    fun file => Lexer.tokensFrom_eq_ok_iff.2 hscan
  have htokenize' : ∀ file, tokenize respaced file = .ok tokens' := by
    intro file
    rw [tokenize, String.toList_ofList]
    exact Lexer.tokensFrom_eq_ok_iff.2 hscan'
  refine ⟨⟨tokens', htokenize' file, hcontent⟩, fun o => ?_⟩
  rw [parseTree, parseTree, htokenize, htokenize']
  exact Node.ofTokens_congr hscan.endsAt hcontent o.file o.maxDepth

theorem parseTree_respace_comment :
    tokenize "x\n" "shell" = .ok [⟨.identifier, "x", 0, 1⟩, Token.lineBreak 1, Token.endOfInput 2] ∧
      ∀ o, (parseTree " x // y\n" o).mapError Error.cause =
        (parseTree "x\n" o).mapError Error.cause := by
  have htokens : tokenize "x\n" "shell" = _ :=
    Lexer.tokensFrom_eq_ok_iff.2 (.token (show Lexer.Gap ['x', '\n'] [] from .nil)
      (show Lexer.Begins 'x' [] ['\n'] .identifier "x" from rfl) (.last (.blank rfl .nil)))
  have hfirst : Lexer.Replaces [] [' '] := .inr ⟨.blank rfl .nil, ⟨' ', rfl, rfl⟩, by decide⟩
  have hsecond : Lexer.Replaces ['\n'] [' ', '/', '/', ' ', 'y', '\n'] :=
    .inr ⟨.blank rfl (.lineComment (show '\n' ∉ [' ', 'y'] by decide) .nil), ⟨' ', rfl, rfl⟩,
      by decide⟩
  obtain ⟨gaps, lexemes, hlays, -, hrespace⟩ := parseTree_respace htokens
  obtain ⟨rfl, rfl⟩ := hlays.slices [] rfl (by decide)
  exact ⟨htokens, (hrespace _ (.cons hfirst (.cons hsecond .nil))).2⟩

end MiniGo
