import MiniGo.Proofs.Grammar.Brackets
import MiniGo.Proofs.Grammar.Source
import MiniGo.Proofs.Grammar.Spacing
import MiniGo.Proofs.Program.Conversion
import MiniGo.Proofs.Token.Places

/-!
Errors of the front end. What is said against a source is said at a place in the source, by the lexer for a
lexical reason and by the rules for one of four; what is said against a tree is said nowhere, since trees
have no places. The causes that only a defect of the rules could give never come up.
-/
namespace MiniGo

open Text Grammar

/-- What the rules say against tokens. -/
inductive Cause.OfRules : Cause → Prop where
  | unexpected (token message : String) : OfRules (.unexpectedTokenDetailed token message)
  | arraySize (token : String) : OfRules (.invalidArraySize token)
  | untyped (name : String) : OfRules (.missingType name)
  | tooDeep (limit : Nat) : OfRules (.limitExceeded limit)

/-- What the check says against trees. -/
inductive Cause.OfCheck : Cause → Prop where
  | child (node : NodeKind) (field expected : String) (found : NodeKind) :
      OfCheck (.invalidChild node field expected found)
  | node (node : NodeKind) (message : String) : OfCheck (.invalidNode node message)
  | tooDeep (limit : Nat) : OfCheck (.limitExceeded limit)

theorem Text.IsBoundary.le {offset : Nat} {text : List Char} (h : IsBoundary offset text) :
    offset ≤ byteLength text := by
  obtain ⟨before, after, rfl, rfl⟩ := h
  rw [byteLength_append]
  exact Nat.le_add_right _ _

theorem Lexer.AtBoundary.isBoundary {offset : Offset} {text : List Char} (h : AtBoundary offset text)
    (hsize : byteLength text < UInt32.size) : IsBoundary offset.toNat text := by
  obtain ⟨place, hplace, rfl⟩ := h
  rwa [toNat_ofNat_of_le hplace.le hsize]

theorem Token.Refused.ofRules {k : Token} {cause : Cause} (h : k.Refused cause)
    (hk : k.kind = .number → (Decimal.parse? k.value).isSome) : cause.OfRules := by
  cases cause with
  | unexpectedTokenDetailed => exact .unexpected _ _
  | invalidArraySize => exact .arraySize _
  | missingType => exact .untyped _
  | limitExceeded => exact .tooDeep _
  | numberParseError =>
    have hsome := hk h.2.1
    rw [h.2.2] at hsome
    cases hsome
  | _ => exact h.elim

theorem Defect.ofCheck {limit : Nat} {cause : Cause} (h : Defect limit cause) : cause.OfCheck := by
  cases h with
  | item | postDeclaration => exact .child _ _ _ _
  | unnamedFunction | emptyDeclaration | secondDefault => exact .node _ _
  | tooDeep => exact .tooDeep _

theorem refused_of_ofTokens {source file : String} {tokens : List Token} {limit : Nat} {e : Error}
    (htokens : tokenize source file = .ok tokens) (h : Node.ofTokens tokens file limit = .error e) :
    ∃ k ∈ tokens, e.position = ⟨k.start, file⟩ ∧ k.Refused e.cause := by
  have hends := (Lexer.scan_of_tokensFrom htokens).endsAt
  have hsame := (State.ofTokens_of_beside (tokensBeside_of_endsAt hends rfl)).1
  have hconduct := conduct_ofTokens tokens file limit
  unfold Node.ofTokens at h
  revert h hconduct
  generalize Grammar.program _ _ = r, programGuarded State.Separated _ _ = r'
  rintro h (⟨-, -⟩ | ⟨-, he⟩)
  · cases h
  · cases h
    rw [Course.Refuses, Course.ofTokens, hsame] at he
    exact he

theorem ofCheck_of_ofTree {items : List Node} (hitems : ∀ n ∈ items, Sourced .statement n) {o : Options}
    {e : Error} (h : Program.ofTree (.program items) o = .error e) :
    e.cause.OfCheck ∧ e.position = .null := by
  unfold Program.ofTree at h
  rcases Node.check_of_sourced hitems o.maxTreeDepth with hcheck | ⟨cause, hcheck, hdefect⟩
  · obtain ⟨p, hp⟩ := (Node.wellFormed_of_check hcheck).converts
    rw [hcheck, hp] at h
    cases h
  · rw [hcheck] at h
    cases h
    exact ⟨hdefect.ofCheck, rfl⟩

/-- A source that has no tree has a lexical error or one that the rules give, in the file of the options
and between two characters of the source. If it has a tree but no program the error is one that the
check gives, and it has no place. -/
theorem parse_errors_located (source : String) (o : Options) (hsize : byteLength source.toList < UInt32.size) :
    (∀ e, parseTree source o = .error e →
      (tokenize source o.file = .error e ∧ e.cause.errorClass = .lexical ∨
        (∃ tokens, tokenize source o.file = .ok tokens) ∧ e.cause.OfRules) ∧
      e.position.file = o.file ∧ e.position.offset.toNat ≤ byteLength source.toList ∧
        IsBoundary e.position.offset.toNat source.toList) ∧
    ∀ tree e, parseTree source o = .ok tree → parse source o = .error e →
      e.cause.OfCheck ∧ e.position = .null := by
  constructor
  · intro e h
    have hlocated := tokenize_located source o.file
    unfold parseTree at h
    cases htokens : tokenize source o.file with
    | error e' =>
      rw [htokens] at h hlocated
      cases h
      obtain ⟨hlexical, hfile, hplace⟩ := hlocated
      have hboundary := hplace.isBoundary hsize
      exact ⟨.inl ⟨rfl, hlexical⟩, hfile, hboundary.le, hboundary⟩
    | ok tokens =>
      rw [htokens] at h hlocated
      obtain ⟨k, hk, hposition, hrefused⟩ := refused_of_ofTokens htokens h
      have hboundary := (hlocated k hk).isBoundary hsize
      rw [hposition]
      refine ⟨.inr ⟨⟨tokens, rfl⟩, ?_⟩, rfl, hboundary.le, hboundary⟩
      exact hrefused.ofRules (tokenize_numbers htokens k hk)
  · intro tree e htree h
    obtain ⟨items, rfl, hitems⟩ := parseTree_sourced htree
    unfold parse at h
    rw [htree] at h
    exact ofCheck_of_ofTree hitems h

theorem parse_errors_located_end :
    parseTree "var" {} =
        .error ⟨.unexpectedTokenDetailed "EOF" "expected identifier", 3, "shell"⟩ ∧
      byteLength "var".toList < UInt32.size ∧
      Cause.OfRules (.unexpectedTokenDetailed "EOF" "expected identifier") ∧
      3 ≤ byteLength "var".toList ∧ IsBoundary 3 "var".toList := by
  have htokens : tokenize "var" "shell" = .ok [⟨.varWord, "var", 0, 3⟩, Token.endOfInput 3] :=
    Lexer.tokensFrom_token (n := 2) rfl (Lexer.tokensFrom_nil "shell" 3 false)
  have herror : parseTree "var" {} =
      .error ⟨.unexpectedTokenDetailed "EOF" "expected identifier", 3, "shell"⟩ := by
    rw [parseTree, show tokenize "var" "shell" = _ from htokens]
    rfl
  have hsize : byteLength "var".toList < UInt32.size := by decide
  obtain ⟨hcause, -, hle, hboundary⟩ := (parse_errors_located "var" {} hsize).1 _ herror
  rcases hcause with ⟨hlexical, -⟩ | ⟨-, hrules⟩
  · rw [show tokenize "var" "shell" = _ from htokens] at hlexical
    cases hlexical
  · exact ⟨herror, hsize, hrules, hle, hboundary⟩

end MiniGo
