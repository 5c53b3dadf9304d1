import MiniGo.FrontEnd
import MiniGo.Proofs.Grammar.Limit.Threshold
import MiniGo.Proofs.Grammar.Recovery.Statements

/-!
Reading undoes canonical printing: every tree that comes from a source is what its canonical tokens are
read as. The limit on nesting has to be large enough for the parentheses that printing adds.
-/
namespace MiniGo

namespace Grammar

@[simp] theorem State.structLiterals_ofTokens (tokens : List Token) :
    (State.ofTokens tokens).structLiterals = true := by
  unfold State.ofTokens
  dsimp only
  split <;> rfl

theorem State.tokens_ofTokens_ended (ws : List (List Token)) :
    ∃ last : Token, last.kind = .eof ∧
      (State.ofTokens (Print.ended ws)).tokens = Print.ended ws ++ [last] := by
  rcases State.tokens_ofTokens (Print.ended ws) with heq | ⟨offset, heq⟩
  · have hended := State.ended_ofTokens (Print.ended ws)
    unfold State.Ended at hended
    rw [heq] at hended
    obtain ⟨t, ht, hkind⟩ := Option.map_eq_some_iff.1 hended
    rw [Print.mem_getLast?_ended ht] at hkind
    cases hkind
  · exact ⟨Token.endOfInput offset, rfl, heq⟩

/-- Within any limit, the canonical tokens of a program are read as that program or the limit is
exceeded. -/
theorem ofTokens_print_or {r : Nat} {items : List Node} (h : ∀ n ∈ items, Parsed True r .statement n)
    (numerals : Numerals) (file : String) (limit : Nat) :
    Node.ofTokens (Node.print numerals (.program items)) file limit = .ok (.program items) ∨
      ∃ k place, Node.ofTokens (Node.print numerals (.program items)) file limit =
        .error ⟨.limitExceeded k, place⟩ := by
  obtain ⟨last, hlast, htokens⟩ := State.tokens_ofTokens_ended (Print.nodes numerals items)
  let c : Reader := ⟨⟨file, limit, .standard⟩, last, rfl, hlast⟩
  have hread : Recovers c true program (Node.print numerals (.program items)) (.program items) [] :=
    program_recovers h
  rcases hread _ htokens (State.structLiterals_ofTokens _) with ⟨t, hrun, -⟩ | ⟨k, place, t, herror⟩
  · left
    have hrun : program ⟨file, limit, .standard⟩ (.ofTokens (Node.print numerals (.program items))) =
        .ok (.program items) t := hrun
    simp only [Node.ofTokens, hrun]
  · right
    have herror : program ⟨file, limit, .standard⟩ (.ofTokens (Node.print numerals (.program items))) =
        .error ⟨.limitExceeded k, place⟩ t := herror
    exact ⟨k, place, by simp only [Node.ofTokens, herror]⟩

end Grammar

open Grammar

theorem parsed_of_parseTree {source : String} {o : Options} {tree : Node}
    (h : parseTree source o = .ok tree) :
    ∃ items, tree = .program items ∧ ∀ n ∈ items, Parsed True o.maxDepth .statement n := by
  unfold parseTree at h
  cases htokens : tokenize source o.file with
  | error e =>
    rw [htokens] at h
    cases h
  | ok tokens =>
    rw [htokens] at h
    exact parsed_of_ofTokens (fun _ => tokenize_spelled htokens) h

/-- Reading undoes canonical printing. The tree of a source is read from its canonical tokens, with
whatever texts for its numbers, under every limit that is large enough. -/
theorem Node.ofTokens_print {source : String} {o : Options} {tree : Node}
    (h : parseTree source o = .ok tree) (numerals : Numerals) (file : String) :
    ∃ threshold, ∀ limit, threshold ≤ limit →
      Node.ofTokens (tree.print numerals) file limit = .ok tree := by
  obtain ⟨items, rfl, hitems⟩ := parsed_of_parseTree h
  have hspelled : False → ∀ k ∈ Node.print numerals (.program items), k.Spelled := False.elim
  cases ofTokens_settles file hspelled with
  | ok tree' t hrun _ _ _ =>
    refine ⟨t.peak, fun limit hlimit => ?_⟩
    have hresult := (hrun.ofTokens limit).1 hlimit
    rcases ofTokens_print_or hitems numerals file limit with hok | ⟨k, place, herror⟩
    · exact hok
    · cases herror.symm.trans hresult
  | error e t p hrun _ _ he =>
    have hresult := (hrun.ofTokens p).1 (Nat.le_refl p)
    rcases ofTokens_print_or hitems numerals file p with hok | ⟨k, place, herror⟩
    · cases hok.symm.trans hresult
    · cases herror.symm.trans hresult
      exact absurd rfl (he k)

theorem Node.ofTokens_print_group :
    parseTree "var(x,y)" {} = .ok (.program [.declaration .var [.name "x", .name "y"] []]) ∧
      ∃ threshold, ∀ limit, threshold ≤ limit →
        Node.ofTokens ((Node.program [.declaration .var [.name "x", .name "y"] []]).print .chosen)
          "shell" limit = .ok (.program [.declaration .var [.name "x", .name "y"] []]) := by
  have htokens : tokenize "var(x,y)" "shell" = .ok [⟨.varWord, "var", 0, 3⟩, ⟨.openParen, "(", 3, 4⟩,
      ⟨.identifier, "x", 4, 5⟩, ⟨.comma, ",", 5, 6⟩, ⟨.identifier, "y", 6, 7⟩,
      ⟨.closeParen, ")", 7, 8⟩, Token.lineBreak 8, Token.endOfInput 8] := by
    refine Lexer.tokensFrom_token (n := 2) rfl ?_
    iterate 5 refine Lexer.tokensFrom_token (n := 0) rfl ?_
    exact Lexer.tokensFrom_nil "shell" 8 true
  have hparse : parseTree "var(x,y)" {} =
      .ok (.program [.declaration .var [.name "x", .name "y"] []]) := by
    unfold parseTree
    rw [show tokenize "var(x,y)" "shell" = _ from htokens]
    rfl
  exact ⟨hparse, Node.ofTokens_print hparse .chosen "shell"⟩

end MiniGo
