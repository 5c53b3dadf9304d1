import Mathlib.Control.Monad.Basic
import MiniGo.Proofs.Grammar.Limit.Check
import MiniGo.Proofs.Grammar.Limit.Statements

/-!
What the limit on nesting means for lists of tokens. There is a threshold: from it on the limit does not
show, below it every limit fails. And what a limit lets pass is no deeper than the check allows for
twice as many levels.
-/
namespace MiniGo

open Grammar

namespace Grammar

@[simp] theorem State.tokens_ne_nil (s : State) : s.tokens ≠ [] := List.cons_ne_nil _ _

@[simp] theorem State.depth_ofTokens (tokens : List Token) : (State.ofTokens tokens).depth = 0 := by
  unfold State.ofTokens
  dsimp only
  split <;> rfl

@[simp] theorem State.peak_ofTokens (tokens : List Token) : (State.ofTokens tokens).peak = 0 := by
  unfold State.ofTokens
  dsimp only
  split <;> rfl

def Terms.ofTokens (tokens : List Token) (file : String) (spelled : Prop) : Terms :=
  ⟨file, spelled, (State.ofTokens tokens).tokens.length + 1⟩

/-- A whole list of tokens settles: with a program whose items were built within the levels reached, or
with an error. -/
theorem ofTokens_settles {tokens : List Token} {spelled : Prop} (file : String)
    (h : spelled → ∀ k ∈ tokens, k.Spelled) :
    Outcome (.ofTokens tokens file spelled) (fun _ => program) (.ofTokens tokens) fun n t =>
      ∃ items, n = .program items ∧ ∀ n ∈ items, Parsed spelled t.reached .statement n := by
  have hdepth := State.depth_ofTokens tokens
  have hpeak := State.peak_ofTokens tokens
  have hlength : (State.ofTokens tokens).tokens.length = (State.ofTokens tokens).later.length + 1 := rfl
  have hpaid : (State.ofTokens tokens).Affords (.ofTokens tokens file spelled) 0 2 := by
    refine ⟨hdepth, ?_⟩
    simp only [Terms.ofTokens]
    omega
  refine program_settles hpaid ⟨State.ended_ofTokens tokens, ?_, ?_, ?_⟩
  · exact fun hspelled => State.Spelled.ofTokens (h hspelled)
  · omega
  · simp only [Terms.ofTokens]
    omega

def outcome : EStateM.Result Error State Node → Except Error Node
  | .ok tree _ => .ok tree
  | .error e _ => .error e

private theorem ofTokens_eq (tokens : List Token) (file : String) (limit : Nat) :
    Node.ofTokens tokens file limit =
      outcome (close (fun _ => program) ⟨file, limit, .standard⟩ (.ofTokens tokens)) := by
  rw [close_apply]
  unfold Node.ofTokens
  cases program ⟨file, limit, .standard⟩ (.ofTokens tokens) <;> rfl

theorem Transparent.ofTokens {tokens : List Token} {file : String} {p : Nat}
    {r : EStateM.Result Error State Node}
    (h : Transparent file (fun _ => program) (.ofTokens tokens) r p) (limit : Nat) :
    (p ≤ limit → Node.ofTokens tokens file limit = outcome r) ∧
      (limit < p → ∃ place,
        Node.ofTokens tokens file limit = .error ⟨.limitExceeded limit, place⟩) := by
  have hpeak := State.peak_ofTokens tokens
  rw [ofTokens_eq]
  constructor
  · intro hlimit
    rw [h.within limit hlimit]
  · intro hlimit
    obtain ⟨place, t, hrun⟩ := h.beyond limit (by omega) hlimit
    exact ⟨place, by rw [hrun]; rfl⟩

end Grammar

/-- The limit on nesting is transparent. For every list of tokens there is a threshold, at most twice
the number of tokens with their end, and a result that is not a failure by the limit: all limits from
the threshold on give this result, and all smaller ones fail by the limit. -/
theorem Node.ofTokens_threshold (tokens : List Token) (file : String) :
    ∃ threshold result, threshold ≤ 2 * (State.ofTokens tokens).tokens.length ∧
      (∀ e, result = .error e → ∀ k, e.cause ≠ .limitExceeded k) ∧
      ∀ limit, (threshold ≤ limit → Node.ofTokens tokens file limit = result) ∧
        (limit < threshold → ∃ place,
          Node.ofTokens tokens file limit = .error ⟨.limitExceeded limit, place⟩) := by
  have hlength := List.length_pos_iff.2 (State.ofTokens tokens).tokens_ne_nil
  have hspelled : False → ∀ k ∈ tokens, k.Spelled := False.elim
  cases ofTokens_settles file hspelled with
  | ok tree t h hst ht hQ =>
    have hpaid := ht.paid
    simp only [Terms.ofTokens] at hpaid
    refine ⟨t.peak, .ok tree, by omega, ?_, h.ofTokens⟩
    rintro e ⟨⟩
  | error e t p h hsp hp he =>
    simp only [Terms.ofTokens] at hp
    refine ⟨p, .error e, by omega, ?_, h.ofTokens⟩
    rintro _ ⟨⟩
    exact he

theorem Grammar.Transparent.of_ok {tokens : List Token} {file : String} {p limit : Nat} {tree : Node}
    {r : EStateM.Result Error State Node}
    (h : Transparent file (fun _ => program) (.ofTokens tokens) r p)
    (hok : Node.ofTokens tokens file limit = .ok tree) : p ≤ limit ∧ outcome r = .ok tree := by
  obtain ⟨hwithin, hbeyond⟩ := h.ofTokens limit
  by_cases hlimit : p ≤ limit
  · exact ⟨hlimit, (hwithin hlimit).symm.trans hok⟩
  · obtain ⟨place, herror⟩ := hbeyond (Nat.lt_of_not_le hlimit)
    rw [herror] at hok
    cases hok

theorem Grammar.parsed_of_ofTokens {tokens : List Token} {file : String} {limit : Nat} {tree : Node}
    {spelled : Prop} (hspelled : spelled → ∀ k ∈ tokens, k.Spelled)
    (h : Node.ofTokens tokens file limit = .ok tree) :
    ∃ items, tree = .program items ∧ ∀ n ∈ items, Parsed spelled limit .statement n := by
  cases ofTokens_settles file hspelled with
  | ok tree' t hrun _ _ hQ =>
    obtain ⟨hpeak, htree⟩ := hrun.of_ok h
    obtain ⟨items, rfl, hitems⟩ := hQ
    refine ⟨items, (Except.ok.inj htree).symm, fun n hn => (hitems n hn).mono ?_⟩
    exact Nat.le_trans (Nat.sub_le _ _) hpeak
  | error e t p hrun _ _ _ =>
    obtain ⟨-, htree⟩ := hrun.of_ok h
    cases htree

/-- The limit on nesting also bounds the tree: what is read within a limit is not too deep for a check
with twice as many levels. -/
theorem Node.check_of_ofTokens {tokens : List Token} {file : String} {limit levels : Nat} {tree : Node}
    {e : Error} (h : Node.ofTokens tokens file limit = .ok tree) (hlevels : 2 * limit ≤ levels)
    (he : tree.check levels = .error e) (k : Nat) : e.cause ≠ .limitExceeded k := by
  have hspelled : False → ∀ k ∈ tokens, k.Spelled := False.elim
  obtain ⟨items, rfl, hitems⟩ := parsed_of_ofTokens hspelled h
  have hshallow : Check.Shallow (items.forM (Check.check levels levels .item)) :=
    Check.shallow_forM fun n hn => Check.item_shallow (hitems n hn) hlevels
  simp only [Node.check] at he
  cases hv : items.forM (Check.check levels levels .item) with
  | ok u =>
    rw [hv] at he
    cases he
  | error cause =>
    rw [hv] at he
    cases he
    rintro rfl
    exact hshallow k hv

/-- `func f() { for x := a;; x { for x := a + b;; y := x { } } }` is read within five levels and
is too deep for a check with five. With ten the check gets to the declaration in the last clause. -/
theorem Node.check_of_nestedLoops :
    let tokens : List Token := [⟨.funcWord, "func", 0, 4⟩, ⟨.identifier, "f", 5, 6⟩, ⟨.openParen, "(", 6, 7⟩,
      ⟨.closeParen, ")", 7, 8⟩, ⟨.openCurly, "\x7b", 9, 10⟩, ⟨.forWord, "for", 11, 14⟩,
      ⟨.identifier, "x", 15, 16⟩, ⟨.define, ":=", 17, 19⟩, ⟨.identifier, "a", 20, 21⟩,
      ⟨.semicolon, ";", 21, 22⟩, ⟨.semicolon, ";", 22, 23⟩, ⟨.identifier, "x", 24, 25⟩,
      ⟨.openCurly, "\x7b", 26, 27⟩, ⟨.forWord, "for", 28, 31⟩,
      ⟨.identifier, "x", 32, 33⟩, ⟨.define, ":=", 34, 36⟩, ⟨.identifier, "a", 37, 38⟩, ⟨.plus, "+", 39, 40⟩,
      ⟨.identifier, "b", 41, 42⟩, ⟨.semicolon, ";", 42, 43⟩, ⟨.semicolon, ";", 43, 44⟩,
      ⟨.identifier, "y", 45, 46⟩, ⟨.define, ":=", 47, 49⟩, ⟨.identifier, "x", 50, 51⟩,
      ⟨.openCurly, "\x7b", 52, 53⟩, ⟨.closeCurly, "\x7d", 54, 55⟩, ⟨.closeCurly, "\x7d", 56, 57⟩,
      ⟨.closeCurly, "\x7d", 58, 59⟩, .lineBreak 59, .endOfInput 59]
    let cause := Cause.invalidChild .forStatement "post" "expression, assignment or send statement" .declaration
    ∃ tree, Node.ofTokens tokens "shell" 5 = .ok tree ∧ tree.check 5 = .error ⟨.limitExceeded 5, .null⟩ ∧
      tree.check 10 = .error ⟨cause, .null⟩ ∧ cause ≠ .limitExceeded 10 := by
  intro tokens cause
  have hread : (Node.ofTokens tokens "shell" 5).toOption.any (fun tree => decide
      (tree.check 5 = .error ⟨.limitExceeded 5, .null⟩ ∧ tree.check 10 = .error ⟨cause, .null⟩)) = true := by
    decide +kernel
  cases htree : Node.ofTokens tokens "shell" 5 with
  | error e =>
    rw [htree] at hread
    cases hread
  | ok tree =>
    rw [htree] at hread
    obtain ⟨hfive, hten⟩ := of_decide_eq_true hread
    exact ⟨tree, rfl, hfive, hten, Node.check_of_ofTokens htree (by decide) hten 10⟩

end MiniGo
