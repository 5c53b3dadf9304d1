import MiniGo.Proofs.Grammar.Uniform.Rules

/-!
Bookkeeping. Rules change the level, what was reached and whether struct literals are allowed while other rules
run inside them, and they can fail in between. Main statement: whatever is run and however it ends, everything
is as before but for the tokens passed and the deepest level reached, and that is within the limit.
-/
namespace MiniGo.Grammar

variable {α β : Type} {c : Setting} {s t : State}

theorem produce_restores (c : Setting) (levels : Nat) (goal : Goal) : Restores c (produce levels goal) := by
  induction levels generalizing goal with
  | zero => exact fun s => .refl c.limit s
  | succ levels ih => exact ((goalBody_advancing goal).uniform.restores ih).nested

/-- The rules that can be run by themselves. The rules one level down are still to be chosen. -/
inductive Entry : {α : Type} → (Below → Rule α) → Prop where
  | advance : Entry fun _ => advance
  | expect (k : TokenKind) : Entry fun _ => expect k
  | expectOr (k : TokenKind) (message : String) : Entry fun _ => expectOr k message
  | skipSemicolons : Entry fun _ => skipSemicolons
  | reach (levels : Nat) : Entry fun _ => reach levels
  | terminator : Entry fun _ => terminator
  | goal (goal : Goal) : Entry fun below => below goal
  | type (form : TypeForm) : Entry fun below => typeOf below form
  | resultType : Entry resultType
  | typedNames (terminators : List TokenKind) (list : NameList) :
      Entry fun below => typedNames below terminators list
  | operand (form : OperandForm) : Entry fun below => operandOf below form
  | operator (left : Node) (power : Power) (form : OperatorForm) :
      Entry fun below => operatorOf below left power form
  | tail (left : Node) (height : Nat) (power : Power) : Entry fun below => tail below left height power
  | expressionList : Entry expressionList
  | block : Entry block
  | functionRest (name : Option Node) : Entry fun below => functionRest below name
  | simpleStatement : Entry simpleStatement
  | statement (form : StatementForm) : Entry fun below => statementOf below form

theorem Entry.uniform {x : Below → Rule α} (h : Entry x) : Uniform x := by
  cases h with
  | advance => exact .advance
  | expect k => exact uniform_expect k
  | expectOr k message => exact uniform_expectOr k message
  | skipSemicolons => exact uniform_skipSemicolons
  | reach levels => exact .reach levels
  | terminator => exact terminator_uniform
  | goal goal => exact .goal goal
  | type form => exact (typeOf_advancing form).uniform
  | resultType => exact resultType_uniform
  | typedNames terminators list => exact typedNames_uniform
  | operand form => exact (operandOf_advancing form).uniform
  | operator left power form => exact (operatorOf_advancing left power form).uniform
  | tail left height power => exact tail_uniform left height power
  | expressionList => exact expressionList_advancing.uniform
  | block => exact block_advancing.uniform
  | functionRest name => exact (functionRest_advancing name).uniform
  | simpleStatement => exact simpleStatement_advancing.uniform
  | statement form => exact (statementOf_advancing form).uniform

/-- What can be run: the rules by themselves, one behind the other by what the state or their results say, after
a failure, one level further down, measured, with struct literals or without. -/
inductive Script : {α : Type} → Rule α → Prop where
  | entry {α : Type} {x : Below → Rule α} (h : Entry x) : Script (close x)
  | pure {α : Type} (a : α) : Script (Pure.pure a)
  | throw {α : Type} (e : Error) : Script (throw e : Rule α)
  | look {β : Type} {f : State → Rule β} (hf : ∀ s, Script (f s)) : Script (get >>= f)
  | consult {β : Type} {f : Setting → Rule β} (hf : ∀ c, Script (f c)) : Script (read >>= f)
  | bind {α β : Type} {x : Rule α} {f : α → Rule β} (hx : Script x) (hf : ∀ a, Script (f a)) :
      Script (x >>= f)
  | tryCatch {α : Type} {x : Rule α} {f : Error → Rule α} (hx : Script x) (hf : ∀ e, Script (f e)) :
      Script (tryCatch x f)
  | nested {α : Type} {x : Rule α} (hx : Script x) : Script (nested x)
  | measured {α : Type} {x : Rule α} (hx : Script x) : Script (measured x)
  | withStructLiterals {α : Type} {x : Rule α} (allowed : Bool) (hx : Script x) :
      Script (withStructLiterals allowed x)

/-- A failure leaves the tokens passed, so what is run behind it goes on from there. -/
theorem Restores.tryCatch {x : Rule α} {f : Error → Rule α} (hx : Restores c x) (hf : ∀ e, Restores c (f e)) :
    Restores c (tryCatch x f) := by
  intro s
  have hs := hx s
  change s.ComesTo c.limit (stateBehind (EStateM.tryCatch (x c) (fun e => f e c) s))
  unfold EStateM.tryCatch
  revert hs
  cases x c s with
  | ok a t => exact id
  | error e t => exact fun hs => hs.trans (hf e t)

theorem Script.restores {x : Rule α} (hx : Script x) : Restores c x := by
  induction hx with
  | entry h => exact fun s => h.uniform.restores (produce_restores c (c.limit - s.depth)) s
  | pure a => exact fun s => .refl c.limit s
  | throw e => exact fun s => .refl c.limit s
  | look _ ih => exact fun s => ih s s
  | consult _ ih => exact fun s => ih c s
  | bind _ _ ihx ihf => exact ihx.bind ihf
  | tryCatch _ _ ihx ihf => exact ihx.tryCatch ihf
  | nested _ ih => exact ih.nested
  | measured _ ih => exact ih.measured
  | withStructLiterals allowed _ ih => exact ih.withStructLiterals allowed

/-- What is there to run on. The tables and the limit are fixed, by what a rule is. -/
structure Frame where
  tokens : List Token
  table : Table
  limit : Nat
  depth : Nat
  structLiterals : Bool

def State.frame (c : Setting) (s : State) : Frame :=
  ⟨s.allTokens, c.table, c.limit, s.depth, s.structLiterals⟩

/-- The books kept from `s` to `t` are in order. -/
structure Restored (c : Setting) (s t : State) : Prop where
  frame : t.frame c = s.frame c
  position_le : s.position ≤ t.position
  position_lt : t.position < t.allTokens.length
  peak_le : s.peak ≤ t.peak
  depth_le : t.depth ≤ t.peak
  limit : t.peak ≤ c.limit

/-- Whatever is run, and whether it succeeds or fails, the books are in order behind it if they were before. -/
theorem Script.restored {x : Rule α} (hx : Script x) (hdepth : s.depth ≤ s.peak) (hpeak : s.peak ≤ c.limit) :
    Restored c s (stateBehind (x c s)) := by
  have hst := hx.restores (c := c) s
  refine ⟨?_, hst.position, ?_, hst.peak, ?_, hst.within hdepth hpeak⟩
  · unfold State.frame
    rw [hst.allTokens, hst.depth, hst.structLiterals]
  · rw [State.length_allTokens]
    omega
  · rw [hst.depth]
    exact Nat.le_trans hdepth hst.peak

def measuredBlock : Rule (List Node × Nat) := nested (measured (withStructLiterals true (close block)))

def openBlock : State :=
  ⟨[], ⟨.openCurly, "\x7b", 0, 1⟩, [⟨.dash, "-", 2, 3⟩, Token.endOfInput 3], 1, 2, false⟩

theorem restored_openBlock :
    openBlock.depth ≤ openBlock.peak ∧ openBlock.peak ≤ 6 ∧
      (measuredBlock ⟨"shell", 6, .standard⟩ openBlock matches .error ..) = true ∧
      (stateBehind (measuredBlock ⟨"shell", 6, .standard⟩ openBlock)).position = 2 ∧
      (stateBehind (measuredBlock ⟨"shell", 6, .standard⟩ openBlock)).peak = 5 ∧
      Restored ⟨"shell", 6, .standard⟩ openBlock
        (stateBehind (measuredBlock ⟨"shell", 6, .standard⟩ openBlock)) := by
  have hscript : Script measuredBlock := .nested (.measured (.withStructLiterals true (.entry .block)))
  have hdepth : openBlock.depth ≤ openBlock.peak := by decide
  have hpeak : openBlock.peak ≤ 6 := by decide
  refine ⟨hdepth, hpeak, ?_, ?_, ?_, hscript.restored hdepth hpeak⟩
  · decide +kernel
  · decide +kernel
  · decide +kernel

end MiniGo.Grammar
