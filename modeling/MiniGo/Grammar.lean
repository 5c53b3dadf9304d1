import MiniGo.Grammar.Statements

/-!
The grammar as a whole. Rules that go one level down get the rules of that level as an argument;
`produce` ties them together for a number of levels, so that the limit on nesting is also what the
recursion runs on.
-/
namespace MiniGo.Grammar

def goalBody (below : Below) : Goal → Rule Node
  | .statement => statementBody below
  | .expression power => expressionBody below power
  | .type => typeBody below
  | .elseIf => ifBody below

/-- What a goal yields with a number of levels left. -/
def produce : Nat → Goal → Rule Node
  | 0, _ => do fail (.limitExceeded (← read).limit)
  | levels + 1, goal => nested (goalBody (produce levels) goal)

/-- Runs a rule on the current level with all levels up to the limit below it. -/
def close {α : Type} (rule : Below → Rule α) : Rule α := do
  rule (produce ((← read).limit - (← get).depth))

def statement : Rule Node := close fun below => below .statement

def expression (power : Power) : Rule Node := close fun below => below (.expression power)

def type : Rule Node := close fun below => below .type

def program : Rule Node := do
  let items ← many do
    skipSemicolons
    if (← kind) = .eof then return none else return some (← statement)
  return .program items

end MiniGo.Grammar

namespace MiniGo

/-- The tree of a list of tokens, all from `file`, of which the last should be the end of the input. -/
def Node.ofTokens (tokens : List Token) (file : String) (limit : Nat) : Except Error Node :=
  match Grammar.program ⟨file, limit, .standard⟩ (.ofTokens tokens) with
  | .ok tree _ => .ok tree
  | .error e _ => .error e

end MiniGo
