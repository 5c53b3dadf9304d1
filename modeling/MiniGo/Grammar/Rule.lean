import MiniGo.Error
import MiniGo.Grammar.Table
import MiniGo.Tree

/-!
Rules of the grammar. A rule runs on the tokens from the current one on and yields a result or an
error; the tokens it has passed stay behind it in either case. Rules also keep count of the nesting
of what they build: `depth` is the level they run on and `peak` the deepest level reached.
-/
namespace MiniGo.Grammar

/-- What stays fixed while rules run. All tokens are from the one `file`, so that the place of each is its
offset there. -/
structure Setting where
  file : String
  limit : Nat
  table : Table

/-- The tokens behind the current one, the last first; the current one; those after it. -/
structure State where
  behind : List Token
  current : Token
  later : List Token
  depth : Nat
  peak : Nat
  structLiterals : Bool

abbrev Rule := ReaderT Setting (EStateM Error State)

/-- The state at the first of some tokens. If the last one is not the end of the input, an end
follows it. -/
def State.ofTokens (tokens : List Token) : State :=
  let closed := match tokens.getLast? with
    | some last => if last.kind = .eof then tokens else tokens ++ [Token.endOfInput last.stop]
    | none => [Token.endOfInput 0]
  match closed with
  | [] => ⟨[], Token.endOfInput 0, [], 0, 0, true⟩
  | t :: ts => ⟨[], t, ts, 0, 0, true⟩

/-- The kind of the token `n` places ahead; past the end there are only ends. -/
def State.kindAhead (s : State) (n : Nat) : TokenKind :=
  match (s.current :: s.later)[n]? with
  | some t => t.kind
  | none => .eof

/-- The next token becomes the current one. The last token stays current. -/
def State.next (s : State) : State :=
  match s.later with
  | [] => s
  | t :: ts => { s with behind := s.current :: s.behind, current := t, later := ts }

def current : Rule Token := return (← get).current

def kind : Rule TokenKind := return (← get).current.kind

def kindAhead (n : Nat) : Rule TokenKind := return (← get).kindAhead n

def advance : Rule Token := do
  let t ← current
  modify State.next
  return t

def failAt {α : Type} (offset : Text.Offset) (cause : Cause) : Rule α := do
  throw ⟨cause, offset, (← read).file⟩

def fail {α : Type} (cause : Cause) : Rule α := do
  failAt (← current).start cause

def refuse {α : Type} (t : Token) (message : String) : Rule α :=
  failAt t.start (.unexpectedTokenDetailed t.describe message)

def unexpected {α : Type} (message : String) : Rule α := do
  refuse (← current) message

def expect (k : TokenKind) : Rule Token := do
  if (← kind) = k then advance else fail (.unexpectedToken (← current).describe)

def expectOr (k : TokenKind) (message : String) : Rule Token := do
  if (← kind) = k then advance else unexpected message

inductive Turn (α : Type) where
  | more (a : α)
  | done (a : α)

/-- Runs turns until one is done. Every turn that is not the last passes a token, so the tokens at
the start bound the number of turns. -/
def loopFrom {α : Type} (turn : α → Rule (Turn α)) : List Token → α → Rule α
  | [], a => do
    match ← turn a with
    | .more b => return b
    | .done b => return b
  | _ :: turns, a => do
    match ← turn a with
    | .more b => loopFrom turn turns b
    | .done b => return b

def loop {α : Type} (a : α) (turn : α → Rule (Turn α)) : Rule α := do
  loopFrom turn (← get).later a

def many {α : Type} (rule : Rule (Option α)) : Rule (List α) :=
  loop [] fun found => do
    match ← rule with
    | some a => return .more (found ++ [a])
    | none => return .done found

def skipSemicolons : Rule Unit :=
  loop () fun _ => do
    if (← kind) = .semicolon then
      let _ ← advance
      return .more ()
    else return .done ()

/-- Items with commas between them up to a closing token, which is not passed. A comma may also
stand behind the last item. -/
def separated {α : Type} (close : TokenKind) (message : String) (item : Rule α) :
    Rule (List α) :=
  many do
    if (← kind) = close then return none
    else
      let a ← item
      if (← kind) = close then return some a
      else
        let _ ← expectOr .comma message
        return some a

/-- Notes that something reaches some levels below the current one, within the limit. -/
def reach (levels : Nat) : Rule Unit := do
  let s ← get
  let limit := (← read).limit
  if limit < s.depth + levels then fail (.limitExceeded limit)
  else set { s with peak := max s.peak (s.depth + levels) }

/-- Runs a rule one level further down. -/
def nested {α : Type} (rule : Rule α) : Rule α := do
  reach 1
  fun setting s =>
    match rule setting { s with depth := s.depth + 1 } with
    | .ok a t => .ok a { t with depth := t.depth - 1 }
    | .error e t => .error e { t with depth := t.depth - 1 }

/-- Runs a rule and yields also how many levels below the current one it reached. -/
def measured {α : Type} (rule : Rule α) : Rule (α × Nat) := fun setting s =>
  match rule setting { s with peak := s.depth } with
  | .ok a t => .ok (a, t.peak - t.depth) { t with peak := max t.peak s.peak }
  | .error e t => .error e { t with peak := max t.peak s.peak }

/-- Runs a rule with struct literals allowed or not. They are not in the headers of `if` and `for`,
where a brace behind a name opens the body. -/
def withStructLiterals {α : Type} (allowed : Bool) (rule : Rule α) : Rule α := fun setting s =>
  match rule setting { s with structLiterals := allowed } with
  | .ok a t => .ok a { t with structLiterals := s.structLiterals }
  | .error e t => .error e { t with structLiterals := s.structLiterals }

/-- What rules look for one level further down. -/
inductive Goal where
  | statement
  | expression (power : Power)
  | type
  | elseIf
deriving DecidableEq, Repr

abbrev Below := Goal → Rule Node

end MiniGo.Grammar
