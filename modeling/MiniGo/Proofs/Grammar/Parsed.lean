import MiniGo.Grammar.Statements
import MiniGo.Tree.Check

/-!
The trees that the rules build. A tree stands for the levels it cost to build: what a rule one level
down has built is worth one level less than what is built from it.
-/
namespace MiniGo.Grammar

/-- What a part of a tree was read as. A result is what may follow the parameters of a function, a
simple statement what may stand in a header. -/
inductive Phrase where
  | type | result | name | typedName | expression | fieldValue
  | simple | statement | elseIf | arm | guard
deriving DecidableEq, Repr

/-- The nodes that the rules build within some levels. If `spelled`, the tokens were spelled as their
kinds require, and so are the operators. -/
inductive Parsed (spelled : Prop) : Nat → Phrase → Node → Prop where
  | basicType {r : Nat} {b : BasicType} : Parsed spelled (r + 1) .type (.basicType b)
  | customType {r : Nat} {s : String} (hs : BasicType.ofName? s = none) :
      Parsed spelled (r + 1) .type (.customType s)
  | sliceType {r : Nat} {element : Node} (h : Parsed spelled r .type element) :
      Parsed spelled (r + 1) .type (.sliceType element)
  | arrayType {r : Nat} {element : Node} {size : UInt64} (h : Parsed spelled r .type element) :
      Parsed spelled (r + 1) .type (.arrayType element size)
  -- The arrow in `chan <-chan T` belongs to the outer type.
  | chanType {r : Nat} {direction : Direction} {element : Node} (h : Parsed spelled r .type element)
      (hboth : direction = .both → ∀ e, element ≠ .chanType .receive e) :
      Parsed spelled (r + 1) .type (.chanType direction element)
  | functionType {r : Nat} {params : List Node} {result : Node}
      (hparams : ∀ n ∈ params, Parsed spelled r .type n)
      (hresult : Parsed spelled (r + 1) .result result) :
      Parsed spelled (r + 1) .type (.functionType (.tupleType params) result)
  | procedureType {r : Nat} {params : List Node} (hparams : ∀ n ∈ params, Parsed spelled r .type n) :
      Parsed spelled (r + 1) .type (.functionType (.tupleType params) .voidType)
  | structType {r : Nat} {names : List Node}
      (h : ∀ n ∈ names, Parsed spelled (r + 1) .typedName n) :
      Parsed spelled (r + 1) .type (.structType (names.map .structElement))
  | resultType {r : Nat} {n : Node} (h : Parsed spelled r .type n) : Parsed spelled (r + 1) .result n
  | resultTypes {r : Nat} {elements : List Node} (h : ∀ n ∈ elements, Parsed spelled r .type n) :
      Parsed spelled (r + 1) .result (.tupleType elements)
  | name {r : Nat} {s : String} : Parsed spelled (r + 1) .name (.identifier s none)
  | typed {r : Nat} {s : String} {t : Node} (h : Parsed spelled r .type t) :
      Parsed spelled (r + 1) .typedName (.identifier s (some t))
  | typedName {r : Nat} {n : Node} (h : Parsed spelled r .typedName n) : Parsed spelled r .name n
  | identifier {r : Nat} {s : String} : Parsed spelled (r + 1) .expression (.identifier s none)
  | number {r : Nat} {text : String} {x : Binary64} (h : Decimal.parse? text = some x) :
      Parsed spelled (r + 1) .expression (.ofLiteral (.number x))
  | string {r : Nat} {s : String} : Parsed spelled (r + 1) .expression (.ofLiteral (.string s))
  | bool {r : Nat} {b : Bool} : Parsed spelled (r + 1) .expression (.ofLiteral (.bool b))
  | application {r : Nat} {operator : Node} {operands : List Node}
      (hoperator : Parsed spelled r .expression operator)
      (hoperands : ∀ n ∈ operands, Parsed spelled r .expression n) :
      Parsed spelled (r + 1) .expression (.application operator operands)
  | unary {r : Nat} {opcode : String} {operand : Node}
      (hopcode : spelled → opcode ∈ Check.unaryOperators)
      (h : Parsed spelled r .expression operand) :
      Parsed spelled (r + 1) .expression (.unary opcode operand)
  | binary {r : Nat} {opcode : String} {left right : Node}
      (hopcode : spelled → opcode ∈ Check.binaryOperators)
      (hleft : Parsed spelled r .expression left) (hright : Parsed spelled r .expression right) :
      Parsed spelled (r + 1) .expression (.binary left opcode right)
  | index {r : Nat} {accessed index : Node} (haccessed : Parsed spelled r .expression accessed)
      (hindex : Parsed spelled r .expression index) :
      Parsed spelled (r + 1) .expression (.index accessed index)
  | member {r : Nat} {accessed : Node} {s : String} (h : Parsed spelled r .expression accessed) :
      Parsed spelled (r + 1) .expression (.member accessed (.identifier s none))
  | receive {r : Nat} {chan : Node} (h : Parsed spelled r .expression chan) :
      Parsed spelled (r + 1) .expression (.receive chan false)
  | structLiteral {r : Nat} {s : String} {fields : List Node}
      (h : ∀ n ∈ fields, Parsed spelled (r + 1) .fieldValue n) :
      Parsed spelled (r + 1) .expression (.structLiteral (.customType s) fields)
  | fieldValue {r : Nat} {s : String} {expr : Node} (h : Parsed spelled r .expression expr) :
      Parsed spelled (r + 1) .fieldValue (.fieldValue (.identifier s none) expr)
  | function {r : Nat} {formals body : List Node} {result : Option Node}
      (hformals : ∀ n ∈ formals, Parsed spelled (r + 1) .typedName n)
      (hresult : ∀ n ∈ result, Parsed spelled (r + 1) .result n)
      (hbody : ∀ n ∈ body, Parsed spelled r .statement n) :
      Parsed spelled (r + 1) .expression (.function none formals result body)
  | shortDeclaration {r : Nat} {names : List String} {vals : List Node} (hnames : names ≠ [])
      (hvals : vals ≠ []) (h : ∀ n ∈ vals, Parsed spelled r .expression n) :
      Parsed spelled (r + 1) .simple (.declaration .var (names.map Node.name) vals)
  | assignment {r : Nat} {targets vals : List Node} (hne : targets ≠ []) (hvals : vals ≠ [])
      (hassignable : ∀ n ∈ targets, isAssignable n = true)
      (htargets : ∀ n ∈ targets, Parsed spelled r .expression n)
      (h : ∀ n ∈ vals, Parsed spelled r .expression n) :
      Parsed spelled (r + 1) .simple (.assignment targets vals)
  | send {r : Nat} {chan val : Node} (hchan : Parsed spelled r .expression chan)
      (hval : Parsed spelled r .expression val) :
      Parsed spelled (r + 1) .simple (.send chan val false)
  | expressionStatement {r : Nat} {e : Node} (h : Parsed spelled r .expression e) :
      Parsed spelled (r + 1) .simple (.expressionStatement e)
  -- Statements. One that starts with a function literal has it on its own level.
  | simple {r : Nat} {n : Node} (h : Parsed spelled (r + 1) .simple n)
      (hn : n.kind ≠ .declaration) : Parsed spelled r .statement n
  | declaration {r : Nat} {kind : DeclarationKind} {ids vals : List Node}
      (hids : ∀ n ∈ ids, Parsed spelled (r + 1) .name n)
      (hvals : ∀ n ∈ vals, Parsed spelled r .expression n) (hempty : ids = [] → vals = []) :
      Parsed spelled (r + 1) .statement (.declaration kind ids vals)
  | typeDeclaration {r : Nat} {s : String} {type : Node} (h : Parsed spelled r .type type) :
      Parsed spelled (r + 1) .statement (.typeDeclaration (.customType s) type)
  | functionStatement {r : Nat} {formals body : List Node} {result : Option Node}
      (h : Parsed spelled r .expression (.function none formals result body)) :
      Parsed spelled r .statement (.function none formals result body)
  | namedFunction {r : Nat} {s : String} {formals body : List Node} {result : Option Node}
      (h : Parsed spelled r .expression (.function none formals result body)) :
      Parsed spelled r .statement (.function (some (.identifier s none)) formals result body)
  | returnStatement {r : Nat} {es : List Node} (h : ∀ n ∈ es, Parsed spelled r .expression n) :
      Parsed spelled (r + 1) .statement (.returnStatement es)
  | ifStatement {r : Nat} {n : Node} (h : Parsed spelled r .elseIf n) : Parsed spelled r .statement n
  | elseIf {r : Nat} {cond : Node} {cons : List Node} {alt : Option Alternative}
      {short : Option Node} (hshort : ∀ n ∈ short, Parsed spelled (r + 1) .simple n)
      (hcond : Parsed spelled r .expression cond)
      (hcons : ∀ n ∈ cons, Parsed spelled r .statement n)
      (hblock : ∀ body, alt = some (.block body) → ∀ n ∈ body, Parsed spelled r .statement n)
      (hchained : ∀ n, alt = some (.chained n) → Parsed spelled r .elseIf n) :
      Parsed spelled (r + 1) .elseIf (.ifStatement cond cons alt short)
  | forStatement {r : Nat} {init cond post : Option Node} {body : List Node}
      (hinit : ∀ n ∈ init, n ≠ .empty → Parsed spelled (r + 1) .simple n)
      (hcond : ∀ n ∈ cond, Parsed spelled r .expression n)
      (hpost : ∀ n ∈ post, Parsed spelled (r + 1) .simple n)
      (hbody : ∀ n ∈ body, Parsed spelled r .statement n) (hclauses : init = none → post = none) :
      Parsed spelled (r + 1) .statement (.forStatement init cond post body)
  | goStatement {r : Nat} {operator : Node} {operands : List Node}
      (h : Parsed spelled r .expression (.application operator operands)) :
      Parsed spelled (r + 1) .statement (.goStatement (.application operator operands))
  | selectStatement {r : Nat} {cases : List Node} (h : ∀ n ∈ cases, Parsed spelled (r + 1) .arm n) :
      Parsed spelled (r + 1) .statement (.selectStatement cases)
  | selectCase {r : Nat} {guard : Node} {body : List Node}
      (hguard : Parsed spelled (r + 1) .guard guard)
      (hbody : ∀ n ∈ body, Parsed spelled r .statement n) :
      Parsed spelled (r + 1) .arm (.selectCase guard body)
  | defaultCase {r : Nat} {body : List Node} (hbody : ∀ n ∈ body, Parsed spelled r .statement n) :
      Parsed spelled (r + 1) .arm (.defaultCase body)
  | guard {r : Nat} {statement guard : Node} (h : Parsed spelled r .simple statement)
      (hguard : guard? statement = some guard) : Parsed spelled r .guard guard

theorem Parsed.succ {spelled : Prop} {r : Nat} {p : Phrase} {n : Node} (h : Parsed spelled r p n) :
    Parsed spelled (r + 1) p n := by
  induction h with
  | basicType => exact .basicType
  | customType hs => exact .customType hs
  | sliceType _ ih => exact .sliceType ih
  | arrayType _ ih => exact .arrayType ih
  | chanType _ hboth ih => exact .chanType ih hboth
  | functionType _ _ ihparams ihresult => exact .functionType ihparams ihresult
  | procedureType _ ih => exact .procedureType ih
  | structType _ ih => exact .structType ih
  | resultType _ ih => exact .resultType ih
  | resultTypes _ ih => exact .resultTypes ih
  | name => exact .name
  | typed _ ih => exact .typed ih
  | typedName _ ih => exact .typedName ih
  | identifier => exact .identifier
  | number h => exact .number h
  | string => exact .string
  | bool => exact .bool
  | application _ _ ihoperator ihoperands => exact .application ihoperator ihoperands
  | unary hopcode _ ih => exact .unary hopcode ih
  | binary hopcode _ _ ihleft ihright => exact .binary hopcode ihleft ihright
  | index _ _ ihaccessed ihindex => exact .index ihaccessed ihindex
  | member _ ih => exact .member ih
  | receive _ ih => exact .receive ih
  | structLiteral _ ih => exact .structLiteral ih
  | fieldValue _ ih => exact .fieldValue ih
  | function _ _ _ ihformals ihresult ihbody => exact .function ihformals ihresult ihbody
  | shortDeclaration hnames hvals _ ih => exact .shortDeclaration hnames hvals ih
  | assignment hne hvals hassignable _ _ ihtargets ihvals =>
    exact .assignment hne hvals hassignable ihtargets ihvals
  | send _ _ ihchan ihval => exact .send ihchan ihval
  | expressionStatement _ ih => exact .expressionStatement ih
  | simple _ hn ih => exact .simple ih hn
  | declaration _ _ hempty ihids ihvals => exact .declaration ihids ihvals hempty
  | typeDeclaration _ ih => exact .typeDeclaration ih
  | functionStatement _ ih => exact .functionStatement ih
  | namedFunction _ ih => exact .namedFunction ih
  | returnStatement _ ih => exact .returnStatement ih
  | ifStatement _ ih => exact .ifStatement ih
  | elseIf _ _ _ _ _ ihshort ihcond ihcons ihblock ihchained =>
    exact .elseIf ihshort ihcond ihcons ihblock ihchained
  | forStatement _ _ _ _ hclauses ihinit ihcond ihpost ihbody =>
    exact .forStatement ihinit ihcond ihpost ihbody hclauses
  | goStatement _ ih => exact .goStatement ih
  | selectStatement _ ih => exact .selectStatement ih
  | selectCase _ _ ihguard ihbody => exact .selectCase ihguard ihbody
  | defaultCase _ ih => exact .defaultCase ih
  | guard _ hguard ih => exact .guard ih hguard

theorem Parsed.mono {spelled : Prop} {r r' : Nat} {p : Phrase} {n : Node} (h : Parsed spelled r p n)
    (hr : r ≤ r') : Parsed spelled r' p n := by
  induction hr with
  | refl => exact h
  | step _ ih => exact ih.succ

def groupLine (below : Below) : Rule (Option (List Node × List Node)) := do
  skipSemicolons
  match ← kind with
  | .closeParen => return none
  | .eof => unexpected "expected `)`"
  | _ =>
    let line ← declarationLine below
    terminator
    return some line

/-- All the ways in which a simple statement makes a guard: the channel operation gets its mark. -/
inductive Guards : Node → Node → Prop where
  | send {chan val : Node} {mark : Bool} : Guards (.send chan val mark) (.send chan val true)
  | receive {chan : Node} {mark : Bool} :
      Guards (.expressionStatement (.receive chan mark)) (.receive chan true)
  | declaration {kind : DeclarationKind} {ids : List Node} {chan : Node} {mark : Bool} :
      Guards (.declaration kind ids [.receive chan mark]) (.declaration kind ids [.receive chan true])
  | assignment {targets : List Node} {chan : Node} {mark : Bool} :
      Guards (.assignment targets [.receive chan mark]) (.assignment targets [.receive chan true])

theorem guardReceive?_eq_some {n g : Node} (h : guardReceive? n = some g) :
    ∃ chan mark, n = .receive chan mark ∧ g = .receive chan true := by
  unfold guardReceive? at h
  split at h
  · cases h
    exact ⟨_, _, rfl, rfl⟩
  · cases h

theorem guards_of_guard? {n g : Node} (h : guard? n = some g) : Guards n g := by
  unfold guard? at h
  split at h
  · cases h
    exact .send
  · obtain ⟨chan, mark, rfl, rfl⟩ := guardReceive?_eq_some h
    exact .receive
  · obtain ⟨v, hv, rfl⟩ := Option.map_eq_some_iff.1 h
    obtain ⟨chan, mark, rfl, rfl⟩ := guardReceive?_eq_some hv
    exact .declaration
  · obtain ⟨v, hv, rfl⟩ := Option.map_eq_some_iff.1 h
    obtain ⟨chan, mark, rfl, rfl⟩ := guardReceive?_eq_some hv
    exact .assignment
  · cases h

end MiniGo.Grammar
