import MiniGo.Tree

/-!
Well-formed trees, said without a checker and without a limit: which nodes may stand in which place
of their parent, and how many levels a tree has.
-/
namespace MiniGo

/-- What a node is to its parent. Simple statements are those that a header may hold; the names of
parameters and struct fields are typed. -/
inductive Place where
  | root | item | statement | simple | post | expression | type
  | name | typedName | target | elseIf | arm | guard | received | fieldValue | structElement
deriving DecidableEq, Repr

/-- The rules of the language about the children of a node. Channel operations are marked exactly
where they guard a case of a `select`: no rule for statements or expressions admits the mark, and no
rule for guards admits its absence. -/
inductive Fits : Place → Node → Prop where
  | program {items : List Node} (hitems : ∀ n ∈ items, Fits .item n) : Fits .root (.program items)
  | itemDeclaration {kind : DeclarationKind} {ids vals : List Node}
      (h : Fits .statement (.declaration kind ids vals)) : Fits .item (.declaration kind ids vals)
  | itemFunction {name result : Option Node} {formals body : List Node}
      (h : Fits .statement (.function name formals result body)) :
      Fits .item (.function name formals result body)
  | itemType {name type : Node} (h : Fits .statement (.typeDeclaration name type)) :
      Fits .item (.typeDeclaration name type)
  | untyped {s : String} (hs : s ≠ "") : Fits .name (.identifier s none)
  | typed {s : String} {t : Node} (hs : s ≠ "") (ht : Fits .type t) :
      Fits .name (.identifier s (some t))
  | typedName {s : String} {t : Node} (h : Fits .name (.identifier s (some t))) :
      Fits .typedName (.identifier s (some t))
  | anyType : Fits .type .anyType
  | voidType : Fits .type .voidType
  | basicType {b : BasicType} : Fits .type (.basicType b)
  | tupleType {elements : List Node} (h : ∀ n ∈ elements, Fits .type n) :
      Fits .type (.tupleType elements)
  | functionType {params : List Node} {result : Node} (hparams : Fits .type (.tupleType params))
      (hresult : Fits .type result) : Fits .type (.functionType (.tupleType params) result)
  | chanType {direction : Direction} {element : Node} (h : Fits .type element) :
      Fits .type (.chanType direction element)
  | arrayType {element : Node} {size : UInt64} (h : Fits .type element) :
      Fits .type (.arrayType element size)
  | sliceType {element : Node} (h : Fits .type element) : Fits .type (.sliceType element)
  | customType {s : String} (hs : s ≠ "") : Fits .type (.customType s)
  | structType {elems : List Node} (h : ∀ n ∈ elems, Fits .structElement n) :
      Fits .type (.structType elems)
  | structElement {name : Node} (h : Fits .typedName name) :
      Fits .structElement (.structElement name)
  | identifier {s : String} {t : Option Node} (h : Fits .name (.identifier s t)) :
      Fits .expression (.identifier s t)
  | literal {value : Literal} : Fits .expression (.literal value (.basicType value.type))
  | application {operator : Node} {operands : List Node} (hoperator : Fits .expression operator)
      (hoperands : ∀ n ∈ operands, Fits .expression n) :
      Fits .expression (.application operator operands)
  | unary {opcode : String} {operand : Node} (hopcode : opcode ∈ ["!", "-"])
      (h : Fits .expression operand) : Fits .expression (.unary opcode operand)
  | binary {opcode : String} {left right : Node}
      (hopcode : opcode ∈ ["||", "&&", "==", "!=", "<", "<=", ">", ">=", "+", "-", "*", "/", "%"])
      (hleft : Fits .expression left) (hright : Fits .expression right) :
      Fits .expression (.binary left opcode right)
  | index {accessed index : Node} (haccessed : Fits .expression accessed)
      (hindex : Fits .expression index) : Fits .expression (.index accessed index)
  | function {name result : Option Node} {formals body : List Node}
      (hname : ∀ n ∈ name, Fits .name n) (hformals : ∀ n ∈ formals, Fits .typedName n)
      (hresult : ∀ n ∈ result, Fits .type n) (hbody : ∀ n ∈ body, Fits .statement n) :
      Fits .expression (.function name formals result body)
  | structLiteral {type : Node} {fields : List Node} (htype : Fits .type type)
      (hfields : ∀ n ∈ fields, Fits .fieldValue n) : Fits .expression (.structLiteral type fields)
  | fieldValue {field expr : Node} (hfield : Fits .name field) (hexpr : Fits .expression expr) :
      Fits .fieldValue (.fieldValue field expr)
  | member {accessed field : Node} (haccessed : Fits .expression accessed)
      (hfield : Fits .name field) : Fits .expression (.member accessed field)
  | receive {chan : Node} (h : Fits .expression chan) : Fits .expression (.receive chan false)
  | declaration {kind : DeclarationKind} {ids vals : List Node} (hne : ids ≠ [])
      (hids : ∀ n ∈ ids, Fits .name n) (hvals : ∀ n ∈ vals, Fits .expression n) :
      Fits .statement (.declaration kind ids vals)
  | expressionStatement {e : Node} (h : Fits .expression e) :
      Fits .statement (.expressionStatement e)
  | returnStatement {es : List Node} (h : ∀ n ∈ es, Fits .expression n) :
      Fits .statement (.returnStatement es)
  | assignment {targets vals : List Node} (hne : targets ≠ [])
      (htargets : ∀ n ∈ targets, Fits .target n) (hvals : ∀ n ∈ vals, Fits .expression n) :
      Fits .statement (.assignment targets vals)
  | targetName {s : String} {t : Option Node} (h : Fits .name (.identifier s t)) :
      Fits .target (.identifier s t)
  | targetIndex {accessed index : Node} (h : Fits .expression (.index accessed index)) :
      Fits .target (.index accessed index)
  | ifStatement {cond : Node} {cons : List Node} {alt : Option Alternative} {short : Option Node}
      (h : Fits .elseIf (.ifStatement cond cons alt short)) :
      Fits .statement (.ifStatement cond cons alt short)
  | elseIf {cond : Node} {cons : List Node} {alt : Option Alternative} {short : Option Node}
      (hshort : ∀ n ∈ short, Fits .simple n) (hcond : Fits .expression cond)
      (hcons : ∀ n ∈ cons, Fits .statement n)
      (hblock : ∀ body, alt = some (.block body) → ∀ n ∈ body, Fits .statement n)
      (hchained : ∀ n, alt = some (.chained n) → Fits .elseIf n) :
      Fits .elseIf (.ifStatement cond cons alt short)
  | forStatement {init cond post : Option Node} {body : List Node}
      (hinit : ∀ n ∈ init, n ≠ .empty → Fits .simple n) (hcond : ∀ n ∈ cond, Fits .expression n)
      (hpost : ∀ n ∈ post, Fits .post n) (hbody : ∀ n ∈ body, Fits .statement n) :
      Fits .statement (.forStatement init cond post body)
  | goStatement {operator : Node} {operands : List Node}
      (h : Fits .expression (.application operator operands)) :
      Fits .statement (.goStatement (.application operator operands))
  | selectStatement {cases : List Node} (hcases : ∀ n ∈ cases, Fits .arm n)
      (hdefault : cases.countP (·.kind = .defaultCase) ≤ 1) :
      Fits .statement (.selectStatement cases)
  | send {chan val : Node} (hchan : Fits .expression chan) (hval : Fits .expression val) :
      Fits .statement (.send chan val false)
  | empty : Fits .statement .empty
  | namedFunction {name : Node} {formals body : List Node} {result : Option Node}
      (h : Fits .expression (.function (some name) formals result body)) :
      Fits .statement (.function (some name) formals result body)
  | typeDeclaration {s : String} {type : Node} (hs : s ≠ "") (h : Fits .type type) :
      Fits .statement (.typeDeclaration (.customType s) type)
  | simpleDeclaration {kind : DeclarationKind} {ids vals : List Node}
      (h : Fits .statement (.declaration kind ids vals)) : Fits .simple (.declaration kind ids vals)
  | simplePost {n : Node} (h : Fits .post n) : Fits .simple n
  | postExpression {e : Node} (h : Fits .statement (.expressionStatement e)) :
      Fits .post (.expressionStatement e)
  | postAssignment {targets vals : List Node} (h : Fits .statement (.assignment targets vals)) :
      Fits .post (.assignment targets vals)
  | postSend {chan val : Node} {mark : Bool} (h : Fits .statement (.send chan val mark)) :
      Fits .post (.send chan val mark)
  | selectCase {guard : Node} {body : List Node} (hguard : Fits .guard guard)
      (hbody : ∀ n ∈ body, Fits .statement n) : Fits .arm (.selectCase guard body)
  | defaultCase {body : List Node} (hbody : ∀ n ∈ body, Fits .statement n) :
      Fits .arm (.defaultCase body)
  | guardSend {chan val : Node} (hchan : Fits .expression chan) (hval : Fits .expression val) :
      Fits .guard (.send chan val true)
  | guardReceive {n : Node} (h : Fits .received n) : Fits .guard n
  | guardDeclaration {kind : DeclarationKind} {ids : List Node} {val : Node} (hne : ids ≠ [])
      (hids : ∀ n ∈ ids, Fits .name n) (hval : Fits .received val) :
      Fits .guard (.declaration kind ids [val])
  | guardAssignment {targets : List Node} {val : Node} (hne : targets ≠ [])
      (htargets : ∀ n ∈ targets, Fits .target n) (hval : Fits .received val) :
      Fits .guard (.assignment targets [val])
  | received {chan : Node} (h : Fits .expression chan) : Fits .received (.receive chan true)

namespace Node

/-- A whole tree that is a program. -/
def WellFormed (n : Node) : Prop := Fits .root n

mutual

/-- How many levels there are below a node. Statements, expressions and types in a node are one level
below it; names, struct elements and field values are not, only what they hold is. -/
def depth : Node → Nat
  | .program items => childDepth items
  | .identifier _ type => optionalDepth type
  | .literal _ _ => 0
  | .application operator operands => max (depth operator + 1) (childDepth operands)
  | .declaration _ ids vals => max (partDepth ids) (childDepth vals)
  | .unary _ operand => depth operand + 1
  | .binary left _ right => max (depth left + 1) (depth right + 1)
  | .expressionStatement e => depth e + 1
  | .returnStatement es => childDepth es
  | .assignment targets vals => max (targetDepth targets) (childDepth vals)
  | .ifStatement cond cons alt short =>
    max (max (optionalDepth short) (depth cond + 1)) (max (childDepth cons) (elseDepth alt))
  | .forStatement init cond post body =>
    max (max (initDepth init) (optionalDepth cond)) (max (optionalDepth post) (childDepth body))
  | .goStatement app => depth app + 1
  | .selectStatement cases => childDepth cases
  | .selectCase guard body => max (guardDepth guard + 1) (childDepth body)
  | .defaultCase body => childDepth body
  | .send chan val _ => max (depth chan + 1) (depth val + 1)
  | .receive chan _ => depth chan + 1
  | .index accessed i => max (depth accessed + 1) (depth i + 1)
  | .function name formals result body =>
    max (max (nameDepth name) (partDepth formals)) (max (optionalDepth result) (childDepth body))
  | .empty => 0
  | .structElement name => depth name
  | .fieldValue field expr => max (depth field) (depth expr + 1)
  | .structLiteral type fields => max (depth type + 1) (partDepth fields)
  | .member accessed field => max (depth accessed + 1) (depth field)
  | .typeDeclaration _ type => depth type + 1
  | .anyType => 0
  | .voidType => 0
  | .basicType _ => 0
  | .tupleType elements => childDepth elements
  | .functionType params result => max (depth params + 1) (depth result + 1)
  | .chanType _ element => depth element + 1
  | .arrayType element _ => depth element + 1
  | .sliceType element => depth element + 1
  | .customType _ => 0
  | .structType elems => partDepth elems

/-- Levels of children that are one level down. -/
def childDepth : List Node → Nat
  | [] => 0
  | n :: ns => max (depth n + 1) (childDepth ns)

/-- Levels of children that are on the level of their parent. -/
def partDepth : List Node → Nat
  | [] => 0
  | n :: ns => max (depth n) (partDepth ns)

def optionalDepth : Option Node → Nat
  | none => 0
  | some n => depth n + 1

def nameDepth : Option Node → Nat
  | none => 0
  | some n => depth n

/-- A target is a name or an expression. -/
def targetDepth : List Node → Nat
  | [] => 0
  | .identifier _ type :: ns => max (optionalDepth type) (targetDepth ns)
  | n :: ns => max (depth n + 1) (targetDepth ns)

/-- The empty first clause of a `for` is not a level of its own. -/
def initDepth : Option Node → Nat
  | none => 0
  | some .empty => 0
  | some n => depth n + 1

def elseDepth : Option Alternative → Nat
  | none => 0
  | some (.block body) => childDepth body
  | some (.chained n) => depth n + 1

/-- In a guard the receive is on the level of the guard, not one level down. -/
def guardDepth : Node → Nat
  | .send chan val _ => max (depth chan + 1) (depth val + 1)
  | .receive chan _ => depth chan + 1
  | .declaration _ ids vals => max (partDepth ids) (partDepth vals)
  | .assignment targets vals => max (targetDepth targets) (partDepth vals)
  | _ => 0

end

/-- A declaration at the top is two levels down, every other item one. -/
def itemDepth : Node → Nat
  | .declaration kind ids vals => depth (.declaration kind ids vals) + 1
  | n => depth n

/-- The deepest level of a whole tree. -/
def height : Node → Nat
  | .program items => items.foldr (fun n h => max (itemDepth n + 1) h) 0
  | n => depth n

@[simp] theorem childDepth_le {ns : List Node} {k : Nat} :
    childDepth ns ≤ k ↔ ∀ n ∈ ns, depth n < k := by
  induction ns with
  | nil => simp [childDepth]
  | cons n ns ih => rw [childDepth, Nat.max_le, Nat.succ_le_iff, ih, List.forall_mem_cons]

@[simp] theorem partDepth_le {ns : List Node} {k : Nat} :
    partDepth ns ≤ k ↔ ∀ n ∈ ns, depth n ≤ k := by
  induction ns with
  | nil => simp [partDepth]
  | cons n ns ih => rw [partDepth, Nat.max_le, ih, List.forall_mem_cons]

private theorem targetDepth_cons (n : Node) (ns : List Node) :
    targetDepth (n :: ns) = max (targetDepth [n]) (targetDepth ns) := by
  cases n <;> simp [targetDepth]

theorem targetDepth_le {ns : List Node} {k : Nat} :
    targetDepth ns ≤ k ↔ ∀ n ∈ ns, targetDepth [n] ≤ k := by
  induction ns with
  | nil => simp [targetDepth]
  | cons n ns ih => rw [targetDepth_cons, Nat.max_le, ih]; simp

@[simp] theorem optionalDepth_le {o : Option Node} {k : Nat} :
    optionalDepth o ≤ k ↔ ∀ n ∈ o, depth n < k := by
  cases o with
  | none => simp [optionalDepth]
  | some n =>
    rw [optionalDepth, Nat.succ_le_iff]
    simp

@[simp] theorem nameDepth_le {o : Option Node} {k : Nat} :
    nameDepth o ≤ k ↔ ∀ n ∈ o, depth n ≤ k := by
  cases o <;> simp [nameDepth]

@[simp] theorem initDepth_le {o : Option Node} {k : Nat} :
    initDepth o ≤ k ↔ ∀ n ∈ o, n ≠ .empty → depth n < k := by
  cases o with
  | none => simp [initDepth]
  | some n =>
    by_cases hn : n = .empty
    · subst hn
      simp [initDepth]
    · rw [initDepth, Nat.succ_le_iff]
      · simp [hn]
      · exact hn

theorem depth_function_le {name result : Option Node} {formals body : List Node} {k : Nat} :
    depth (.function name formals result body) ≤ k ↔
      ((∀ n ∈ name, depth n ≤ k) ∧ ∀ n ∈ formals, depth n ≤ k) ∧
        (∀ n ∈ result, depth n < k) ∧ childDepth body ≤ k := by
  simp only [depth, Nat.max_le, nameDepth_le, partDepth_le, optionalDepth_le]

theorem depth_ifStatement_le {cond : Node} {cons : List Node} {alt : Option Alternative}
    {short : Option Node} {k : Nat} :
    depth (.ifStatement cond cons alt short) ≤ k ↔
      ((∀ n ∈ short, depth n < k) ∧ depth cond < k) ∧ childDepth cons ≤ k ∧ elseDepth alt ≤ k := by
  simp only [depth, Nat.max_le, optionalDepth_le, Nat.succ_le_iff]

theorem height_program_le {items : List Node} {k : Nat} :
    height (.program items) ≤ k ↔ ∀ n ∈ items, itemDepth n < k := by
  simp only [height]
  induction items with
  | nil => simp
  | cons n ns ih => rw [List.foldr_cons, Nat.max_le, Nat.succ_le_iff, ih, List.forall_mem_cons]

end Node

end MiniGo
