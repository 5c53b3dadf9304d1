import MiniGo.Proofs.Tree.Acceptance

/-!
Trees as a source can denote them. They keep all rules about well-formed trees but five, and the check
of such a tree fails with nothing but these five or the limit.
-/
namespace MiniGo

/-- The nodes that a source can have in a place. Compared with well-formed trees, anything may stand
at the top, a function statement needs no name, a declaration may be empty, the last clause of a `for`
may declare and a `select` may have several default cases. -/
inductive Sourced : Place → Node → Prop where
  | item {n : Node} (h : Sourced .statement n) : Sourced .item n
  | name {s : String} (hs : s ≠ "") : Sourced .name (.identifier s none)
  | typed {s : String} {t : Node} (hs : s ≠ "") (ht : Sourced .type t) :
      Sourced .typedName (.identifier s (some t))
  | typedName {n : Node} (h : Sourced .typedName n) : Sourced .name n
  | voidType : Sourced .type .voidType
  | basicType {b : BasicType} : Sourced .type (.basicType b)
  | tupleType {elements : List Node} (h : ∀ n ∈ elements, Sourced .type n) :
      Sourced .type (.tupleType elements)
  | functionType {params : List Node} {result : Node} (hparams : ∀ n ∈ params, Sourced .type n)
      (hresult : Sourced .type result) : Sourced .type (.functionType (.tupleType params) result)
  | chanType {direction : Direction} {element : Node} (h : Sourced .type element) :
      Sourced .type (.chanType direction element)
  | arrayType {element : Node} {size : UInt64} (h : Sourced .type element) :
      Sourced .type (.arrayType element size)
  | sliceType {element : Node} (h : Sourced .type element) : Sourced .type (.sliceType element)
  | customType {s : String} (hs : s ≠ "") : Sourced .type (.customType s)
  | structType {names : List Node} (h : ∀ n ∈ names, Sourced .typedName n) :
      Sourced .type (.structType (names.map .structElement))
  | identifier {s : String} (hs : s ≠ "") : Sourced .expression (.identifier s none)
  | literal {value : Literal} : Sourced .expression (.literal value (.basicType value.type))
  | application {operator : Node} {operands : List Node} (hoperator : Sourced .expression operator)
      (hoperands : ∀ n ∈ operands, Sourced .expression n) :
      Sourced .expression (.application operator operands)
  | unary {opcode : String} {operand : Node} (hopcode : opcode ∈ Check.unaryOperators)
      (h : Sourced .expression operand) : Sourced .expression (.unary opcode operand)
  | binary {opcode : String} {left right : Node} (hopcode : opcode ∈ Check.binaryOperators)
      (hleft : Sourced .expression left) (hright : Sourced .expression right) :
      Sourced .expression (.binary left opcode right)
  | index {accessed index : Node} (haccessed : Sourced .expression accessed)
      (hindex : Sourced .expression index) : Sourced .expression (.index accessed index)
  | function {name result : Option Node} {formals body : List Node}
      (hname : ∀ n ∈ name, Sourced .name n) (hformals : ∀ n ∈ formals, Sourced .typedName n)
      (hresult : ∀ n ∈ result, Sourced .type n) (hbody : ∀ n ∈ body, Sourced .statement n) :
      Sourced .expression (.function name formals result body)
  | structLiteral {type : Node} {fields : List Node} (htype : Sourced .type type)
      (hfields : ∀ n ∈ fields, Sourced .fieldValue n) :
      Sourced .expression (.structLiteral type fields)
  | fieldValue {field expr : Node} (hfield : Sourced .name field) (hexpr : Sourced .expression expr) :
      Sourced .fieldValue (.fieldValue field expr)
  | member {accessed field : Node} (haccessed : Sourced .expression accessed)
      (hfield : Sourced .name field) : Sourced .expression (.member accessed field)
  | receive {chan : Node} (h : Sourced .expression chan) : Sourced .expression (.receive chan false)
  | declaration {kind : DeclarationKind} {ids vals : List Node} (hids : ∀ n ∈ ids, Sourced .name n)
      (hvals : ∀ n ∈ vals, Sourced .expression n) : Sourced .simple (.declaration kind ids vals)
  | assignment {targets vals : List Node} (hne : targets ≠ [])
      (htargets : ∀ n ∈ targets, Sourced .target n) (hvals : ∀ n ∈ vals, Sourced .expression n) :
      Sourced .simple (.assignment targets vals)
  | targetName {s : String} (hs : s ≠ "") : Sourced .target (.identifier s none)
  | targetIndex {accessed index : Node} (h : Sourced .expression (.index accessed index)) :
      Sourced .target (.index accessed index)
  | send {chan val : Node} (hchan : Sourced .expression chan) (hval : Sourced .expression val) :
      Sourced .simple (.send chan val false)
  | expressionStatement {e : Node} (h : Sourced .expression e) :
      Sourced .simple (.expressionStatement e)
  | simple {n : Node} (h : Sourced .simple n) : Sourced .statement n
  | returnStatement {es : List Node} (h : ∀ n ∈ es, Sourced .expression n) :
      Sourced .statement (.returnStatement es)
  | ifStatement {n : Node} (h : Sourced .elseIf n) : Sourced .statement n
  | elseIf {cond : Node} {cons : List Node} {alt : Option Alternative} {short : Option Node}
      (hshort : ∀ n ∈ short, Sourced .simple n) (hcond : Sourced .expression cond)
      (hcons : ∀ n ∈ cons, Sourced .statement n)
      (hblock : ∀ body, alt = some (.block body) → ∀ n ∈ body, Sourced .statement n)
      (hchained : ∀ n, alt = some (.chained n) → Sourced .elseIf n) :
      Sourced .elseIf (.ifStatement cond cons alt short)
  | forStatement {init cond post : Option Node} {body : List Node}
      (hinit : ∀ n ∈ init, n ≠ .empty → Sourced .simple n) (hcond : ∀ n ∈ cond, Sourced .expression n)
      (hpost : ∀ n ∈ post, Sourced .simple n) (hbody : ∀ n ∈ body, Sourced .statement n) :
      Sourced .statement (.forStatement init cond post body)
  | goStatement {operator : Node} {operands : List Node}
      (h : Sourced .expression (.application operator operands)) :
      Sourced .statement (.goStatement (.application operator operands))
  | selectStatement {cases : List Node} (h : ∀ n ∈ cases, Sourced .arm n) :
      Sourced .statement (.selectStatement cases)
  | functionStatement {name result : Option Node} {formals body : List Node}
      (h : Sourced .expression (.function name formals result body)) :
      Sourced .statement (.function name formals result body)
  | typeDeclaration {s : String} {type : Node} (hs : s ≠ "") (h : Sourced .type type) :
      Sourced .statement (.typeDeclaration (.customType s) type)
  | selectCase {guard : Node} {body : List Node} (hguard : Sourced .guard guard)
      (hbody : ∀ n ∈ body, Sourced .statement n) : Sourced .arm (.selectCase guard body)
  | defaultCase {body : List Node} (hbody : ∀ n ∈ body, Sourced .statement n) :
      Sourced .arm (.defaultCase body)
  | guardSend {chan val : Node} (hchan : Sourced .expression chan) (hval : Sourced .expression val) :
      Sourced .guard (.send chan val true)
  | guardReceive {chan : Node} (h : Sourced .expression chan) : Sourced .guard (.receive chan true)
  | guardDeclaration {kind : DeclarationKind} {ids : List Node} {chan : Node}
      (hids : ∀ n ∈ ids, Sourced .name n) (h : Sourced .expression chan) :
      Sourced .guard (.declaration kind ids [.receive chan true])
  | guardAssignment {targets : List Node} {chan : Node} (hne : targets ≠ [])
      (htargets : ∀ n ∈ targets, Sourced .target n) (h : Sourced .expression chan) :
      Sourced .guard (.assignment targets [.receive chan true])

/-- The defects that the check may find in a tree of a source. -/
inductive Defect (limit : Nat) : Cause → Prop where
  | item {k : NodeKind} (hk : k ∉ [.declaration, .function, .typeDeclaration]) :
      Defect limit (.invalidChild .program "top_declarations"
        "declaration, function or type declaration" k)
  | unnamedFunction : Defect limit (.invalidNode .function "function declaration must be named")
  | emptyDeclaration :
      Defect limit (.invalidNode .declaration "declaration needs at least one identifier")
  | postDeclaration :
      Defect limit (.invalidChild .forStatement "post" "expression, assignment or send statement"
        .declaration)
  | secondDefault :
      Defect limit (.invalidNode .selectStatement "select has more than one default case")
  | tooDeep : Defect limit (.limitExceeded limit)

namespace Check

def Mild (limit : Nat) (v : Verdict) : Prop := ∀ cause, v = .error cause → Defect limit cause

section Verdicts

variable {limit : Nat}

theorem mild_ok : Mild limit (.ok ()) := by
  intro cause hcause
  cases hcause

theorem mild_error {cause : Cause} (h : Defect limit cause) : Mild limit (.error cause) := by
  intro cause' hcause
  cases hcause
  exact h

theorem Mild.bind {x : Verdict} {f : Unit → Verdict} (hx : Mild limit x) (hf : Mild limit (f ())) :
    Mild limit (x >>= f) := by
  cases x with
  | error e => exact hx
  | ok u => exact hf

theorem mild_forM {f : Node → Verdict} {ns : List Node} (h : ∀ n ∈ ns, Mild limit (f n)) :
    Mild limit (ns.forM f) := by
  induction ns with
  | nil => exact mild_ok
  | cons n ns ih =>
    obtain ⟨hn, hns⟩ := List.forall_mem_cons.1 h
    exact hn.bind (ih hns)

theorem mild_optional {f : Node → Verdict} {o : Option Node} (h : ∀ n ∈ o, Mild limit (f n)) :
    Mild limit (optional f o) := by
  cases o with
  | none => exact mild_ok
  | some n => exact h n rfl

end Verdicts

def MildOnSources (limit : Nat) (below : Below) : Prop :=
  ∀ s n, Sourced s.place n → Mild limit (below s n)

section Judgements

variable {limit : Nat} {below : Below} (hb : MildOnSources limit below)
include hb

theorem identifier_mild (parent : NodeKind) (field : String) {n : Node} (h : Sourced .name n) :
    Mild limit (identifier below parent field n) := by
  cases h with
  | name hs =>
    simp only [identifier, String.isEmpty_iff, hs, if_false]
    exact mild_ok
  | typedName h =>
    cases h with
    | typed hs ht =>
      simp only [identifier, String.isEmpty_iff, hs, if_false]
      exact hb (.type .identifier "val_type") _ ht

theorem typedIdentifier_mild {parent : NodeKind} {field : String} {n : Node}
    (h : Sourced .typedName n) : Mild limit (typedIdentifier below parent field n) := by
  have hname := identifier_mild hb parent field (.typedName h)
  cases h with
  | typed => exact hname

theorem block_mild {parent : NodeKind} {field : String} {body : List Node}
    (h : ∀ n ∈ body, Sourced .statement n) : Mild limit (block below parent field body) :=
  mild_forM fun n hn => hb (.statement parent field) n (h n hn)

theorem expressions_mild {parent : NodeKind} {field : String} {es : List Node}
    (h : ∀ n ∈ es, Sourced .expression n) : Mild limit (expressions below parent field es) :=
  mild_forM fun n hn => hb (.expression parent field) n (h n hn)

theorem simpleStatement_mild {parent : NodeKind} {field : String} {n : Node} (h : Sourced .simple n) :
    Mild limit (simpleStatement below parent field n) := by
  have hbelow := hb (.statement parent field) n (.simple h)
  cases h with
  | declaration | assignment | send | expressionStatement => exact hbelow

theorem forInit_mild {n : Node} (h : n ≠ .empty → Sourced .simple n) :
    Mild limit (forInit below n) := by
  unfold forInit
  split
  · exact mild_ok
  · rename_i hn
    exact simpleStatement_mild hb (h hn)

theorem forPost_mild {n : Node} (h : Sourced .simple n) : Mild limit (forPost below n) := by
  unfold forPost
  split
  · exact mild_error .postDeclaration
  · exact simpleStatement_mild hb h

theorem declaredNames_mild {ids : List Node} (h : ∀ n ∈ ids, Sourced .name n) :
    Mild limit (declaredNames below ids) := by
  unfold declaredNames
  split
  · exact mild_error .emptyDeclaration
  · exact mild_forM fun n hn => identifier_mild hb _ _ (h n hn)

theorem target_mild {n : Node} (h : Sourced .target n) : Mild limit (target below n) := by
  cases h with
  | targetName hs => exact identifier_mild hb .assignment "ids" (.name hs)
  | targetIndex h => exact hb (.expression .assignment "ids") _ h

theorem targets_mild {ts : List Node} (hne : ts ≠ []) (h : ∀ n ∈ ts, Sourced .target n) :
    Mild limit (targets below ts) := by
  simp only [targets, List.isEmpty_iff, hne, if_false]
  exact mild_forM fun n hn => target_mild hb (h n hn)

theorem functionParts_mild {name result : Option Node} {formals body : List Node}
    (h : Sourced .expression (.function name formals result body)) :
    Mild limit (functionParts below name formals result body) := by
  cases h with
  | function hname hformals hresult hbody =>
    apply (mild_optional fun n hn => identifier_mild hb _ _ (hname n hn)).bind
    apply (mild_forM fun n hn => typedIdentifier_mild hb (hformals n hn)).bind
    apply (mild_optional fun n hn => hb (.type .function "ret_type") n (hresult n hn)).bind
    exact block_mild hb hbody

theorem namedFunction_mild {name result : Option Node} {formals body : List Node}
    (h : Sourced .expression (.function name formals result body)) :
    Mild limit (namedFunction below name formals result body) := by
  unfold namedFunction
  split
  · exact mild_error .unnamedFunction
  · exact functionParts_mild hb h

theorem ifParts_mild {cond : Node} {cons : List Node} {alt : Option Alternative}
    {short : Option Node} (h : Sourced .elseIf (.ifStatement cond cons alt short)) :
    Mild limit (ifParts below cond cons alt short) := by
  cases h with
  | elseIf hshort hcond hcons hblock hchained =>
    rw [ifParts_eq]
    apply (mild_optional fun n hn => simpleStatement_mild hb (hshort n hn)).bind
    apply (hb (.expression .ifStatement "cond") cond hcond).bind
    apply (block_mild hb hcons).bind
    match alt with
    | none => exact mild_ok
    | some (.block body) => exact block_mild hb (hblock body rfl)
    | some (.chained node) => exact hb .elseIf node (hchained node rfl)

theorem selectCases_mild {cases : List Node} (h : ∀ n ∈ cases, Sourced .arm n) :
    Mild limit (selectCases below cases) := by
  apply (mild_forM fun n hn => hb .arm n (h n hn)).bind
  split
  · exact mild_error .secondDefault
  · exact mild_ok

theorem fieldValue_mild {n : Node} (h : Sourced .fieldValue n) : Mild limit (fieldValue below n) := by
  cases h with
  | fieldValue hfield hexpr =>
    exact (identifier_mild hb _ _ hfield).bind (hb (.expression .fieldValue "expr") _ hexpr)

theorem type_mild {parent : NodeKind} {field : String} {n : Node} (h : Sourced .type n) :
    Mild limit (type below parent field n) := by
  cases h with
  | voidType | basicType => exact mild_ok
  | tupleType h => exact mild_forM fun n hn => hb (.type .tupleType "elements") n (h n hn)
  | functionType hparams hresult =>
    exact (hb (.type .functionType "params_type") _ (.tupleType hparams)).bind
      (hb (.type .functionType "return_type") _ hresult)
  | chanType h => exact hb (.type .chanType "element") _ h
  | arrayType h => exact hb (.type .arrayType "element") _ h
  | sliceType h => exact hb (.type .sliceType "element") _ h
  | customType hs =>
    simp only [type, String.isEmpty_iff, hs, if_false]
    exact mild_ok
  | structType h =>
    refine mild_forM (List.forall_mem_map.2 ?_)
    intro n hn
    exact typedIdentifier_mild hb (h n hn)

theorem expression_mild {parent : NodeKind} {field : String} {n : Node} (h : Sourced .expression n) :
    Mild limit (expression below parent field n) := by
  cases h with
  | identifier hs => exact identifier_mild hb parent field (.name hs)
  | literal =>
    simp only [expression, if_true]
    exact mild_ok
  | application hoperator hoperands =>
    exact (hb (.expression .application "operator") _ hoperator).bind (expressions_mild hb hoperands)
  | unary hopcode h =>
    simp only [expression, List.contains_iff_mem.2 hopcode, if_true]
    exact hb (.expression .unary "expr") _ h
  | binary hopcode hleft hright =>
    simp only [expression, List.contains_iff_mem.2 hopcode, if_true]
    exact (hb (.expression .binary "left") _ hleft).bind (hb (.expression .binary "right") _ hright)
  | index haccessed hindex =>
    exact (hb (.expression .index "accessed") _ haccessed).bind
      (hb (.expression .index "index") _ hindex)
  | function hname hformals hresult hbody =>
    exact functionParts_mild hb (.function hname hformals hresult hbody)
  | structLiteral htype hfields =>
    exact (hb (.type .structLiteral "val_type") _ htype).bind
      (mild_forM fun n hn => fieldValue_mild hb (hfields n hn))
  | member haccessed hfield =>
    exact (hb (.expression .member "accessed") _ haccessed).bind (identifier_mild hb _ _ hfield)
  | receive h => exact hb (.expression .receive "chan") _ h

theorem simple_mild {parent : NodeKind} {field : String} {n : Node} (h : Sourced .simple n) :
    Mild limit (statement below parent field n) := by
  cases h with
  | declaration hids hvals =>
    exact (declaredNames_mild hb hids).bind (expressions_mild hb hvals)
  | assignment hne htargets hvals =>
    exact (targets_mild hb hne htargets).bind (expressions_mild hb hvals)
  | send hchan hval =>
    exact (hb (.expression .send "chan") _ hchan).bind (hb (.expression .send "val") _ hval)
  | expressionStatement h => exact hb (.expression .expressionStatement "expression") _ h

theorem typeDeclaration_mild {s : String} {t : Node} (hs : s ≠ "") (h : Sourced .type t) :
    Mild limit (typeDeclaration below (.customType s) t) := by
  simp only [typeDeclaration, String.isEmpty_iff, hs, if_false]
  exact hb (.type .typeDeclaration "dec_type") t h

theorem statement_mild {parent : NodeKind} {field : String} {n : Node} (h : Sourced .statement n) :
    Mild limit (statement below parent field n) := by
  cases h with
  | simple h => exact simple_mild hb h
  | returnStatement h => exact expressions_mild hb h
  | ifStatement h =>
    cases h with
    | elseIf hshort hcond hcons hblock hchained =>
      exact ifParts_mild hb (.elseIf hshort hcond hcons hblock hchained)
  | forStatement hinit hcond hpost hbody =>
    apply (mild_optional fun n hn => forInit_mild hb (hinit n hn)).bind
    apply (mild_optional fun n hn => hb (.expression .forStatement "cond") n (hcond n hn)).bind
    apply (mild_optional fun n hn => forPost_mild hb (hpost n hn)).bind
    exact block_mild hb hbody
  | goStatement h => exact hb (.expression .goStatement "app") _ h
  | selectStatement h => exact selectCases_mild hb h
  | functionStatement h => exact namedFunction_mild hb h
  | typeDeclaration hs h => exact typeDeclaration_mild hb hs h

theorem item_mild {n : Node} (h : Sourced .statement n) : Mild limit (item below n) := by
  unfold item
  split
  · exact hb (.statement .program "top_declarations") _ h
  · cases h with
    | simple h => cases h
    | ifStatement h => cases h
    | functionStatement h => exact namedFunction_mild hb h
  · cases h with
    | simple h => cases h
    | ifStatement h => cases h
    | typeDeclaration hs h => exact typeDeclaration_mild hb hs h
  · rename_i hdeclaration hfunction htype
    refine mild_error (.item ?_)
    cases n with
    | declaration kind ids vals => exact absurd rfl (hdeclaration kind ids vals)
    | function name formals result body => exact absurd rfl (hfunction name formals result body)
    | typeDeclaration name type => exact absurd rfl (htype name type)
    | _ => simp [Node.kind]

theorem elseIf_mild {n : Node} (h : Sourced .elseIf n) : Mild limit (elseIf below n) := by
  have hparts := h
  cases h with
  | elseIf => exact ifParts_mild hb hparts

theorem arm_mild {n : Node} (h : Sourced .arm n) : Mild limit (arm below n) := by
  cases h with
  | selectCase hguard hbody => exact (hb .guard _ hguard).bind (block_mild hb hbody)
  | defaultCase hbody => exact block_mild hb hbody

theorem guard_mild {n : Node} (h : Sourced .guard n) : Mild limit (guard below n) := by
  cases h with
  | guardSend hchan hval =>
    exact (hb (.expression .send "chan") _ hchan).bind (hb (.expression .send "val") _ hval)
  | guardReceive h => exact hb (.expression .receive "chan") _ h
  | guardDeclaration hids h =>
    exact (declaredNames_mild hb hids).bind (hb (.expression .receive "chan") _ h)
  | guardAssignment hne htargets h =>
    exact (targets_mild hb hne htargets).bind (hb (.expression .receive "chan") _ h)

end Judgements

/-- What stands in a slot of a tree of a source fails only with the defects of sources. -/
theorem check_mild (limit levels : Nat) : MildOnSources limit (check limit levels) := by
  induction levels with
  | zero =>
    intro s n _
    exact mild_error .tooDeep
  | succ levels ih =>
    intro s n h
    cases s with
    | item =>
      cases h with
      | item h => exact item_mild ih h
    | statement parent field => exact statement_mild ih h
    | expression parent field => exact expression_mild ih h
    | type parent field => exact type_mild ih h
    | elseIf => exact elseIf_mild ih h
    | arm => exact arm_mild ih h
    | guard => exact guard_mild ih h

end Check

theorem Node.check_of_sourced {items : List Node} (h : ∀ n ∈ items, Sourced .statement n)
    (limit : Nat) :
    (Node.program items).check limit = .ok () ∨
      ∃ cause, (Node.program items).check limit = .error ⟨cause, .null⟩ ∧ Defect limit cause := by
  have hmild := Check.mild_forM fun n hn => Check.check_mild limit limit .item n (.item (h n hn))
  simp only [Node.check]
  cases hv : items.forM (Check.check limit limit .item) with
  | ok u => exact .inl rfl
  | error cause => exact .inr ⟨cause, rfl, hmild cause hv⟩

end MiniGo
