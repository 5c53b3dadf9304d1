import MiniGo.Proofs.Tree.WellFormed
import MiniGo.Tree.Check

/-!
The check accepts exactly the well-formed trees whose levels fit the limit. Each judgement is compared
with the rules of its place, for a judgement `below` of which the same is known one level down; the
levels that are left then carry the induction.
-/
namespace MiniGo.Check
open Node

def Slot.place : Slot → Place
  | .item => .item
  | .statement _ _ => .statement
  | .expression _ _ => .expression
  | .type _ _ => .type
  | .elseIf => .elseIf
  | .arm => .arm
  | .guard => .guard

def Slot.depth : Slot → Node → Nat
  | .item, n => n.itemDepth
  | .guard, n => n.guardDepth
  | _, n => n.depth

/-- The judgement accepts what is well-formed and has fewer than `levels` levels below it. -/
def Exact (below : Below) (levels : Nat) : Prop :=
  ∀ s n, below s n = .ok () ↔ Fits s.place n ∧ s.depth n < levels

@[simp] theorem badChild_ne_ok (parent : NodeKind) (field expected : String) (found : Node) :
    badChild parent field expected found ≠ .ok () := nofun

@[simp] theorem badNode_ne_ok (kind : NodeKind) (message : String) :
    badNode kind message ≠ .ok () := nofun

@[simp] theorem bind_eq_ok {x : Verdict} {f : Unit → Verdict} :
    (x >>= f) = .ok () ↔ x = .ok () ∧ f () = .ok () := by
  cases x with
  | error e => exact ⟨nofun, nofun⟩
  | ok u => exact ⟨fun h => ⟨rfl, h⟩, fun h => h.2⟩

@[simp] theorem forM_eq_ok {f : Node → Verdict} {ns : List Node} :
    ns.forM f = .ok () ↔ ∀ n ∈ ns, f n = .ok () := by
  induction ns with
  | nil => exact ⟨nofun, fun _ => rfl⟩
  | cons n ns ih =>
    change (f n >>= fun _ => ns.forM f) = .ok () ↔ _
    rw [bind_eq_ok, ih]
    simp

@[simp] theorem optional_eq_ok {f : Node → Verdict} {o : Option Node} :
    optional f o = .ok () ↔ ∀ n ∈ o, f n = .ok () := by
  cases o <;> simp [optional]

def elseBranch (below : Below) : Option Alternative → Verdict
  | none => .ok ()
  | some (.block body) => block below .ifStatement "alt" body
  | some (.chained node) => below .elseIf node

theorem ifParts_eq (below : Below) (cond : Node) (cons : List Node) (alt : Option Alternative)
    (short : Option Node) :
    ifParts below cond cons alt short = (do
      optional (simpleStatement below .ifStatement "short") short
      below (.expression .ifStatement "cond") cond
      block below .ifStatement "cons" cons
      elseBranch below alt) := by
  match alt with
  | none => rfl
  | some (.block _) => rfl
  | some (.chained _) => rfl

variable {below : Below} {levels : Nat} (hb : Exact below levels)
include hb

theorem Exact.statement {parent : NodeKind} {field : String} {n : Node} :
    below (.statement parent field) n = .ok () ↔ Fits .statement n ∧ n.depth < levels := hb _ _

theorem Exact.expression {parent : NodeKind} {field : String} {n : Node} :
    below (.expression parent field) n = .ok () ↔ Fits .expression n ∧ n.depth < levels := hb _ _

theorem Exact.type {parent : NodeKind} {field : String} {n : Node} :
    below (.type parent field) n = .ok () ↔ Fits .type n ∧ n.depth < levels := hb _ _

theorem identifier_eq_ok (parent : NodeKind) (field : String) {n : Node} :
    identifier below parent field n = .ok () ↔ Fits .name n ∧ n.depth ≤ levels := by
  constructor
  · intro h
    unfold identifier at h
    split at h
    · rename_i name type
      split at h
      · exact absurd h (badNode_ne_ok _ _)
      · rename_i hname
        have hne : name ≠ "" := by simpa using hname
        cases type with
        | none => exact ⟨.untyped hne, by simp [depth, optionalDepth]⟩
        | some t =>
          obtain ⟨ht, hd⟩ := hb.type.1 h
          exact ⟨.typed hne ht, by simp only [depth, optionalDepth]; exact hd⟩
    · exact absurd h (badChild_ne_ok _ _ _ _)
  · rintro ⟨h, hd⟩
    cases h with
    | untyped hs => simp [identifier, hs]
    | typed hs ht =>
      simp only [depth, optionalDepth] at hd
      simpa [identifier, hs] using hb.type.2 ⟨ht, hd⟩

theorem typedIdentifier_eq_ok {parent : NodeKind} {field : String} {n : Node} :
    typedIdentifier below parent field n = .ok () ↔ Fits .typedName n ∧ n.depth ≤ levels := by
  constructor
  · intro h
    unfold typedIdentifier at h
    split at h
    · exact absurd h (badNode_ne_ok _ _)
    · rename_i hn
      obtain ⟨h, hd⟩ := (identifier_eq_ok hb _ _).1 h
      cases h with
      | untyped hs => exact absurd rfl (hn _)
      | typed hs ht => exact ⟨.typedName (.typed hs ht), hd⟩
  · rintro ⟨h, hd⟩
    cases h with
    | typedName h =>
      exact (identifier_eq_ok hb parent field).2 ⟨h, hd⟩

theorem block_eq_ok {parent : NodeKind} {field : String} {body : List Node} :
    block below parent field body = .ok () ↔
      (∀ n ∈ body, Fits .statement n) ∧ childDepth body ≤ levels := by
  simp only [block, forM_eq_ok, hb.statement, childDepth_le, ← forall_and]

theorem expressions_eq_ok {parent : NodeKind} {field : String} {es : List Node} :
    expressions below parent field es = .ok () ↔
      (∀ n ∈ es, Fits .expression n) ∧ childDepth es ≤ levels := by
  simp only [expressions, forM_eq_ok, hb.expression, childDepth_le, ← forall_and]

theorem simpleStatement_eq_ok (parent : NodeKind) (field : String) {n : Node} :
    simpleStatement below parent field n = .ok () ↔ Fits .simple n ∧ n.depth < levels := by
  constructor
  · intro h
    unfold simpleStatement at h
    split at h
    · obtain ⟨h, hd⟩ := hb.statement.1 h
      exact ⟨.simpleDeclaration h, hd⟩
    · obtain ⟨h, hd⟩ := hb.statement.1 h
      exact ⟨.simplePost (.postExpression h), hd⟩
    · obtain ⟨h, hd⟩ := hb.statement.1 h
      exact ⟨.simplePost (.postAssignment h), hd⟩
    · obtain ⟨h, hd⟩ := hb.statement.1 h
      exact ⟨.simplePost (.postSend h), hd⟩
    · exact absurd h (badChild_ne_ok _ _ _ _)
  · rintro ⟨h, hd⟩
    cases h with
    | simpleDeclaration h => exact hb.statement.2 ⟨h, hd⟩
    | simplePost h => cases h <;> exact hb.statement.2 ⟨‹_›, hd⟩

theorem forInit_eq_ok {n : Node} :
    forInit below n = .ok () ↔ (n ≠ .empty → Fits .simple n) ∧ (n ≠ .empty → n.depth < levels) := by
  unfold forInit
  split
  · simp
  · rename_i hn
    rw [simpleStatement_eq_ok hb]
    exact ⟨fun h => ⟨fun _ => h.1, fun _ => h.2⟩, fun h => ⟨h.1 hn, h.2 hn⟩⟩

theorem forPost_eq_ok {n : Node} :
    forPost below n = .ok () ↔ Fits .post n ∧ n.depth < levels := by
  constructor
  · intro h
    unfold forPost at h
    split at h
    · exact absurd h (badChild_ne_ok _ _ _ _)
    · rename_i hn
      obtain ⟨h, hd⟩ := (simpleStatement_eq_ok hb _ _).1 h
      cases h with
      | simpleDeclaration h => exact absurd rfl (hn _ _ _)
      | simplePost h => exact ⟨h, hd⟩
  · rintro ⟨h, hd⟩
    have hs := (simpleStatement_eq_ok hb .forStatement "post").2 ⟨.simplePost h, hd⟩
    cases h <;> exact hs

theorem declaredNames_eq_ok {ids : List Node} :
    declaredNames below ids = .ok () ↔
      ids ≠ [] ∧ (∀ n ∈ ids, Fits .name n) ∧ partDepth ids ≤ levels := by
  unfold declaredNames
  split
  · rename_i hids
    simp [List.isEmpty_iff.1 hids]
  · rename_i hids
    have hne : ids ≠ [] := by simpa using hids
    simp only [forM_eq_ok, identifier_eq_ok hb, partDepth_le, forall_and, hne, ne_eq,
      not_false_eq_true, true_and]

theorem target_eq_ok {n : Node} :
    target below n = .ok () ↔ Fits .target n ∧ targetDepth [n] ≤ levels := by
  constructor
  · intro h
    unfold target at h
    split at h
    · obtain ⟨h, hd⟩ := (identifier_eq_ok hb _ _).1 h
      exact ⟨.targetName h, by simpa [targetDepth, depth] using hd⟩
    · obtain ⟨h, hd⟩ := hb.expression.1 h
      exact ⟨.targetIndex h, by simpa [targetDepth, Nat.succ_le_iff] using hd⟩
    · exact absurd h (badChild_ne_ok _ _ _ _)
  · rintro ⟨h, hd⟩
    cases h with
    | targetName h =>
      exact (identifier_eq_ok hb .assignment "ids").2 ⟨h, by simpa [targetDepth, depth] using hd⟩
    | targetIndex h =>
      exact hb.expression.2 ⟨h, by simpa [targetDepth, Nat.succ_le_iff] using hd⟩

theorem targets_eq_ok {ts : List Node} :
    targets below ts = .ok () ↔
      ts ≠ [] ∧ (∀ n ∈ ts, Fits .target n) ∧ targetDepth ts ≤ levels := by
  unfold targets
  split
  · rename_i hts
    simp [List.isEmpty_iff.1 hts]
  · rename_i hts
    have hne : ts ≠ [] := by simpa using hts
    rw [targetDepth_le]
    simp only [forM_eq_ok, target_eq_ok hb, forall_and, hne, ne_eq, not_false_eq_true, true_and]

theorem functionParts_eq_ok {name result : Option Node} {formals body : List Node} :
    functionParts below name formals result body = .ok () ↔
      Fits .expression (.function name formals result body) ∧
        (Node.function name formals result body).depth ≤ levels := by
  simp only [functionParts, bind_eq_ok, optional_eq_ok, forM_eq_ok, identifier_eq_ok hb,
    typedIdentifier_eq_ok hb, hb.type, block_eq_ok hb, forall_and]
  constructor
  · rintro ⟨⟨hname, dname⟩, ⟨hformals, dformals⟩, ⟨hresult, dresult⟩, hbody, dbody⟩
    exact ⟨.function hname hformals hresult hbody,
      depth_function_le.2 ⟨⟨dname, dformals⟩, dresult, dbody⟩⟩
  · rintro ⟨h, hd⟩
    obtain ⟨⟨dname, dformals⟩, dresult, dbody⟩ := depth_function_le.1 hd
    cases h with
    | function hname hformals hresult hbody =>
      exact ⟨⟨hname, dname⟩, ⟨hformals, dformals⟩, ⟨hresult, dresult⟩, hbody, dbody⟩

theorem namedFunction_eq_ok {name result : Option Node} {formals body : List Node} :
    namedFunction below name formals result body = .ok () ↔
      Fits .statement (.function name formals result body) ∧
        (Node.function name formals result body).depth ≤ levels := by
  cases name with
  | none => exact ⟨nofun, nofun⟩
  | some n =>
    change functionParts below (some n) formals result body = .ok () ↔ _
    rw [functionParts_eq_ok hb]
    constructor
    · rintro ⟨h, hd⟩
      exact ⟨.namedFunction h, hd⟩
    · rintro ⟨h, hd⟩
      cases h with
      | namedFunction h => exact ⟨h, hd⟩

theorem typeDeclaration_eq_ok {name type : Node} :
    typeDeclaration below name type = .ok () ↔
      Fits .statement (.typeDeclaration name type) ∧
        (Node.typeDeclaration name type).depth ≤ levels := by
  constructor
  · intro h
    unfold typeDeclaration at h
    split at h
    · rename_i s
      split at h
      · exact absurd h (badNode_ne_ok _ _)
      · rename_i hs
        obtain ⟨ht, hd⟩ := hb.type.1 h
        exact ⟨.typeDeclaration (by simpa using hs) ht, hd⟩
    · exact absurd h (badChild_ne_ok _ _ _ _)
  · rintro ⟨h, hd⟩
    cases h with
    | typeDeclaration hs ht =>
      simpa [typeDeclaration, hs] using hb.type.2 ⟨ht, hd⟩

theorem elseBranch_eq_ok {alt : Option Alternative} :
    elseBranch below alt = .ok () ↔
      ((∀ body, alt = some (.block body) → ∀ n ∈ body, Fits .statement n) ∧
        ∀ n, alt = some (.chained n) → Fits .elseIf n) ∧ elseDepth alt ≤ levels := by
  match alt with
  | none => simp [elseBranch, elseDepth]
  | some (.block body) => simp [elseBranch, block_eq_ok hb, elseDepth]
  | some (.chained node) =>
    rw [elseBranch, hb .elseIf node, elseDepth, Nat.succ_le_iff]
    simp [Slot.place, Slot.depth]

theorem ifParts_eq_ok {cond : Node} {cons : List Node} {alt : Option Alternative}
    {short : Option Node} :
    ifParts below cond cons alt short = .ok () ↔
      Fits .elseIf (.ifStatement cond cons alt short) ∧
        (Node.ifStatement cond cons alt short).depth ≤ levels := by
  simp only [ifParts_eq, bind_eq_ok, optional_eq_ok, simpleStatement_eq_ok hb, hb.expression,
    block_eq_ok hb, elseBranch_eq_ok hb, forall_and]
  constructor
  · rintro ⟨⟨hshort, dshort⟩, ⟨hcond, dcond⟩, ⟨hcons, dcons⟩, ⟨hblock, hchained⟩, dalt⟩
    exact ⟨.elseIf hshort hcond hcons hblock hchained,
      depth_ifStatement_le.2 ⟨⟨dshort, dcond⟩, dcons, dalt⟩⟩
  · rintro ⟨h, hd⟩
    obtain ⟨⟨dshort, dcond⟩, dcons, dalt⟩ := depth_ifStatement_le.1 hd
    cases h with
    | elseIf hshort hcond hcons hblock hchained =>
      exact ⟨⟨hshort, dshort⟩, ⟨hcond, dcond⟩, ⟨hcons, dcons⟩, ⟨hblock, hchained⟩, dalt⟩

omit hb in
private theorem isDefaultCase_eq (n : Node) : isDefaultCase n = decide (n.kind = .defaultCase) := by
  cases n <;> rfl

theorem selectCases_eq_ok {cases : List Node} :
    selectCases below cases = .ok () ↔
      Fits .statement (.selectStatement cases) ∧
        (Node.selectStatement cases).depth ≤ levels := by
  have hcount : cases.countP isDefaultCase = cases.countP (·.kind = .defaultCase) :=
    congrArg (cases.countP ·) (funext isDefaultCase_eq)
  have harm : (∀ n ∈ cases, below .arm n = .ok ()) ↔
      (∀ n ∈ cases, Fits .arm n) ∧ childDepth cases ≤ levels := by
    simp only [hb .arm _, Slot.place, Slot.depth, childDepth_le, forall_and]
  simp only [selectCases, bind_eq_ok, forM_eq_ok, harm, hcount, depth]
  constructor
  · rintro ⟨⟨hcases, hd⟩, h⟩
    split at h
    · exact absurd h (badNode_ne_ok _ _)
    · exact ⟨.selectStatement hcases (by omega), hd⟩
  · rintro ⟨h, hd⟩
    cases h with
    | selectStatement hcases hdefault =>
      exact ⟨⟨hcases, hd⟩, if_neg (by omega)⟩

theorem guardReceive_eq_ok (parent : NodeKind) {n : Node} :
    guardReceive below parent n = .ok () ↔ Fits .received n ∧ n.depth ≤ levels := by
  constructor
  · intro h
    unfold guardReceive at h
    split at h
    · split at h
      · rename_i hmark
        obtain ⟨h, hd⟩ := hb.expression.1 h
        exact ⟨hmark ▸ .received h, hd⟩
      · exact absurd h (badNode_ne_ok _ _)
    · exact absurd h (badChild_ne_ok _ _ _ _)
  · rintro ⟨h, hd⟩
    cases h with
    | received h => exact hb.expression.2 ⟨h, hd⟩

theorem guardValues_eq_ok (parent : NodeKind) {vals : List Node} :
    guardValues below parent vals = .ok () ↔
      ∃ val, vals = [val] ∧ Fits .received val ∧ partDepth vals ≤ levels := by
  unfold guardValues
  split
  · simp [guardReceive_eq_ok hb, partDepth]
  · rename_i hvals
    constructor
    · intro h
      exact absurd h (badNode_ne_ok _ _)
    · rintro ⟨val, h, -⟩
      exact absurd h (hvals val)

theorem fieldValue_eq_ok {n : Node} :
    fieldValue below n = .ok () ↔ Fits .fieldValue n ∧ n.depth ≤ levels := by
  constructor
  · intro h
    unfold fieldValue at h
    split at h
    · simp only [bind_eq_ok, identifier_eq_ok hb, hb.expression] at h
      obtain ⟨⟨hfield, dfield⟩, hexpr, dexpr⟩ := h
      refine ⟨.fieldValue hfield hexpr, ?_⟩
      simp only [depth, Nat.max_le]
      exact ⟨dfield, dexpr⟩
    · exact absurd h (badChild_ne_ok _ _ _ _)
  · rintro ⟨h, hd⟩
    cases h with
    | fieldValue hfield hexpr =>
      simp only [depth, Nat.max_le] at hd
      simp only [fieldValue, bind_eq_ok, identifier_eq_ok hb, hb.expression]
      exact ⟨⟨hfield, hd.1⟩, hexpr, hd.2⟩

theorem structElement_eq_ok {n : Node} :
    structElement below n = .ok () ↔ Fits .structElement n ∧ n.depth ≤ levels := by
  constructor
  · intro h
    unfold structElement at h
    split at h
    · obtain ⟨h, hd⟩ := (typedIdentifier_eq_ok hb).1 h
      exact ⟨.structElement h, by simpa only [depth] using hd⟩
    · exact absurd h (badChild_ne_ok _ _ _ _)
  · rintro ⟨h, hd⟩
    cases h with
    | structElement h =>
      simp only [depth] at hd
      simp only [structElement, typedIdentifier_eq_ok hb]
      exact ⟨h, hd⟩

theorem type_eq_ok {parent : NodeKind} {field : String} {n : Node} :
    type below parent field n = .ok () ↔ Fits .type n ∧ n.depth ≤ levels := by
  constructor
  · intro h
    unfold type at h
    split at h
    · exact ⟨.anyType, Nat.zero_le _⟩
    · exact ⟨.voidType, Nat.zero_le _⟩
    · exact ⟨.basicType, Nat.zero_le _⟩
    · simp only [forM_eq_ok, hb.type, forall_and] at h
      exact ⟨.tupleType h.1, childDepth_le.2 h.2⟩
    · split at h
      · simp only [bind_eq_ok, hb.type] at h
        obtain ⟨⟨hparams, dparams⟩, hresult, dresult⟩ := h
        refine ⟨.functionType hparams hresult, ?_⟩
        simp only [depth, Nat.max_le] at dparams ⊢
        exact ⟨dparams, dresult⟩
      · exact absurd h (badChild_ne_ok _ _ _ _)
    · exact ⟨.chanType (hb.type.1 h).1, (hb.type.1 h).2⟩
    · exact ⟨.arrayType (hb.type.1 h).1, (hb.type.1 h).2⟩
    · exact ⟨.sliceType (hb.type.1 h).1, (hb.type.1 h).2⟩
    · split at h
      · exact absurd h (badNode_ne_ok _ _)
      · rename_i hs
        exact ⟨.customType (by simpa using hs), Nat.zero_le _⟩
    · simp only [forM_eq_ok, structElement_eq_ok hb, forall_and] at h
      exact ⟨.structType h.1, partDepth_le.2 h.2⟩
    · exact absurd h (badChild_ne_ok _ _ _ _)
  · rintro ⟨h, hd⟩
    cases h with
    | anyType | voidType | basicType => rfl
    | tupleType h =>
      simp only [type, forM_eq_ok, hb.type, forall_and]
      exact ⟨h, childDepth_le.1 hd⟩
    | functionType hparams hresult =>
      simp only [depth, Nat.max_le] at hd
      simp only [type, bind_eq_ok, hb.type, depth]
      exact ⟨⟨hparams, hd.1⟩, hresult, hd.2⟩
    | chanType h | arrayType h | sliceType h => exact hb.type.2 ⟨h, hd⟩
    | customType hs => simp [type, hs]
    | structType h =>
      simp only [type, forM_eq_ok, structElement_eq_ok hb, forall_and]
      exact ⟨h, partDepth_le.1 hd⟩

private theorem expression_ok_fits {parent : NodeKind} {field : String} {n : Node}
    (h : expression below parent field n = .ok ()) : Fits .expression n ∧ n.depth ≤ levels := by
  unfold expression at h
  split at h
  · obtain ⟨h, hd⟩ := (identifier_eq_ok hb _ _).1 h
    exact ⟨.identifier h, hd⟩
  · split at h
    · split at h
      · rename_i htype
        exact ⟨htype ▸ .literal, Nat.zero_le _⟩
      · exact absurd h (badNode_ne_ok _ _)
    · exact absurd h (badChild_ne_ok _ _ _ _)
  · simp only [bind_eq_ok, hb.expression, expressions_eq_ok hb] at h
    obtain ⟨⟨hoperator, doperator⟩, hoperands, doperands⟩ := h
    exact ⟨.application hoperator hoperands, Nat.max_le.2 ⟨doperator, doperands⟩⟩
  · split at h
    · rename_i hop
      obtain ⟨h, hd⟩ := hb.expression.1 h
      exact ⟨.unary (List.contains_iff_mem.1 hop) h, hd⟩
    · exact absurd h (badNode_ne_ok _ _)
  · split at h
    · rename_i hop
      simp only [bind_eq_ok, hb.expression] at h
      obtain ⟨⟨hleft, dleft⟩, hright, dright⟩ := h
      exact ⟨.binary (List.contains_iff_mem.1 hop) hleft hright, Nat.max_le.2 ⟨dleft, dright⟩⟩
    · exact absurd h (badNode_ne_ok _ _)
  · simp only [bind_eq_ok, hb.expression] at h
    obtain ⟨⟨haccessed, daccessed⟩, hindex, dindex⟩ := h
    exact ⟨.index haccessed hindex, Nat.max_le.2 ⟨daccessed, dindex⟩⟩
  · exact (functionParts_eq_ok hb).1 h
  · simp only [bind_eq_ok, hb.type, forM_eq_ok, fieldValue_eq_ok hb, forall_and] at h
    obtain ⟨⟨htype, dtype⟩, hfields, dfields⟩ := h
    exact ⟨.structLiteral htype hfields, Nat.max_le.2 ⟨dtype, partDepth_le.2 dfields⟩⟩
  · simp only [bind_eq_ok, hb.expression, identifier_eq_ok hb] at h
    obtain ⟨⟨haccessed, daccessed⟩, hfield, dfield⟩ := h
    exact ⟨.member haccessed hfield, Nat.max_le.2 ⟨daccessed, dfield⟩⟩
  · split at h
    · exact absurd h (badNode_ne_ok _ _)
    · rename_i hmark
      obtain ⟨h, hd⟩ := hb.expression.1 h
      exact ⟨by simpa [hmark] using Fits.receive h, hd⟩
  · exact absurd h (badChild_ne_ok _ _ _ _)

theorem expression_eq_ok {parent : NodeKind} {field : String} {n : Node} :
    expression below parent field n = .ok () ↔ Fits .expression n ∧ n.depth ≤ levels := by
  constructor
  · exact expression_ok_fits hb
  · rintro ⟨h, hd⟩
    cases h with
    | identifier h => exact (identifier_eq_ok hb parent field).2 ⟨h, hd⟩
    | literal => simp [expression]
    | application hoperator hoperands =>
      simp only [depth, Nat.max_le] at hd
      simp only [expression, bind_eq_ok, hb.expression, expressions_eq_ok hb]
      exact ⟨⟨hoperator, hd.1⟩, hoperands, hd.2⟩
    | @unary opcode _ hop h =>
      have hop : unaryOperators.contains opcode := List.contains_iff_mem.2 hop
      simp only [expression, if_pos hop]
      exact hb.expression.2 ⟨h, hd⟩
    | @binary opcode _ _ hop hleft hright =>
      have hop : binaryOperators.contains opcode := List.contains_iff_mem.2 hop
      simp only [depth, Nat.max_le] at hd
      simp only [expression, if_pos hop, bind_eq_ok, hb.expression]
      exact ⟨⟨hleft, hd.1⟩, hright, hd.2⟩
    | index haccessed hindex =>
      simp only [depth, Nat.max_le] at hd
      simp only [expression, bind_eq_ok, hb.expression]
      exact ⟨⟨haccessed, hd.1⟩, hindex, hd.2⟩
    | function hname hformals hresult hbody =>
      exact (functionParts_eq_ok hb).2 ⟨.function hname hformals hresult hbody, hd⟩
    | structLiteral htype hfields =>
      simp only [depth, Nat.max_le, partDepth_le] at hd
      simp only [expression, bind_eq_ok, hb.type, forM_eq_ok, fieldValue_eq_ok hb, forall_and]
      exact ⟨⟨htype, hd.1⟩, hfields, hd.2⟩
    | member haccessed hfield =>
      simp only [depth, Nat.max_le] at hd
      simp only [expression, bind_eq_ok, hb.expression, identifier_eq_ok hb]
      exact ⟨⟨haccessed, hd.1⟩, hfield, hd.2⟩
    | receive h => exact hb.expression.2 ⟨h, hd⟩

private theorem statement_ok_fits {parent : NodeKind} {field : String} {n : Node}
    (h : statement below parent field n = .ok ()) : Fits .statement n ∧ n.depth ≤ levels := by
  unfold statement at h
  split at h
  · simp only [bind_eq_ok, declaredNames_eq_ok hb, expressions_eq_ok hb] at h
    obtain ⟨⟨hne, hids, dids⟩, hvals, dvals⟩ := h
    exact ⟨.declaration hne hids hvals, Nat.max_le.2 ⟨dids, dvals⟩⟩
  · exact ⟨.expressionStatement (hb.expression.1 h).1, (hb.expression.1 h).2⟩
  · obtain ⟨h, hd⟩ := (expressions_eq_ok hb).1 h
    exact ⟨.returnStatement h, hd⟩
  · simp only [bind_eq_ok, targets_eq_ok hb, expressions_eq_ok hb] at h
    obtain ⟨⟨hne, htargets, dtargets⟩, hvals, dvals⟩ := h
    exact ⟨.assignment hne htargets hvals, Nat.max_le.2 ⟨dtargets, dvals⟩⟩
  · obtain ⟨h, hd⟩ := (ifParts_eq_ok hb).1 h
    exact ⟨.ifStatement h, hd⟩
  · simp only [bind_eq_ok, optional_eq_ok, forInit_eq_ok hb, hb.expression, forPost_eq_ok hb,
      block_eq_ok hb, forall_and] at h
    obtain ⟨⟨hinit, dinit⟩, ⟨hcond, dcond⟩, ⟨hpost, dpost⟩, hbody, dbody⟩ := h
    refine ⟨.forStatement hinit hcond hpost hbody, ?_⟩
    simp only [depth, Nat.max_le]
    exact ⟨⟨initDepth_le.2 dinit, optionalDepth_le.2 dcond⟩, optionalDepth_le.2 dpost, dbody⟩
  · split at h
    · exact ⟨.goStatement (hb.expression.1 h).1, (hb.expression.1 h).2⟩
    · exact absurd h (badChild_ne_ok _ _ _ _)
  · exact (selectCases_eq_ok hb).1 h
  · split at h
    · exact absurd h (badNode_ne_ok _ _)
    · rename_i hmark
      simp only [bind_eq_ok, hb.expression] at h
      obtain ⟨⟨hchan, dchan⟩, hval, dval⟩ := h
      exact ⟨by simpa [hmark] using Fits.send hchan hval, Nat.max_le.2 ⟨dchan, dval⟩⟩
  · exact ⟨.empty, Nat.zero_le _⟩
  · exact (namedFunction_eq_ok hb).1 h
  · exact (typeDeclaration_eq_ok hb).1 h
  · exact absurd h (badChild_ne_ok _ _ _ _)

theorem statement_eq_ok {parent : NodeKind} {field : String} {n : Node} :
    statement below parent field n = .ok () ↔ Fits .statement n ∧ n.depth ≤ levels := by
  constructor
  · exact statement_ok_fits hb
  · rintro ⟨h, hd⟩
    cases h with
    | declaration hne hids hvals =>
      simp only [depth, Nat.max_le] at hd
      simp only [statement, bind_eq_ok, declaredNames_eq_ok hb, expressions_eq_ok hb]
      exact ⟨⟨hne, hids, hd.1⟩, hvals, hd.2⟩
    | expressionStatement h => exact hb.expression.2 ⟨h, hd⟩
    | returnStatement h => exact (expressions_eq_ok hb).2 ⟨h, hd⟩
    | assignment hne htargets hvals =>
      simp only [depth, Nat.max_le] at hd
      simp only [statement, bind_eq_ok, targets_eq_ok hb, expressions_eq_ok hb]
      exact ⟨⟨hne, htargets, hd.1⟩, hvals, hd.2⟩
    | ifStatement h => exact (ifParts_eq_ok hb).2 ⟨h, hd⟩
    | forStatement hinit hcond hpost hbody =>
      simp only [depth, Nat.max_le, initDepth_le, optionalDepth_le] at hd
      obtain ⟨⟨dinit, dcond⟩, dpost, dbody⟩ := hd
      simp only [statement, bind_eq_ok, optional_eq_ok, forInit_eq_ok hb, hb.expression,
        forPost_eq_ok hb, block_eq_ok hb, forall_and]
      exact ⟨⟨hinit, dinit⟩, ⟨hcond, dcond⟩, ⟨hpost, dpost⟩, hbody, dbody⟩
    | goStatement h => exact hb.expression.2 ⟨h, hd⟩
    | selectStatement hcases hdefault =>
      exact (selectCases_eq_ok hb).2 ⟨.selectStatement hcases hdefault, hd⟩
    | send hchan hval =>
      simp only [depth, Nat.max_le] at hd
      change (below _ _ >>= fun _ => below _ _) = .ok ()
      simp only [bind_eq_ok, hb.expression]
      exact ⟨⟨hchan, hd.1⟩, hval, hd.2⟩
    | empty => rfl
    | namedFunction h => exact (namedFunction_eq_ok hb).2 ⟨.namedFunction h, hd⟩
    | typeDeclaration hs ht => exact (typeDeclaration_eq_ok hb).2 ⟨.typeDeclaration hs ht, hd⟩

theorem item_eq_ok {n : Node} :
    item below n = .ok () ↔ Fits .item n ∧ n.itemDepth ≤ levels := by
  constructor
  · intro h
    unfold item at h
    split at h
    · obtain ⟨h, hd⟩ := hb.statement.1 h
      exact ⟨.itemDeclaration h, hd⟩
    · obtain ⟨h, hd⟩ := (namedFunction_eq_ok hb).1 h
      exact ⟨.itemFunction h, hd⟩
    · obtain ⟨h, hd⟩ := (typeDeclaration_eq_ok hb).1 h
      exact ⟨.itemType h, hd⟩
    · exact absurd h (badChild_ne_ok _ _ _ _)
  · rintro ⟨h, hd⟩
    cases h with
    | itemDeclaration h => exact hb.statement.2 ⟨h, hd⟩
    | itemFunction h => exact (namedFunction_eq_ok hb).2 ⟨h, hd⟩
    | itemType h => exact (typeDeclaration_eq_ok hb).2 ⟨h, hd⟩

theorem elseIf_eq_ok {n : Node} :
    elseIf below n = .ok () ↔ Fits .elseIf n ∧ n.depth ≤ levels := by
  unfold elseIf
  split
  · exact ifParts_eq_ok hb
  · rename_i hn
    refine ⟨fun h => absurd h (badChild_ne_ok _ _ _ _), fun ⟨h, _⟩ => ?_⟩
    cases h
    exact absurd rfl (hn _ _ _ _)

theorem arm_eq_ok {n : Node} : arm below n = .ok () ↔ Fits .arm n ∧ n.depth ≤ levels := by
  constructor
  · intro h
    unfold arm at h
    split at h
    · simp only [bind_eq_ok, hb .guard _, block_eq_ok hb] at h
      obtain ⟨⟨hguard, dguard⟩, hbody, dbody⟩ := h
      exact ⟨.selectCase hguard hbody, Nat.max_le.2 ⟨dguard, dbody⟩⟩
    · obtain ⟨h, hd⟩ := (block_eq_ok hb).1 h
      exact ⟨.defaultCase h, hd⟩
    · exact absurd h (badChild_ne_ok _ _ _ _)
  · rintro ⟨h, hd⟩
    cases h with
    | selectCase hguard hbody =>
      simp only [depth, Nat.max_le] at hd
      simp only [arm, bind_eq_ok, hb .guard _, block_eq_ok hb]
      exact ⟨⟨hguard, hd.1⟩, hbody, hd.2⟩
    | defaultCase hbody => exact (block_eq_ok hb).2 ⟨hbody, hd⟩

theorem guard_eq_ok {n : Node} :
    guard below n = .ok () ↔ Fits .guard n ∧ n.guardDepth ≤ levels := by
  constructor
  · intro h
    unfold guard at h
    split at h
    · split at h
      · rename_i hmark
        simp only [bind_eq_ok, hb.expression] at h
        obtain ⟨⟨hchan, dchan⟩, hval, dval⟩ := h
        exact ⟨hmark ▸ .guardSend hchan hval, Nat.max_le.2 ⟨dchan, dval⟩⟩
      · exact absurd h (badNode_ne_ok _ _)
    · obtain ⟨h, hd⟩ := (guardReceive_eq_ok hb _).1 h
      exact ⟨.guardReceive h, hd⟩
    · simp only [bind_eq_ok, declaredNames_eq_ok hb, guardValues_eq_ok hb] at h
      obtain ⟨⟨hne, hids, dids⟩, val, rfl, hval, dval⟩ := h
      exact ⟨.guardDeclaration hne hids hval, Nat.max_le.2 ⟨dids, dval⟩⟩
    · simp only [bind_eq_ok, targets_eq_ok hb, guardValues_eq_ok hb] at h
      obtain ⟨⟨hne, htargets, dtargets⟩, val, rfl, hval, dval⟩ := h
      exact ⟨.guardAssignment hne htargets hval, Nat.max_le.2 ⟨dtargets, dval⟩⟩
    · exact absurd h (badChild_ne_ok _ _ _ _)
  · rintro ⟨h, hd⟩
    cases h with
    | guardSend hchan hval =>
      simp only [guardDepth, Nat.max_le] at hd
      change (below _ _ >>= fun _ => below _ _) = .ok ()
      simp only [bind_eq_ok, hb.expression]
      exact ⟨⟨hchan, hd.1⟩, hval, hd.2⟩
    | guardReceive h =>
      cases h with
      | received h => exact (guardReceive_eq_ok hb .selectCase).2 ⟨.received h, hd⟩
    | guardDeclaration hne hids hval =>
      simp only [guardDepth, Nat.max_le] at hd
      simp only [guard, bind_eq_ok, declaredNames_eq_ok hb, guardValues_eq_ok hb]
      exact ⟨⟨hne, hids, hd.1⟩, _, rfl, hval, hd.2⟩
    | guardAssignment hne htargets hval =>
      simp only [guardDepth, Nat.max_le] at hd
      simp only [guard, bind_eq_ok, targets_eq_ok hb, guardValues_eq_ok hb]
      exact ⟨⟨hne, htargets, hd.1⟩, _, rfl, hval, hd.2⟩

/-- One level of the judgement adds one level to what it accepts. -/
theorem slot_eq_ok {s : Slot} {n : Node} :
    slot below s n = .ok () ↔ Fits s.place n ∧ s.depth n < levels + 1 := by
  rw [Nat.lt_succ_iff]
  cases s with
  | item => exact item_eq_ok hb
  | statement _ _ => exact statement_eq_ok hb
  | expression _ _ => exact expression_eq_ok hb
  | type _ _ => exact type_eq_ok hb
  | elseIf => exact elseIf_eq_ok hb
  | arm => exact arm_eq_ok hb
  | guard => exact guard_eq_ok hb

omit hb in
theorem check_exact (limit levels : Nat) : Exact (check limit levels) levels := by
  induction levels with
  | zero => exact fun _ _ => ⟨nofun, fun h => absurd h.2 (Nat.not_lt_zero _)⟩
  | succ levels ih => exact fun _ _ => slot_eq_ok ih

end MiniGo.Check

namespace MiniGo

theorem Node.check_program_eq_ok {items : List Node} {limit : Nat} :
    (Node.program items).check limit = .ok () ↔
      ∀ n ∈ items, Check.check limit limit .item n = .ok () := by
  have hmap (v : Check.Verdict) :
      v.mapError (fun cause => (⟨cause, .null⟩ : Error)) = .ok () ↔ v = .ok () := by
    cases v with
    | error e => exact ⟨nofun, nofun⟩
    | ok u => exact ⟨fun _ => rfl, fun _ => rfl⟩
  exact (hmap _).trans Check.forM_eq_ok

theorem Node.wellFormed_of_check {tree : Node} {limit : Nat} (h : tree.check limit = .ok ()) :
    tree.WellFormed := by
  cases tree with
  | program items =>
    exact .program fun n hn =>
      ((Check.check_exact limit limit .item n).1 (Node.check_program_eq_ok.1 h n hn)).1
  | _ => exact absurd h nofun

/-- A tree passes the check exactly when it is well-formed and no higher than the limit. -/
theorem Node.check_eq_ok_iff_wellFormed (tree : Node) (limit : Nat) :
    tree.check limit = .ok () ↔ tree.WellFormed ∧ tree.height ≤ limit := by
  have hitem := Check.check_exact limit limit .item
  constructor
  · intro h
    have hwf := Node.wellFormed_of_check h
    refine ⟨hwf, ?_⟩
    cases hwf with
    | program _ =>
      exact height_program_le.2 fun n hn => ((hitem n).1 (Node.check_program_eq_ok.1 h n hn)).2
  · rintro ⟨h, hd⟩
    cases h with
    | program hitems =>
      apply Node.check_program_eq_ok.2
      intro n hn
      exact (hitem n).2 ⟨hitems n hn, height_program_le.1 hd n hn⟩

end MiniGo
