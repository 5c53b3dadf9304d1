import MiniGo.Proofs.Tree.Acceptance

/-!
What the limit on depth means for the check of any tree, well-formed or not. There is a threshold: from
it on the verdict is always the same, below it every limit fails. The check stops at the first defect in
reading order, so a defect hides the levels behind it but never those before it.
-/
namespace MiniGo.Check
open Node

def Shallow (v : Verdict) : Prop := ∀ k, v ≠ .error (.limitExceeded k)

theorem shallow_ok : Shallow (.ok ()) := nofun

theorem shallow_badNode {kind : NodeKind} {message : String} : Shallow (badNode kind message) := nofun

theorem shallow_badChild {parent : NodeKind} {field expected : String} {n : Node} :
    Shallow (badChild parent field expected n) := nofun

theorem Shallow.bind {x : Verdict} {f : Unit → Verdict} (hx : Shallow x) (hf : Shallow (f ())) :
    Shallow (x >>= f) := by
  cases x with
  | error cause => exact hx
  | ok u => exact hf

theorem shallow_forM {f : Node → Verdict} {ns : List Node} (h : ∀ n ∈ ns, Shallow (f n)) :
    Shallow (ns.forM f) := by
  induction ns with
  | nil => exact shallow_ok
  | cons n ns ih =>
    obtain ⟨hn, hns⟩ := List.forall_mem_cons.1 h
    exact hn.bind (ih hns)

theorem shallow_optional {f : Node → Verdict} {o : Option Node} (h : ∀ n ∈ o, Shallow (f n)) :
    Shallow (optional f o) := by
  cases o with
  | none => exact shallow_ok
  | some n => exact h n rfl

theorem shallow_ite {p : Prop} [Decidable p] {x y : Verdict} (hx : Shallow x) (hy : Shallow y) :
    Shallow (if p then x else y) := by
  split
  · exact hx
  · exact hy

/-- The verdict as a function of the limit and of the levels that are left: from a threshold on, which is
at most `k`, it is one and the same, and below the threshold it is the failure by the limit. -/
def Settles (k : Nat) (v : Nat → Nat → Verdict) : Prop :=
  ∃ threshold ≤ k, ∃ verdict, Shallow verdict ∧ ∀ limit levels,
    v limit levels = if threshold ≤ levels then verdict else .error (.limitExceeded limit)

section Verdicts

variable {k : Nat}

theorem settles_of_shallow {v : Verdict} (h : Shallow v) : Settles k fun _ _ => v := by
  refine ⟨0, Nat.zero_le k, v, h, fun limit levels => ?_⟩
  rw [if_pos (Nat.zero_le levels)]

theorem settles_ok : Settles k fun _ _ => .ok () := settles_of_shallow shallow_ok

theorem settles_badNode {kind : NodeKind} {message : String} :
    Settles k fun _ _ => badNode kind message := settles_of_shallow shallow_badNode

theorem settles_badChild {parent : NodeKind} {field expected : String} {n : Node} :
    Settles k fun _ _ => badChild parent field expected n := settles_of_shallow shallow_badChild

/-- The second judgement shows only if the first accepts, and then the larger threshold counts. -/
theorem Settles.bind {x y : Nat → Nat → Verdict} (hx : Settles k x) (hy : Settles k y) :
    Settles k fun limit levels => x limit levels >>= fun _ => y limit levels := by
  obtain ⟨m, hm, v, hv, hx⟩ := hx
  obtain ⟨n, hn, w, hw, hy⟩ := hy
  cases v with
  | error cause =>
    refine ⟨m, hm, .error cause, hv, fun limit levels => ?_⟩
    dsimp only
    rw [hx]
    split <;> rfl
  | ok u =>
    refine ⟨max m n, Nat.max_le.2 ⟨hm, hn⟩, w, hw, fun limit levels => ?_⟩
    dsimp only
    rw [hx, hy]
    by_cases hlevels : m ≤ levels
    · rw [if_pos hlevels]
      simp only [Nat.max_le, hlevels, true_and]
      rfl
    · rw [if_neg hlevels, if_neg fun h => hlevels (Nat.max_le.1 h).1]
      rfl

theorem settles_forM {f : Nat → Nat → Node → Verdict} {ns : List Node}
    (h : ∀ n ∈ ns, Settles k fun limit levels => f limit levels n) :
    Settles k fun limit levels => ns.forM (f limit levels) := by
  induction ns with
  | nil => exact settles_ok
  | cons n ns ih =>
    obtain ⟨hn, hns⟩ := List.forall_mem_cons.1 h
    exact hn.bind (ih hns)

theorem settles_optional {f : Nat → Nat → Node → Verdict} {o : Option Node}
    (h : ∀ n ∈ o, Settles k fun limit levels => f limit levels n) :
    Settles k fun limit levels => optional (f limit levels) o := by
  cases o with
  | none => exact settles_ok
  | some n => exact h n rfl

theorem settles_ite {p : Prop} [Decidable p] {x y : Nat → Nat → Verdict} (hx : Settles k x)
    (hy : Settles k y) : Settles k fun limit levels => if p then x limit levels else y limit levels := by
  by_cases h : p
  · simpa only [if_pos h] using hx
  · simpa only [if_neg h] using hy

end Verdicts

def SettlesBelow (k : Nat) : Prop :=
  ∀ s n, s.depth n < k → Settles k fun limit levels => check limit levels s n

section Judgements

variable {k : Nat} (hb : SettlesBelow k) (parent : NodeKind) (field : String)
include hb

theorem identifier_settles {n : Node} (h : n.depth ≤ k) :
    Settles k fun limit levels => identifier (check limit levels) parent field n := by
  cases n with
  | identifier name type =>
    apply settles_ite settles_badNode
    cases type with
    | none => exact settles_ok
    | some t => exact hb (.type .identifier "val_type") t h
  | _ => exact settles_badChild

theorem typedIdentifier_settles {n : Node} (h : n.depth ≤ k) :
    Settles k fun limit levels => typedIdentifier (check limit levels) parent field n := by
  have hname := identifier_settles hb parent field h
  cases n with
  | identifier name type =>
    cases type with
    | none => exact settles_badNode
    | some t => exact hname
  | _ => exact hname

theorem statements_settle {body : List Node} (h : childDepth body ≤ k) :
    Settles k fun limit levels => block (check limit levels) parent field body :=
  settles_forM fun n hn => hb (.statement parent field) n (childDepth_le.1 h n hn)

theorem expressions_settle {es : List Node} (h : childDepth es ≤ k) :
    Settles k fun limit levels => expressions (check limit levels) parent field es :=
  settles_forM fun n hn => hb (.expression parent field) n (childDepth_le.1 h n hn)

theorem simpleStatement_settles {n : Node} (h : n.depth < k) :
    Settles k fun limit levels => simpleStatement (check limit levels) parent field n := by
  have hstatement := hb (.statement parent field) n h
  cases n with
  | declaration | expressionStatement | assignment | send => exact hstatement
  | _ => exact settles_badChild

theorem forInit_settles {n : Node} (h : n ≠ .empty → n.depth < k) :
    Settles k fun limit levels => forInit (check limit levels) n := by
  cases n with
  | empty => exact settles_ok
  | _ => exact simpleStatement_settles hb .forStatement "init" (h nofun)

theorem forPost_settles {n : Node} (h : n.depth < k) :
    Settles k fun limit levels => forPost (check limit levels) n := by
  cases n with
  | declaration => exact settles_badChild
  | _ => exact simpleStatement_settles hb .forStatement "post" h

theorem declaredNames_settle {ids : List Node} (h : partDepth ids ≤ k) :
    Settles k fun limit levels => declaredNames (check limit levels) ids :=
  settles_ite settles_badNode
    (settles_forM fun n hn => identifier_settles hb .declaration "ids" (partDepth_le.1 h n hn))

theorem target_settles {n : Node} (h : targetDepth [n] ≤ k) :
    Settles k fun limit levels => target (check limit levels) n := by
  cases n with
  | identifier name type =>
    have hname : (Node.identifier name type).depth ≤ k := by simpa [targetDepth, depth] using h
    exact identifier_settles hb .assignment "ids" hname
  | index accessed index =>
    have hindex : (Node.index accessed index).depth + 1 ≤ k := by simpa [targetDepth] using h
    exact hb (.expression .assignment "ids") _ hindex
  | _ => exact settles_badChild

theorem targets_settle {ts : List Node} (h : targetDepth ts ≤ k) :
    Settles k fun limit levels => targets (check limit levels) ts :=
  settles_ite settles_badNode (settles_forM fun n hn => target_settles hb (targetDepth_le.1 h n hn))

theorem functionParts_settles {name result : Option Node} {formals body : List Node}
    (h : (Node.function name formals result body).depth ≤ k) :
    Settles k fun limit levels => functionParts (check limit levels) name formals result body := by
  obtain ⟨⟨hname, hformals⟩, hresult, hbody⟩ := depth_function_le.1 h
  apply Settles.bind (settles_optional fun n hn => identifier_settles hb .function "name" (hname n hn))
  apply Settles.bind
    (settles_forM fun n hn => typedIdentifier_settles hb .function "formals" (hformals n hn))
  apply Settles.bind (settles_optional fun n hn => hb (.type .function "ret_type") n (hresult n hn))
  exact statements_settle hb .function "body" hbody

theorem namedFunction_settles {name result : Option Node} {formals body : List Node}
    (h : (Node.function name formals result body).depth ≤ k) :
    Settles k fun limit levels => namedFunction (check limit levels) name formals result body :=
  settles_ite settles_badNode (functionParts_settles hb h)

theorem typeDeclaration_settles {name type : Node} (h : type.depth < k) :
    Settles k fun limit levels => typeDeclaration (check limit levels) name type := by
  cases name with
  | customType s => exact settles_ite settles_badNode (hb (.type .typeDeclaration "dec_type") type h)
  | _ => exact settles_badChild

theorem ifParts_settles {cond : Node} {cons : List Node} {alt : Option Alternative}
    {short : Option Node} (h : (Node.ifStatement cond cons alt short).depth ≤ k) :
    Settles k fun limit levels => ifParts (check limit levels) cond cons alt short := by
  obtain ⟨⟨hshort, hcond⟩, hcons, halt⟩ := depth_ifStatement_le.1 h
  apply Settles.bind
    (settles_optional fun n hn => simpleStatement_settles hb .ifStatement "short" (hshort n hn))
  apply Settles.bind (hb (.expression .ifStatement "cond") cond hcond)
  apply Settles.bind (statements_settle hb .ifStatement "cons" hcons)
  match alt with
  | none => exact settles_ok
  | some (.block body) => exact statements_settle hb .ifStatement "alt" halt
  | some (.chained n) => exact hb .elseIf n halt

theorem selectCases_settle {cases : List Node} (h : childDepth cases ≤ k) :
    Settles k fun limit levels => selectCases (check limit levels) cases :=
  Settles.bind (settles_forM fun n hn => hb .arm n (childDepth_le.1 h n hn))
    (settles_ite settles_badNode settles_ok)

theorem guardReceive_settles {n : Node} (h : n.depth ≤ k) :
    Settles k fun limit levels => guardReceive (check limit levels) parent n := by
  cases n with
  | receive chan mark => exact settles_ite (hb (.expression .receive "chan") chan h) settles_badNode
  | _ => exact settles_badChild

theorem guardValues_settle {vals : List Node} (h : partDepth vals ≤ k) :
    Settles k fun limit levels => guardValues (check limit levels) parent vals := by
  match vals with
  | [val] => exact guardReceive_settles hb parent (partDepth_le.1 h val (by simp))
  | [] => exact settles_badNode
  | _ :: _ :: _ => exact settles_badNode

theorem fieldValue_settles {n : Node} (h : n.depth ≤ k) :
    Settles k fun limit levels => fieldValue (check limit levels) n := by
  cases n with
  | fieldValue field expr =>
    simp only [depth, Nat.max_le] at h
    exact (identifier_settles hb .fieldValue "field" h.1).bind
      (hb (.expression .fieldValue "expr") expr h.2)
  | _ => exact settles_badChild

theorem structElement_settles {n : Node} (h : n.depth ≤ k) :
    Settles k fun limit levels => structElement (check limit levels) n := by
  cases n with
  | structElement name =>
    simp only [depth] at h
    exact typedIdentifier_settles hb .structElement "name" h
  | _ => exact settles_badChild

theorem type_settles {n : Node} (h : n.depth ≤ k) :
    Settles k fun limit levels => type (check limit levels) parent field n := by
  cases n with
  | anyType | voidType | basicType => exact settles_ok
  | tupleType elements =>
    exact settles_forM fun n hn => hb (.type .tupleType "elements") n (childDepth_le.1 h n hn)
  | functionType params result =>
    simp only [depth, Nat.max_le] at h
    have hparams := hb (.type .functionType "params_type") params h.1
    have hresult := hb (.type .functionType "return_type") result h.2
    cases params with
    | tupleType elements => exact hparams.bind hresult
    | _ => exact settles_badChild
  | chanType direction element => exact hb (.type .chanType "element") element h
  | arrayType element size => exact hb (.type .arrayType "element") element h
  | sliceType element => exact hb (.type .sliceType "element") element h
  | customType name => exact settles_ite settles_badNode settles_ok
  | structType elems => exact settles_forM fun n hn => structElement_settles hb (partDepth_le.1 h n hn)
  | _ => exact settles_badChild

theorem expression_settles {n : Node} (h : n.depth ≤ k) :
    Settles k fun limit levels => expression (check limit levels) parent field n := by
  cases n with
  | identifier name type => exact identifier_settles hb parent field h
  | literal value type =>
    cases type with
    | basicType basic => exact settles_ite settles_ok settles_badNode
    | _ => exact settles_badChild
  | application operator operands =>
    simp only [depth, Nat.max_le] at h
    exact (hb (.expression .application "operator") operator h.1).bind
      (expressions_settle hb .application "operands" h.2)
  | unary opcode operand =>
    exact settles_ite (hb (.expression .unary "expr") operand h) settles_badNode
  | binary left opcode right =>
    simp only [depth, Nat.max_le] at h
    exact settles_ite ((hb (.expression .binary "left") left h.1).bind
      (hb (.expression .binary "right") right h.2)) settles_badNode
  | index accessed index =>
    simp only [depth, Nat.max_le] at h
    exact (hb (.expression .index "accessed") accessed h.1).bind
      (hb (.expression .index "index") index h.2)
  | function name formals result body => exact functionParts_settles hb h
  | structLiteral type fields =>
    simp only [depth, Nat.max_le] at h
    exact (hb (.type .structLiteral "val_type") type h.1).bind
      (settles_forM fun n hn => fieldValue_settles hb (partDepth_le.1 h.2 n hn))
  | member accessed field =>
    simp only [depth, Nat.max_le] at h
    exact (hb (.expression .member "accessed") accessed h.1).bind
      (identifier_settles hb .member "field" h.2)
  | receive chan mark => exact settles_ite settles_badNode (hb (.expression .receive "chan") chan h)
  | _ => exact settles_badChild

theorem sendParts_settle {chan val : Node} (hchan : chan.depth < k) (hval : val.depth < k) :
    Settles k fun limit levels => check limit levels (.expression .send "chan") chan >>= fun _ =>
      check limit levels (.expression .send "val") val :=
  (hb (.expression .send "chan") chan hchan).bind (hb (.expression .send "val") val hval)

theorem statement_settles {n : Node} (h : n.depth ≤ k) :
    Settles k fun limit levels => statement (check limit levels) parent field n := by
  cases n with
  | declaration kind ids vals =>
    simp only [depth, Nat.max_le] at h
    exact (declaredNames_settle hb h.1).bind (expressions_settle hb .declaration "vals" h.2)
  | expressionStatement e => exact hb (.expression .expressionStatement "expression") e h
  | returnStatement es => exact expressions_settle hb .returnStatement "expressions" h
  | assignment ts vals =>
    simp only [depth, Nat.max_le] at h
    exact (targets_settle hb h.1).bind (expressions_settle hb .assignment "vals" h.2)
  | ifStatement cond cons alt short => exact ifParts_settles hb h
  | forStatement init cond post body =>
    simp only [depth, Nat.max_le, initDepth_le, optionalDepth_le] at h
    obtain ⟨⟨hinit, hcond⟩, hpost, hbody⟩ := h
    apply Settles.bind (settles_optional fun n hn => forInit_settles hb (hinit n hn))
    apply Settles.bind
      (settles_optional fun n hn => hb (.expression .forStatement "cond") n (hcond n hn))
    apply Settles.bind (settles_optional fun n hn => forPost_settles hb (hpost n hn))
    exact statements_settle hb .forStatement "body" hbody
  | goStatement app =>
    have happ := hb (.expression .goStatement "app") app h
    cases app with
    | application operator operands => exact happ
    | _ => exact settles_badChild
  | selectStatement cases => exact selectCases_settle hb h
  | send chan val mark =>
    simp only [depth, Nat.max_le] at h
    exact settles_ite settles_badNode (sendParts_settle hb h.1 h.2)
  | empty => exact settles_ok
  | function name formals result body => exact namedFunction_settles hb h
  | typeDeclaration name type => exact typeDeclaration_settles hb h
  | _ => exact settles_badChild

theorem item_settles {n : Node} (h : n.itemDepth ≤ k) :
    Settles k fun limit levels => item (check limit levels) n := by
  cases n with
  | declaration kind ids vals => exact hb (.statement .program "top_declarations") _ h
  | function name formals result body => exact namedFunction_settles hb h
  | typeDeclaration name type => exact typeDeclaration_settles hb h
  | _ => exact settles_badChild

theorem elseIf_settles {n : Node} (h : n.depth ≤ k) :
    Settles k fun limit levels => elseIf (check limit levels) n := by
  cases n with
  | ifStatement cond cons alt short => exact ifParts_settles hb h
  | _ => exact settles_badChild

theorem arm_settles {n : Node} (h : n.depth ≤ k) :
    Settles k fun limit levels => arm (check limit levels) n := by
  cases n with
  | selectCase guard body =>
    simp only [depth, Nat.max_le] at h
    exact (hb .guard guard h.1).bind (statements_settle hb .selectCase "body" h.2)
  | defaultCase body => exact statements_settle hb .defaultCase "body" h
  | _ => exact settles_badChild

theorem guard_settles {n : Node} (h : n.guardDepth ≤ k) :
    Settles k fun limit levels => guard (check limit levels) n := by
  cases n with
  | send chan val mark =>
    simp only [guardDepth, Nat.max_le] at h
    exact settles_ite (sendParts_settle hb h.1 h.2) settles_badNode
  | receive chan mark =>
    have hreceive : (Node.receive chan mark).depth ≤ k := h
    exact guardReceive_settles hb .selectCase hreceive
  | declaration kind ids vals =>
    simp only [guardDepth, Nat.max_le] at h
    exact (declaredNames_settle hb h.1).bind (guardValues_settle hb .declaration h.2)
  | assignment ts vals =>
    simp only [guardDepth, Nat.max_le] at h
    exact (targets_settle hb h.1).bind (guardValues_settle hb .assignment h.2)
  | _ => exact settles_badChild

theorem slot_settles {s : Slot} {n : Node} (h : s.depth n ≤ k) :
    Settles k fun limit levels => slot (check limit levels) s n := by
  cases s with
  | item => exact item_settles hb h
  | statement parent field => exact statement_settles hb parent field h
  | expression parent field => exact expression_settles hb parent field h
  | type parent field => exact type_settles hb parent field h
  | elseIf => exact elseIf_settles hb h
  | arm => exact arm_settles hb h
  | guard => exact guard_settles hb h

end Judgements

theorem Settles.succ {k : Nat} {s : Slot} {n : Node}
    (h : Settles k fun limit levels => slot (check limit levels) s n) :
    Settles (k + 1) fun limit levels => check limit levels s n := by
  obtain ⟨threshold, hk, verdict, hverdict, h⟩ := h
  refine ⟨threshold + 1, Nat.succ_le_succ hk, verdict, hverdict, fun limit levels => ?_⟩
  cases levels with
  | zero => rfl
  | succ levels =>
    refine (h limit levels).trans ?_
    simp only [Nat.succ_le_succ_iff]

/-- The check settles on every node, by induction on the levels below it. -/
theorem settlesBelow (k : Nat) : SettlesBelow k := by
  induction k with
  | zero => exact fun s n h => absurd h (Nat.not_lt_zero _)
  | succ k ih => exact fun s n h => (slot_settles ih (Nat.le_of_lt_succ h)).succ

end MiniGo.Check

namespace MiniGo

theorem Node.check_eq_ite (tree : Node) :
    ∃ threshold result, threshold ≤ tree.height ∧
      (∀ e, result = .error e → ∀ k, e.cause ≠ .limitExceeded k) ∧ ∀ limit, tree.check limit =
        if threshold ≤ limit then result else .error ⟨.limitExceeded limit, .null⟩ := by
  cases tree with
  | program items =>
    have hitems : Check.Settles (Node.program items).height fun limit levels =>
        items.forM (Check.check limit levels .item) :=
      Check.settles_forM fun n hn =>
        Check.settlesBelow _ .item n (height_program_le.1 (Nat.le_refl _) n hn)
    obtain ⟨threshold, hheight, verdict, hshallow, hitems⟩ := hitems
    refine ⟨threshold, verdict.mapError (⟨·, .null⟩), hheight, ?_, fun limit => ?_⟩
    · cases verdict with
      | ok u =>
        rintro e ⟨⟩
      | error cause =>
        rintro e ⟨⟩ k rfl
        exact hshallow k rfl
    · have hverdict := hitems limit limit
      simp only [Node.check, hverdict]
      split <;> rfl
  | _ =>
    refine ⟨0, _, Nat.zero_le _, ?_, fun limit => (if_pos (Nat.zero_le limit)).symm⟩
    rintro e ⟨⟩ k ⟨⟩

/-- The limit on depth is transparent. For every tree there is a threshold, at most its height, and a
result that is not a failure by the limit: all limits from the threshold on give this result, and all
smaller ones fail by the limit. So a higher limit neither changes the defect that is reported nor turns
an accepted tree down. -/
theorem Node.check_threshold (tree : Node) :
    ∃ threshold result, threshold ≤ tree.height ∧
      (∀ e, result = .error e → ∀ k, e.cause ≠ .limitExceeded k) ∧
      (∀ limit, (threshold ≤ limit → tree.check limit = result) ∧
        (limit < threshold → tree.check limit = .error ⟨.limitExceeded limit, .null⟩)) ∧
      ∀ limit higher, limit ≤ higher → tree.check limit ≠ .error ⟨.limitExceeded limit, .null⟩ →
        tree.check higher = tree.check limit := by
  obtain ⟨threshold, result, hheight, hresult, hcheck⟩ := tree.check_eq_ite
  have hwithin (limit : Nat) (hlimit : threshold ≤ limit) : tree.check limit = result := by
    rw [hcheck, if_pos hlimit]
  have hbeyond (limit : Nat) (hlimit : limit < threshold) :
      tree.check limit = .error ⟨.limitExceeded limit, .null⟩ := by
    rw [hcheck, if_neg (Nat.not_le.2 hlimit)]
  refine ⟨threshold, result, hheight, hresult, fun limit => ⟨hwithin limit, hbeyond limit⟩, ?_⟩
  intro limit higher hle hne
  have hlimit : threshold ≤ limit := Nat.not_lt.1 fun hlt => hne (hbeyond limit hlt)
  rw [hwithin limit hlimit, hwithin higher (Nat.le_trans hlimit hle)]

-- The defect of the first item is found before the levels of the second one count.
example : (Node.program [.empty, .typeDeclaration (.customType "t") (.sliceType .anyType)]).height = 3 ∧
    (Node.program [.empty, .typeDeclaration (.customType "t") (.sliceType .anyType)]).check 1 =
      .error ⟨.invalidChild .program "top_declarations" "declaration, function or type declaration"
        .empty, .null⟩ := by
  exact ⟨rfl, rfl⟩

end MiniGo
