import MiniGo.Program.Visit

/-!
A visit meets the places of a program one after another as they are read, each once, and leaves out
exactly what is inside pruned places. Here the places are found without a walk: a path leads from a
program into a fragment of it, from there into a smaller one and so on, and paths are in the order of
words.
-/
namespace MiniGo

/-- Any typed fragment of a program. Field values, targets, branches, what follows `else`, cases and
guards are no places of their own, but places lie in them. -/
inductive Fragment where
  | program (p : Program)
  | item (i : Item)
  | statement (s : Stmt)
  | expression (e : Expr)
  | type (t : Ty)
  | identifier (i : Ident)
  | function (f : Function)
  | declaration (d : Declaration)
  | fieldValue (f : FieldValue)
  | target (t : Target)
  | branch (i : If)
  | alternative (e : Else)
  | arm (a : Arm)
  | guard (g : Guard)

def Item.parts : Item → List Fragment
  | .declaration d => [.declaration d]
  | .function f => [.function f]
  | .typeDeclaration _ type => [.type type]

def Stmt.parts : Stmt → List Fragment
  | .declaration d => [.declaration d]
  | .expression e => [.expression e]
  | .ret vals => vals.map .expression
  | .assignment targets vals => targets.map .target ++ vals.map .expression
  | .ifThen i => [.branch i]
  | .loop init cond post body =>
    init.toList.map .statement ++ cond.toList.map .expression ++ post.toList.map .statement ++
      body.map .statement
  | .go operator operands => .expression operator :: operands.map .expression
  | .select arms => arms.map .arm
  | .send chan val _ => [.expression chan, .expression val]
  | .empty => []
  | .function f => [.function f]
  | .typeDeclaration _ type => [.type type]

def Expr.parts : Expr → List Fragment
  | .identifier id => [.identifier id]
  | .literal _ type => [.type type]
  | .application operator operands => .expression operator :: operands.map .expression
  | .unary _ operand => [.expression operand]
  | .binary left _ right => [.expression left, .expression right]
  | .index accessed i => [.expression accessed, .expression i]
  | .function f => [.function f]
  | .structLiteral type fields => .type type :: fields.map .fieldValue
  | .member accessed field => [.expression accessed, .identifier field]
  | .receive chan _ => [.expression chan]

def Ty.parts : Ty → List Fragment
  | .any | .void | .basic _ | .custom _ => []
  | .tuple elements => elements.map .type
  | .function params result => [.type params, .type result]
  | .chan _ element => [.type element]
  | .array element _ => [.type element]
  | .slice element => [.type element]
  | .struct fields => fields.map .identifier

namespace Fragment

/-- The fragments that a fragment is made of, in the order of reading. -/
def children : Fragment → List Fragment
  | .program p => p.items.map .item
  | .item i => i.parts
  | .statement s => s.parts
  | .expression e => e.parts
  | .type t => t.parts
  | .identifier i => i.type.toList.map .type
  | .function f =>
    f.name.toList.map .identifier ++ f.formals.map .identifier ++ f.result.toList.map .type ++
      f.body.map .statement
  | .declaration d => d.ids.map .identifier ++ d.vals.map .expression
  | .fieldValue f => [.identifier f.field, .expression f.value]
  | .target (.identifier id) => [.identifier id]
  | .target (.index accessed index) => [.expression accessed, .expression index]
  | .branch i =>
    i.short.toList.map .statement ++ [.expression i.cond] ++ i.cons.map .statement ++
      i.alt.toList.map .alternative
  | .alternative (.block body) => body.map .statement
  | .alternative (.chained i) => [.branch i]
  | .arm (.otherwise body) => body.map .statement
  | .arm (.guarded g body) => .guard g :: body.map .statement
  | .guard (.send chan val _) => [.expression chan, .expression val]
  | .guard (.receive chan _) => [.expression chan]
  | .guard (.declaration d) => [.declaration d]
  | .guard (.assignment targets vals) => targets.map .target ++ vals.map .expression

/-- What a visit meets at a fragment, if it is a place. -/
def event? : Fragment → Option Event
  | .program _ => some .program
  | .item i => some (.item i.kind)
  | .statement s => some (.statement s.kind)
  | .expression e => some (.expression e.kind)
  | .type t => some (.type t.kind)
  | .identifier i => some (.identifier i.name)
  | .function _ => some .function
  | .declaration _ => some .declaration
  | _ => none

/-- The fragment at the end of a path. Each number on the path selects a child of the one before. -/
def at? (x : Fragment) : List Nat → Option Fragment
  | [] => some x
  | i :: path => x.children[i]?.bind (·.at? path)

def eventAt? (x : Fragment) (path : List Nat) : Option Event := (x.at? path).bind event?

/-- A place that lies in no pruned place, with its event. -/
def Reached (pruned : Event → Bool) (x : Fragment) (path : List Nat) (e : Event) : Prop :=
  x.eventAt? path = some e ∧ ∀ above e', above <+: path → above ≠ path →
    x.eventAt? above = some e' → pruned e' = false

theorem sizeOf_lt_of_mem_children {x y : Fragment} (h : y ∈ x.children) : sizeOf y < sizeOf x := by
  cases x with
  | item i => cases i <;> grind [→ List.sizeOf_lt_of_mem, children, Item.parts]
  | statement s => cases s <;> grind [→ List.sizeOf_lt_of_mem, children, Stmt.parts]
  | expression e => cases e <;> grind [→ List.sizeOf_lt_of_mem, children, Expr.parts]
  | type t => cases t <;> grind [→ List.sizeOf_lt_of_mem, children, Ty.parts]
  | program x | identifier x | function x | declaration x | fieldValue x | branch x =>
    cases x
    grind [→ List.sizeOf_lt_of_mem, children]
  | target x | alternative x | arm x | guard x =>
    cases x <;> grind [→ List.sizeOf_lt_of_mem, children]

def visit (pruned : Event → Bool) : Fragment → List Event
  | .program p => p.visit pruned
  | .item i => i.visit pruned
  | .statement s => s.visit pruned
  | .expression e => e.visit pruned
  | .type t => t.visit pruned
  | .identifier i => i.visit pruned
  | .function f => f.visit pruned
  | .declaration d => d.visit pruned
  | .fieldValue f => FieldValue.visitAll pruned [f]
  | .target t => Target.visitAll pruned [t]
  | .branch i => i.visitParts pruned
  | .alternative e => e.visitParts pruned
  | .arm a => Arm.visitAll pruned [a]
  | .guard g => g.visitParts pruned

def listed (pruned : Event → Bool) (x : Fragment) (inside : List Event) : List Event :=
  match x.event? with
  | some e => Event.followedBy pruned e inside
  | none => inside

end Fragment

section Lists

variable {pruned : Event → Bool}

theorem Fragment.visitAll_eq {α : Type} {f : List α → List Event} {c : α → Fragment} (hnil : f [] = [])
    (hcons : ∀ a as, f (a :: as) = (c a).visit pruned ++ f as) (as : List α) :
    f as = (as.map c).flatMap (Fragment.visit pruned) := by
  induction as with
  | nil => exact hnil
  | cons a as ih => rw [hcons, ih, List.map_cons, List.flatMap_cons]

theorem Fragment.visitOption_eq {α : Type} {f : Option α → List Event} {c : α → Fragment}
    (hnone : f none = []) (hsome : ∀ a, f (some a) = (c a).visit pruned) (o : Option α) :
    f o = (o.toList.map c).flatMap (Fragment.visit pruned) := by
  cases o with
  | none => exact hnone
  | some a => simp [hsome]

theorem Ty.visitAll_eq : ∀ ts, Ty.visitAll pruned ts = (ts.map .type).flatMap (Fragment.visit pruned) :=
  Fragment.visitAll_eq (by simp [Ty.visitAll]) (by simp [Ty.visitAll, Fragment.visit])

theorem Ident.visitAll_eq :
    ∀ is, Ident.visitAll pruned is = (is.map .identifier).flatMap (Fragment.visit pruned) :=
  Fragment.visitAll_eq (by simp [Ident.visitAll]) (by simp [Ident.visitAll, Fragment.visit])

theorem Expr.visitAll_eq :
    ∀ es, Expr.visitAll pruned es = (es.map .expression).flatMap (Fragment.visit pruned) :=
  Fragment.visitAll_eq (by simp [Expr.visitAll]) (by simp [Expr.visitAll, Fragment.visit])

theorem Stmt.visitAll_eq :
    ∀ ss, Stmt.visitAll pruned ss = (ss.map .statement).flatMap (Fragment.visit pruned) :=
  Fragment.visitAll_eq (by simp [Stmt.visitAll]) (by simp [Stmt.visitAll, Fragment.visit])

theorem FieldValue.visitAll_eq :
    ∀ fs, FieldValue.visitAll pruned fs = (fs.map .fieldValue).flatMap (Fragment.visit pruned) := by
  apply Fragment.visitAll_eq (by simp [FieldValue.visitAll])
  rintro ⟨field, value⟩ fs
  simp [FieldValue.visitAll, Fragment.visit]

theorem Target.visitAll_eq :
    ∀ ts, Target.visitAll pruned ts = (ts.map .target).flatMap (Fragment.visit pruned) := by
  apply Fragment.visitAll_eq (by simp [Target.visitAll])
  rintro (id | ⟨accessed, index⟩) ts <;> simp [Target.visitAll, Fragment.visit]

theorem Arm.visitAll_eq :
    ∀ as, Arm.visitAll pruned as = (as.map .arm).flatMap (Fragment.visit pruned) := by
  apply Fragment.visitAll_eq (by simp [Arm.visitAll])
  rintro (body | ⟨guard, body⟩) as <;> simp [Arm.visitAll, Fragment.visit]

theorem Ty.visitOption_eq :
    ∀ o, Ty.visitOption pruned o = (o.toList.map .type).flatMap (Fragment.visit pruned) :=
  Fragment.visitOption_eq (by simp [Ty.visitOption]) (by simp [Ty.visitOption, Fragment.visit])

theorem Ident.visitOption_eq :
    ∀ o, Ident.visitOption pruned o = (o.toList.map .identifier).flatMap (Fragment.visit pruned) :=
  Fragment.visitOption_eq (by simp [Ident.visitOption]) (by simp [Ident.visitOption, Fragment.visit])

theorem Expr.visitOption_eq :
    ∀ o, Expr.visitOption pruned o = (o.toList.map .expression).flatMap (Fragment.visit pruned) :=
  Fragment.visitOption_eq (by simp [Expr.visitOption]) (by simp [Expr.visitOption, Fragment.visit])

theorem Stmt.visitOption_eq :
    ∀ o, Stmt.visitOption pruned o = (o.toList.map .statement).flatMap (Fragment.visit pruned) :=
  Fragment.visitOption_eq (by simp [Stmt.visitOption]) (by simp [Stmt.visitOption, Fragment.visit])

theorem Else.visitOption_eq :
    ∀ o, Else.visitOption pruned o = (o.toList.map .alternative).flatMap (Fragment.visit pruned) :=
  Fragment.visitOption_eq (by simp [Else.visitOption]) (by simp [Else.visitOption, Fragment.visit])

end Lists

namespace Fragment

variable {pruned : Event → Bool}

theorem visit_type (t : Ty) :
    t.visit pruned = Event.followedBy pruned (.type t.kind) (t.parts.flatMap (visit pruned)) := by
  cases t <;> simp [Ty.visit, Ty.kind, Ty.parts, visit, Ty.visitAll_eq, Ident.visitAll_eq]

theorem visit_expression (e : Expr) :
    e.visit pruned =
      Event.followedBy pruned (.expression e.kind) (e.parts.flatMap (visit pruned)) := by
  cases e <;> simp [Expr.visit, Expr.kind, Expr.parts, visit, Expr.visitAll_eq, FieldValue.visitAll_eq]

theorem visit_statement (s : Stmt) :
    s.visit pruned = Event.followedBy pruned (.statement s.kind) (s.parts.flatMap (visit pruned)) := by
  cases s <;> simp [Stmt.visit, Stmt.kind, Stmt.parts, visit, Expr.visitAll_eq, Target.visitAll_eq,
    Stmt.visitAll_eq, Arm.visitAll_eq, Stmt.visitOption_eq, Expr.visitOption_eq]

theorem visit_eq (x : Fragment) :
    x.visit pruned = x.listed pruned (x.children.flatMap (visit pruned)) := by
  cases x with
  | program p => simp [visit, listed, event?, children, Program.visit, List.flatMap_map]
  | item i => cases i <;> simp [visit, listed, event?, children, Item.visit, Item.kind, Item.parts]
  | statement s => exact visit_statement s
  | expression e => exact visit_expression e
  | type t => exact visit_type t
  | identifier i => cases i; simp [visit, listed, event?, children, Ident.visit, Ty.visitOption_eq]
  | function f =>
    cases f
    simp [visit, listed, event?, children, Function.visit, Ident.visitOption_eq, Ident.visitAll_eq,
      Ty.visitOption_eq, Stmt.visitAll_eq]
  | declaration d =>
    cases d
    simp [visit, listed, event?, children, Declaration.visit, Ident.visitAll_eq, Expr.visitAll_eq]
  | fieldValue f => cases f; simp [visit, listed, event?, children, FieldValue.visitAll]
  | target t => cases t <;> simp [visit, listed, event?, children, Target.visitAll]
  | branch i =>
    cases i
    simp [visit, listed, event?, children, If.visitParts, Stmt.visitOption_eq, Stmt.visitAll_eq,
      Else.visitOption_eq]
  | alternative e =>
    cases e <;> simp [visit, listed, event?, children, Else.visitParts, Stmt.visitAll_eq]
  | arm a => cases a <;> simp [visit, listed, event?, children, Arm.visitAll, Stmt.visitAll_eq]
  | guard g =>
    cases g <;> simp [visit, listed, event?, children, Guard.visitParts, Target.visitAll_eq,
      Expr.visitAll_eq]

@[simp] theorem eventAt?_cons {x : Fragment} {i : Nat} {path : List Nat} {e : Event} :
    x.eventAt? (i :: path) = some e ↔ ∃ y, x.children[i]? = some y ∧ y.eventAt? path = some e := by
  simp only [eventAt?, at?, Option.bind_eq_some_iff]
  constructor
  · rintro ⟨z, ⟨y, hy, hz⟩, he⟩
    exact ⟨y, hy, z, hz, he⟩
  · rintro ⟨y, hy, z, hz, he⟩
    exact ⟨z, ⟨y, hy, hz⟩, he⟩

@[simp] theorem reached_nil {x : Fragment} {e : Event} : x.Reached pruned [] e ↔ x.event? = some e := by
  constructor
  · exact fun h => h.1
  · intro h
    refine ⟨h, fun above e' hpre hne => ?_⟩
    exact absurd (List.prefix_nil.1 hpre) hne

theorem reached_cons {x : Fragment} {i : Nat} {path : List Nat} {e : Event} :
    x.Reached pruned (i :: path) e ↔ (∀ e', x.event? = some e' → pruned e' = false) ∧
      ∃ y, x.children[i]? = some y ∧ y.Reached pruned path e := by
  constructor
  · rintro ⟨he, habove⟩
    refine ⟨fun e' he' => habove [] e' List.nil_prefix nofun he', ?_⟩
    obtain ⟨y, hy, hpath⟩ := eventAt?_cons.1 he
    refine ⟨y, hy, hpath, fun above e' hpre hne he' => ?_⟩
    have hbelow : x.eventAt? (i :: above) = some e' := eventAt?_cons.2 ⟨y, hy, he'⟩
    refine habove (i :: above) e' (List.cons_prefix_cons.2 ⟨rfl, hpre⟩) ?_ hbelow
    exact fun h => hne (List.cons.inj h).2
  · rintro ⟨hroot, y, hy, hpath, habove⟩
    refine ⟨eventAt?_cons.2 ⟨y, hy, hpath⟩, fun above e' hpre hne he' => ?_⟩
    cases above with
    | nil => exact hroot e' he'
    | cons j above =>
      obtain ⟨rfl, hrest⟩ := List.cons_prefix_cons.1 hpre
      obtain ⟨z, hz, he'⟩ := eventAt?_cons.1 he'
      obtain rfl : y = z := Option.some.inj (hy.symm.trans hz)
      exact habove above e' hrest (fun h => hne (congrArg (j :: ·) h)) he'

/-- The places that a visit of a fragment meets, each with its path, in the order of the paths. -/
structure Lists (pruned : Event → Bool) (x : Fragment) (entries : List (List Nat × Event)) : Prop where
  sorted : (entries.map Prod.fst).Pairwise (List.Lex (· < ·))
  mem_iff : ∀ path e, (path, e) ∈ entries ↔ x.Reached pruned path e
  events : x.visit pruned = entries.map Prod.snd

/-- The places in some neighbours, which are numbered from `k` on. -/
structure ListsFrom (pruned : Event → Bool) (k : Nat) (ys : List Fragment)
    (entries : List (List Nat × Event)) : Prop where
  sorted : (entries.map Prod.fst).Pairwise (List.Lex (· < ·))
  mem_iff : ∀ path e, (path, e) ∈ entries ↔ ∃ i y rest, path = (i + k) :: rest ∧ ys[i]? = some y ∧
    y.Reached pruned rest e
  events : ys.flatMap (visit pruned) = entries.map Prod.snd

theorem ListsFrom.cons {y : Fragment} {ys : List Fragment} {k : Nat}
    {first others : List (List Nat × Event)} (hfirst : Lists pruned y first)
    (hothers : ListsFrom pruned (k + 1) ys others) :
    ListsFrom pruned k (y :: ys) (first.map (fun entry => (k :: entry.1, entry.2)) ++ others) where
  sorted := by
    rw [List.map_append, List.pairwise_append]
    refine ⟨?_, hothers.sorted, ?_⟩
    · have hsorted := hfirst.sorted
      simp only [List.map_map, List.pairwise_map] at hsorted ⊢
      exact hsorted.imp List.Lex.cons
    · intro a ha b hb
      simp only [List.map_map, List.mem_map] at ha hb
      obtain ⟨entry, -, rfl⟩ := ha
      obtain ⟨⟨path, e⟩, hother, rfl⟩ := hb
      obtain ⟨i, -, rest, rfl, -⟩ := (hothers.mem_iff path e).1 hother
      exact .rel (by omega)
  mem_iff := by
    intro path e
    rw [List.mem_append, hothers.mem_iff]
    constructor
    · rintro (hpath | ⟨i, z, rest, rfl, hz, hrest⟩)
      · obtain ⟨⟨rest, d⟩, hentry, heq⟩ := List.mem_map.1 hpath
        obtain ⟨rfl, rfl⟩ := Prod.mk.inj heq
        exact ⟨0, y, rest, by rw [Nat.zero_add], rfl, (hfirst.mem_iff rest d).1 hentry⟩
      · exact ⟨i + 1, z, rest, by rw [Nat.add_right_comm, Nat.add_assoc], hz, hrest⟩
    · rintro ⟨i, z, rest, rfl, hz, hrest⟩
      cases i with
      | zero =>
        obtain rfl : y = z := Option.some.inj hz
        rw [Nat.zero_add]
        exact .inl (List.mem_map.2 ⟨(rest, e), (hfirst.mem_iff rest e).2 hrest, rfl⟩)
      | succ i => exact .inr ⟨i, z, rest, by rw [Nat.add_right_comm, Nat.add_assoc], hz, hrest⟩
  events := by simp [hfirst.events, hothers.events]

private theorem exists_listsFrom {ys : List Fragment} (h : ∀ y ∈ ys, ∃ entries, Lists pruned y entries)
    (k : Nat) : ∃ entries, ListsFrom pruned k ys entries := by
  induction ys generalizing k with
  | nil => exact ⟨[], .nil, by simp, rfl⟩
  | cons y ys ih =>
    obtain ⟨⟨first, hfirst⟩, hys⟩ := List.forall_mem_cons.1 h
    obtain ⟨others, hothers⟩ := ih hys (k + 1)
    exact ⟨_, hothers.cons hfirst⟩

section Root

variable {x : Fragment} {inside : List (List Nat × Event)}
  (hinside : ListsFrom pruned 0 x.children inside)
include hinside

theorem ListsFrom.nil_notMem (e : Event) : ([], e) ∉ inside := by
  rw [hinside.mem_iff]
  exact nofun

theorem ListsFrom.mem_iff_reached (hroot : ∀ e, x.event? = some e → pruned e = false) (i : Nat)
    (path : List Nat) (e : Event) : (i :: path, e) ∈ inside ↔ x.Reached pruned (i :: path) e := by
  rw [hinside.mem_iff, reached_cons]
  constructor
  · rintro ⟨j, y, rest, heq, hy, hrest⟩
    obtain ⟨rfl, rfl⟩ := List.cons.inj heq
    exact ⟨hroot, y, hy, hrest⟩
  · rintro ⟨-, y, hy, hpath⟩
    exact ⟨i, y, path, rfl, hy, hpath⟩

theorem ListsFrom.of_none (hx : x.event? = none) : Lists pruned x inside where
  sorted := hinside.sorted
  mem_iff := by
    intro path e
    cases path with
    | nil => simp [hx, hinside.nil_notMem]
    | cons i path => exact hinside.mem_iff_reached (by simp [hx]) i path e
  events := by simp [visit_eq x, listed, hx, hinside.events]

theorem ListsFrom.of_some {e : Event} (hx : x.event? = some e) (hpruned : pruned e = false) :
    Lists pruned x (([], e) :: inside) where
  sorted := by
    refine List.pairwise_cons.2 ⟨fun path hpath => ?_, hinside.sorted⟩
    obtain ⟨⟨path, d⟩, hentry, rfl⟩ := List.mem_map.1 hpath
    cases path with
    | nil => exact absurd hentry (hinside.nil_notMem d)
    | cons i path => exact .nil
  mem_iff := by
    intro path e'
    cases path with
    | nil => simp [hx, hinside.nil_notMem, eq_comm]
    | cons i path =>
      rw [← hinside.mem_iff_reached (by simp [hx, hpruned]) i path e']
      simp
  events := by simp [visit_eq x, listed, hx, Event.followedBy, hpruned, hinside.events]

end Root

private theorem lists_of_pruned {x : Fragment} {e : Event} (hx : x.event? = some e)
    (hpruned : pruned e = true) :
    Lists pruned x [([], e)] where
  sorted := List.pairwise_singleton _ _
  mem_iff := by
    intro path e'
    cases path with
    | nil => simp [hx, eq_comm]
    | cons i path => simp [reached_cons, hx, hpruned]
  events := by simp [visit_eq x, listed, hx, Event.followedBy, hpruned]

/-- A visit lists the places of a fragment, by induction on its size. -/
theorem exists_lists (x : Fragment) : ∃ entries, Lists pruned x entries := by
  have hchildren : ∀ y ∈ x.children, ∃ entries, Lists pruned y entries := fun y hy => exists_lists y
  obtain ⟨inside, hinside⟩ := exists_listsFrom hchildren 0
  cases hx : x.event? with
  | none => exact ⟨inside, hinside.of_none hx⟩
  | some e =>
    cases hpruned : pruned e with
    | true => exact ⟨_, lists_of_pruned hx hpruned⟩
    | false => exact ⟨_, hinside.of_some hx hpruned⟩
termination_by sizeOf x
decreasing_by exact sizeOf_lt_of_mem_children hy

end Fragment

/-- The visit of a program is the list of its places in the order of reading, less those inside pruned
places: their paths ascend, so none is met twice, and a place is met exactly if no place around it is
pruned. Without pruning these are all places. -/
theorem Program.visit_preorder (p : Program) (pruned : Event → Bool) :
    ∃ entries : List (List Nat × Event), p.visit pruned = entries.map Prod.snd ∧
      (entries.map Prod.fst).Pairwise (List.Lex (· < ·)) ∧ (entries.map Prod.fst).Nodup ∧
      (∀ path e, (path, e) ∈ entries ↔ (Fragment.program p).Reached pruned path e) ∧
      ((∀ e, pruned e = false) →
        ∀ path e, (path, e) ∈ entries ↔ (Fragment.program p).eventAt? path = some e) := by
  obtain ⟨entries, hsorted, hmem, hevents⟩ := Fragment.exists_lists (.program p)
  refine ⟨entries, hevents, hsorted, ?_, hmem, ?_⟩
  · refine hsorted.imp ?_
    rintro a _ hlex rfl
    exact List.lex_irrefl Nat.lt_irrefl a hlex
  · intro hpruned path e
    rw [hmem]
    constructor
    · exact fun h => h.1
    · exact fun h => ⟨h, fun _ e' _ _ _ => hpruned e'⟩

-- A pruned name is still met; the type behind it is not.
example : (Program.mk [.declaration ⟨.var, [⟨"x", some .any⟩, ⟨"y", some .any⟩], []⟩]).visit
    (· = .identifier "x") = [.program, .item .declaration, .declaration, .identifier "x",
      .identifier "y", .type .anyType] := rfl

end MiniGo
