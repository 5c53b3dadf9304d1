import MiniGo.Proofs.Program.Conversion

/-!
Programs keep all that their trees say. Each typed place can be written back as the node it was made
of, so a tree is known from its program: nothing is dropped, merged or put in another order.
-/
namespace MiniGo

mutual

def Ty.toNode : Ty → Node
  | .any => .anyType
  | .void => .voidType
  | .basic b => .basicType b
  | .tuple elements => .tupleType (Ty.toNodes elements)
  | .function params result => .functionType params.toNode result.toNode
  | .chan direction element => .chanType direction element.toNode
  | .array element size => .arrayType element.toNode size
  | .slice element => .sliceType element.toNode
  | .custom name => .customType name
  | .struct fields => .structType (Ident.toElements fields)

def Ty.toNodes : List Ty → List Node
  | [] => []
  | t :: ts => t.toNode :: Ty.toNodes ts

def Ty.toOption : Option Ty → Option Node
  | none => none
  | some t => some t.toNode

def Ident.toNode : Ident → Node
  | ⟨name, type⟩ => .identifier name (Ty.toOption type)

def Ident.toElements : List Ident → List Node
  | [] => []
  | i :: is => .structElement i.toNode :: Ident.toElements is

end

mutual

def Expr.toNode : Expr → Node
  | .identifier id => id.toNode
  | .literal value type => .literal value type.toNode
  | .application operator operands => .application operator.toNode (Expr.toNodes operands)
  | .unary opcode operand => .unary opcode operand.toNode
  | .binary left opcode right => .binary left.toNode opcode right.toNode
  | .index accessed index => .index accessed.toNode index.toNode
  | .function f => f.toNode
  | .structLiteral type fields => .structLiteral type.toNode (FieldValue.toNodes fields)
  | .member accessed field => .member accessed.toNode field.toNode
  | .receive chan inSelect => .receive chan.toNode inSelect

def Expr.toNodes : List Expr → List Node
  | [] => []
  | e :: es => e.toNode :: Expr.toNodes es

def Expr.toOption : Option Expr → Option Node
  | none => none
  | some e => some e.toNode

def FieldValue.toNodes : List FieldValue → List Node
  | [] => []
  | ⟨field, value⟩ :: fs => .fieldValue field.toNode value.toNode :: FieldValue.toNodes fs

def Function.toNode : Function → Node
  | ⟨name, formals, result, body⟩ =>
    .function (name.map Ident.toNode) (formals.map Ident.toNode) (Ty.toOption result)
      (Stmt.toNodes body)

def Declaration.toNode : Declaration → Node
  | ⟨kind, ids, vals⟩ => .declaration kind (ids.map Ident.toNode) (Expr.toNodes vals)

def Target.toNodes : List Target → List Node
  | [] => []
  | .identifier id :: ts => id.toNode :: Target.toNodes ts
  | .index accessed index :: ts => .index accessed.toNode index.toNode :: Target.toNodes ts

def Stmt.toNode : Stmt → Node
  | .declaration d => d.toNode
  | .expression e => .expressionStatement e.toNode
  | .ret vals => .returnStatement (Expr.toNodes vals)
  | .assignment targets vals => .assignment (Target.toNodes targets) (Expr.toNodes vals)
  | .ifThen i => i.toNode
  | .loop init cond post body =>
    .forStatement (Stmt.toOption init) (Expr.toOption cond) (Stmt.toOption post) (Stmt.toNodes body)
  | .go operator operands => .goStatement (.application operator.toNode (Expr.toNodes operands))
  | .select arms => .selectStatement (Arm.toNodes arms)
  | .send chan val inSelect => .send chan.toNode val.toNode inSelect
  | .empty => .empty
  | .function f => f.toNode
  | .typeDeclaration name type => .typeDeclaration (.customType name) type.toNode

def Stmt.toNodes : List Stmt → List Node
  | [] => []
  | s :: ss => s.toNode :: Stmt.toNodes ss

def Stmt.toOption : Option Stmt → Option Node
  | none => none
  | some s => some s.toNode

def If.toNode : If → Node
  | ⟨short, cond, cons, alt⟩ =>
    .ifStatement cond.toNode (Stmt.toNodes cons) (Else.toOption alt) (Stmt.toOption short)

def Else.toAlternative : Else → Alternative
  | .block body => .block (Stmt.toNodes body)
  | .chained i => .chained i.toNode

def Else.toOption : Option Else → Option Alternative
  | none => none
  | some e => some e.toAlternative

def Arm.toNodes : List Arm → List Node
  | [] => []
  | .otherwise body :: as => .defaultCase (Stmt.toNodes body) :: Arm.toNodes as
  | .guarded guard body :: as => .selectCase guard.toNode (Stmt.toNodes body) :: Arm.toNodes as

def Guard.toNode : Guard → Node
  | .send chan val inSelect => .send chan.toNode val.toNode inSelect
  | .receive chan inSelect => .receive chan.toNode inSelect
  | .declaration d => d.toNode
  | .assignment targets vals => .assignment (Target.toNodes targets) (Expr.toNodes vals)

end

def Item.toNode : Item → Node
  | .declaration d => d.toNode
  | .function f => f.toNode
  | .typeDeclaration name type => .typeDeclaration (.customType name) type.toNode

/-- The tree of a program. -/
def Program.toNode (p : Program) : Node := .program (p.items.map Item.toNode)

mutual

theorem Ty.toNode_of_ofNode {n : Node} {t : Ty} (h : Ty.ofNode? n = some t) : t.toNode = n := by
  cases n with
  | anyType | voidType | basicType | customType =>
    cases h
    rfl
  | tupleType elements =>
    simp only [Ty.ofNode?, Option.map_eq_some_iff] at h
    obtain ⟨ts, hts, rfl⟩ := h
    rw [Ty.toNode, Ty.toNodes_of_ofNodes hts]
  | functionType params result =>
    simp only [Ty.ofNode?, bind, Option.bind_eq_some_iff] at h
    obtain ⟨p, hp, r, hr, ⟨⟩⟩ := h
    rw [Ty.toNode, Ty.toNode_of_ofNode hp, Ty.toNode_of_ofNode hr]
  | chanType _ element | arrayType element _ | sliceType element =>
    simp only [Ty.ofNode?, Option.map_eq_some_iff] at h
    obtain ⟨e, he, rfl⟩ := h
    rw [Ty.toNode, Ty.toNode_of_ofNode he]
  | structType elems =>
    simp only [Ty.ofNode?, Option.map_eq_some_iff] at h
    obtain ⟨is, his, rfl⟩ := h
    rw [Ty.toNode, Ident.toElements_of_ofElements his]
  | _ => cases h

theorem Ty.toNodes_of_ofNodes {ns : List Node} {ts : List Ty} (h : Ty.ofNodes? ns = some ts) :
    Ty.toNodes ts = ns := by
  cases ns with
  | nil =>
    cases h
    rfl
  | cons n ns =>
    simp only [Ty.ofNodes?, bind, Option.bind_eq_some_iff] at h
    obtain ⟨t, ht, ts, hts, ⟨⟩⟩ := h
    rw [Ty.toNodes, Ty.toNode_of_ofNode ht, Ty.toNodes_of_ofNodes hts]

theorem Ty.toOption_of_ofOption {o : Option Node} {t : Option Ty} (h : Ty.ofOption? o = some t) :
    Ty.toOption t = o := by
  cases o with
  | none =>
    cases h
    rfl
  | some n =>
    simp only [Ty.ofOption?, Option.map_eq_some_iff] at h
    obtain ⟨t, ht, rfl⟩ := h
    rw [Ty.toOption, Ty.toNode_of_ofNode ht]

theorem Ident.toNode_of_ofNode {n : Node} {i : Ident} (h : Ident.ofNode? n = some i) :
    i.toNode = n := by
  cases n with
  | identifier name type =>
    simp only [Ident.ofNode?, Option.map_eq_some_iff] at h
    obtain ⟨t, ht, rfl⟩ := h
    rw [Ident.toNode, Ty.toOption_of_ofOption ht]
  | _ => cases h

theorem Ident.toElements_of_ofElements {ns : List Node} {is : List Ident}
    (h : Ident.ofElements? ns = some is) : Ident.toElements is = ns := by
  cases ns with
  | nil =>
    cases h
    rfl
  | cons n ns =>
    cases n with
    | structElement name =>
      simp only [Ident.ofElements?, bind, Option.bind_eq_some_iff] at h
      obtain ⟨i, hi, is, his, ⟨⟩⟩ := h
      rw [Ident.toElements, Ident.toNode_of_ofNode hi, Ident.toElements_of_ofElements his]
    | _ => cases h

end

theorem map_of_mapM {α : Type} {f : Node → Option α} {g : α → Node}
    (h : ∀ {n x}, f n = some x → g x = n) {ns : List Node} {xs : List α}
    (hxs : ns.mapM f = some xs) : xs.map g = ns := by
  induction ns generalizing xs with
  | nil =>
    cases hxs
    rfl
  | cons n ns ih =>
    simp only [List.mapM_cons, bind, Option.bind_eq_some_iff] at hxs
    obtain ⟨y, hy, ys, hys, ⟨⟩⟩ := hxs
    rw [List.map_cons, h hy, ih hys]

theorem Ident.map_toNode_of_ofNodes {ns : List Node} {is : List Ident}
    (h : Ident.ofNodes? ns = some is) : is.map Ident.toNode = ns :=
  map_of_mapM Ident.toNode_of_ofNode h

theorem Ident.map_toNode_of_ofOption {o : Option Node} {i : Option Ident}
    (h : Ident.ofOption? o = some i) : i.map Ident.toNode = o := by
  cases o with
  | none =>
    cases h
    rfl
  | some n =>
    simp only [Ident.ofOption?, Option.map_eq_some_iff] at h
    obtain ⟨i, hi, rfl⟩ := h
    rw [Option.map_some, Ident.toNode_of_ofNode hi]

mutual

theorem Expr.toNode_of_ofNode {n : Node} {e : Expr} (h : Expr.ofNode? n = some e) :
    e.toNode = n := by
  cases n with
  | identifier name type =>
    simp only [Expr.ofNode?, Option.map_eq_some_iff] at h
    obtain ⟨t, ht, rfl⟩ := h
    rw [Expr.toNode, Ident.toNode, Ty.toOption_of_ofOption ht]
  | literal value type =>
    simp only [Expr.ofNode?, Option.map_eq_some_iff] at h
    obtain ⟨t, ht, rfl⟩ := h
    rw [Expr.toNode, Ty.toNode_of_ofNode ht]
  | application operator operands =>
    simp only [Expr.ofNode?, bind, Option.bind_eq_some_iff] at h
    obtain ⟨f, hf, es, hes, ⟨⟩⟩ := h
    rw [Expr.toNode, Expr.toNode_of_ofNode hf, Expr.toNodes_of_ofNodes hes]
  | unary opcode operand =>
    simp only [Expr.ofNode?, Option.map_eq_some_iff] at h
    obtain ⟨e, he, rfl⟩ := h
    rw [Expr.toNode, Expr.toNode_of_ofNode he]
  | binary left opcode right =>
    simp only [Expr.ofNode?, bind, Option.bind_eq_some_iff] at h
    obtain ⟨l, hl, r, hr, ⟨⟩⟩ := h
    rw [Expr.toNode, Expr.toNode_of_ofNode hl, Expr.toNode_of_ofNode hr]
  | index accessed index =>
    simp only [Expr.ofNode?, bind, Option.bind_eq_some_iff] at h
    obtain ⟨a, ha, i, hi, ⟨⟩⟩ := h
    rw [Expr.toNode, Expr.toNode_of_ofNode ha, Expr.toNode_of_ofNode hi]
  | function name formals result body =>
    simp only [Expr.ofNode?, bind, Option.bind_eq_some_iff] at h
    obtain ⟨i, hi, is, his, t, ht, ss, hss, ⟨⟩⟩ := h
    rw [Expr.toNode, Function.toNode, Ident.map_toNode_of_ofOption hi,
      Ident.map_toNode_of_ofNodes his, Ty.toOption_of_ofOption ht, Stmt.toNodes_of_ofNodes hss]
  | structLiteral type fields =>
    simp only [Expr.ofNode?, bind, Option.bind_eq_some_iff] at h
    obtain ⟨t, ht, fs, hfs, ⟨⟩⟩ := h
    rw [Expr.toNode, Ty.toNode_of_ofNode ht, FieldValue.toNodes_of_ofNodes hfs]
  | member accessed field =>
    simp only [Expr.ofNode?, bind, Option.bind_eq_some_iff] at h
    obtain ⟨a, ha, i, hi, ⟨⟩⟩ := h
    rw [Expr.toNode, Expr.toNode_of_ofNode ha, Ident.toNode_of_ofNode hi]
  | receive chan inSelect =>
    simp only [Expr.ofNode?, Option.map_eq_some_iff] at h
    obtain ⟨c, hc, rfl⟩ := h
    rw [Expr.toNode, Expr.toNode_of_ofNode hc]
  | _ => cases h

theorem Expr.toNodes_of_ofNodes {ns : List Node} {es : List Expr} (h : Expr.ofNodes? ns = some es) :
    Expr.toNodes es = ns := by
  cases ns with
  | nil =>
    cases h
    rfl
  | cons n ns =>
    simp only [Expr.ofNodes?, bind, Option.bind_eq_some_iff] at h
    obtain ⟨e, he, es, hes, ⟨⟩⟩ := h
    rw [Expr.toNodes, Expr.toNode_of_ofNode he, Expr.toNodes_of_ofNodes hes]

theorem Expr.toOption_of_ofOption {o : Option Node} {e : Option Expr}
    (h : Expr.ofOption? o = some e) : Expr.toOption e = o := by
  cases o with
  | none =>
    cases h
    rfl
  | some n =>
    simp only [Expr.ofOption?, Option.map_eq_some_iff] at h
    obtain ⟨e, he, rfl⟩ := h
    rw [Expr.toOption, Expr.toNode_of_ofNode he]

theorem FieldValue.toNodes_of_ofNodes {ns : List Node} {fs : List FieldValue}
    (h : FieldValue.ofNodes? ns = some fs) : FieldValue.toNodes fs = ns := by
  cases ns with
  | nil =>
    cases h
    rfl
  | cons n ns =>
    cases n with
    | fieldValue field expr =>
      simp only [FieldValue.ofNodes?, bind, Option.bind_eq_some_iff] at h
      obtain ⟨i, hi, e, he, fs, hfs, ⟨⟩⟩ := h
      rw [FieldValue.toNodes, Ident.toNode_of_ofNode hi, Expr.toNode_of_ofNode he,
        FieldValue.toNodes_of_ofNodes hfs]
    | _ => cases h

theorem Target.toNodes_of_ofNodes {ns : List Node} {ts : List Target}
    (h : Target.ofNodes? ns = some ts) : Target.toNodes ts = ns := by
  cases ns with
  | nil =>
    cases h
    rfl
  | cons n ns =>
    cases n with
    | identifier name type =>
      simp only [Target.ofNodes?, bind, Option.bind_eq_some_iff] at h
      obtain ⟨t, ht, ts, hts, ⟨⟩⟩ := h
      rw [Target.toNodes, Ident.toNode, Ty.toOption_of_ofOption ht, Target.toNodes_of_ofNodes hts]
    | index accessed index =>
      simp only [Target.ofNodes?, bind, Option.bind_eq_some_iff] at h
      obtain ⟨a, ha, i, hi, ts, hts, ⟨⟩⟩ := h
      rw [Target.toNodes, Expr.toNode_of_ofNode ha, Expr.toNode_of_ofNode hi,
        Target.toNodes_of_ofNodes hts]
    | _ => cases h

theorem Stmt.toNode_of_ofNode {n : Node} {s : Stmt} (h : Stmt.ofNode? n = some s) :
    s.toNode = n := by
  cases n with
  | declaration kind ids vals =>
    simp only [Stmt.ofNode?, bind, Option.bind_eq_some_iff] at h
    obtain ⟨is, his, es, hes, ⟨⟩⟩ := h
    rw [Stmt.toNode, Declaration.toNode, Ident.map_toNode_of_ofNodes his, Expr.toNodes_of_ofNodes hes]
  | expressionStatement expression =>
    simp only [Stmt.ofNode?, Option.map_eq_some_iff] at h
    obtain ⟨e, he, rfl⟩ := h
    rw [Stmt.toNode, Expr.toNode_of_ofNode he]
  | returnStatement expressions =>
    simp only [Stmt.ofNode?, Option.map_eq_some_iff] at h
    obtain ⟨es, hes, rfl⟩ := h
    rw [Stmt.toNode, Expr.toNodes_of_ofNodes hes]
  | assignment targets vals =>
    simp only [Stmt.ofNode?, bind, Option.bind_eq_some_iff] at h
    obtain ⟨ts, hts, es, hes, ⟨⟩⟩ := h
    rw [Stmt.toNode, Target.toNodes_of_ofNodes hts, Expr.toNodes_of_ofNodes hes]
  | ifStatement cond cons alt short =>
    simp only [Stmt.ofNode?, bind, Option.bind_eq_some_iff] at h
    obtain ⟨s, hs, e, he, ss, hss, a, ha, ⟨⟩⟩ := h
    rw [Stmt.toNode, If.toNode, Stmt.toOption_of_ofOption hs, Expr.toNode_of_ofNode he,
      Stmt.toNodes_of_ofNodes hss, Else.toOption_of_ofOption ha]
  | forStatement init cond post body =>
    simp only [Stmt.ofNode?, bind, Option.bind_eq_some_iff] at h
    obtain ⟨i, hi, e, he, p, hp, ss, hss, ⟨⟩⟩ := h
    rw [Stmt.toNode, Stmt.toOption_of_ofOption hi, Expr.toOption_of_ofOption he,
      Stmt.toOption_of_ofOption hp, Stmt.toNodes_of_ofNodes hss]
  | goStatement app =>
    cases app with
    | application operator operands =>
      simp only [Stmt.ofNode?, bind, Option.bind_eq_some_iff] at h
      obtain ⟨f, hf, es, hes, ⟨⟩⟩ := h
      rw [Stmt.toNode, Expr.toNode_of_ofNode hf, Expr.toNodes_of_ofNodes hes]
    | _ => cases h
  | selectStatement cases =>
    simp only [Stmt.ofNode?, Option.map_eq_some_iff] at h
    obtain ⟨as, has, rfl⟩ := h
    rw [Stmt.toNode, Arm.toNodes_of_ofNodes has]
  | send chan val inSelect =>
    simp only [Stmt.ofNode?, bind, Option.bind_eq_some_iff] at h
    obtain ⟨c, hc, v, hv, ⟨⟩⟩ := h
    rw [Stmt.toNode, Expr.toNode_of_ofNode hc, Expr.toNode_of_ofNode hv]
  | empty =>
    cases h
    rfl
  | function name formals result body =>
    simp only [Stmt.ofNode?, bind, Option.bind_eq_some_iff] at h
    obtain ⟨i, hi, is, his, t, ht, ss, hss, ⟨⟩⟩ := h
    rw [Stmt.toNode, Function.toNode, Ident.map_toNode_of_ofOption hi,
      Ident.map_toNode_of_ofNodes his, Ty.toOption_of_ofOption ht, Stmt.toNodes_of_ofNodes hss]
  | typeDeclaration name type =>
    cases name with
    | customType s =>
      simp only [Stmt.ofNode?, Option.map_eq_some_iff] at h
      obtain ⟨t, ht, rfl⟩ := h
      rw [Stmt.toNode, Ty.toNode_of_ofNode ht]
    | _ => cases h
  | _ => cases h

theorem Stmt.toNodes_of_ofNodes {ns : List Node} {ss : List Stmt} (h : Stmt.ofNodes? ns = some ss) :
    Stmt.toNodes ss = ns := by
  cases ns with
  | nil =>
    cases h
    rfl
  | cons n ns =>
    simp only [Stmt.ofNodes?, bind, Option.bind_eq_some_iff] at h
    obtain ⟨s, hs, ss, hss, ⟨⟩⟩ := h
    rw [Stmt.toNodes, Stmt.toNode_of_ofNode hs, Stmt.toNodes_of_ofNodes hss]

theorem Stmt.toOption_of_ofOption {o : Option Node} {s : Option Stmt}
    (h : Stmt.ofOption? o = some s) : Stmt.toOption s = o := by
  cases o with
  | none =>
    cases h
    rfl
  | some n =>
    simp only [Stmt.ofOption?, Option.map_eq_some_iff] at h
    obtain ⟨s, hs, rfl⟩ := h
    rw [Stmt.toOption, Stmt.toNode_of_ofNode hs]

theorem If.toNode_of_ofNode {n : Node} {i : If} (h : If.ofNode? n = some i) : i.toNode = n := by
  cases n with
  | ifStatement cond cons alt short =>
    simp only [If.ofNode?, bind, Option.bind_eq_some_iff] at h
    obtain ⟨s, hs, e, he, ss, hss, a, ha, ⟨⟩⟩ := h
    rw [If.toNode, Stmt.toOption_of_ofOption hs, Expr.toNode_of_ofNode he,
      Stmt.toNodes_of_ofNodes hss, Else.toOption_of_ofOption ha]
  | _ => cases h

theorem Else.toAlternative_of_ofAlternative {a : Alternative} {e : Else}
    (h : Else.ofAlternative? a = some e) : e.toAlternative = a := by
  cases a with
  | block body =>
    simp only [Else.ofAlternative?, Option.map_eq_some_iff] at h
    obtain ⟨ss, hss, rfl⟩ := h
    rw [Else.toAlternative, Stmt.toNodes_of_ofNodes hss]
  | chained node =>
    simp only [Else.ofAlternative?, Option.map_eq_some_iff] at h
    obtain ⟨i, hi, rfl⟩ := h
    rw [Else.toAlternative, If.toNode_of_ofNode hi]

theorem Else.toOption_of_ofOption {o : Option Alternative} {e : Option Else}
    (h : Else.ofOption? o = some e) : Else.toOption e = o := by
  cases o with
  | none =>
    cases h
    rfl
  | some a =>
    simp only [Else.ofOption?, Option.map_eq_some_iff] at h
    obtain ⟨e, he, rfl⟩ := h
    rw [Else.toOption, Else.toAlternative_of_ofAlternative he]

theorem Arm.toNodes_of_ofNodes {ns : List Node} {as : List Arm} (h : Arm.ofNodes? ns = some as) :
    Arm.toNodes as = ns := by
  cases ns with
  | nil =>
    cases h
    rfl
  | cons n ns =>
    cases n with
    | selectCase guard body =>
      simp only [Arm.ofNodes?, bind, Option.bind_eq_some_iff] at h
      obtain ⟨g, hg, ss, hss, as, has, ⟨⟩⟩ := h
      rw [Arm.toNodes, Guard.toNode_of_ofNode hg, Stmt.toNodes_of_ofNodes hss,
        Arm.toNodes_of_ofNodes has]
    | defaultCase body =>
      simp only [Arm.ofNodes?, bind, Option.bind_eq_some_iff] at h
      obtain ⟨ss, hss, as, has, ⟨⟩⟩ := h
      rw [Arm.toNodes, Stmt.toNodes_of_ofNodes hss, Arm.toNodes_of_ofNodes has]
    | _ => cases h

theorem Guard.toNode_of_ofNode {n : Node} {g : Guard} (h : Guard.ofNode? n = some g) :
    g.toNode = n := by
  cases n with
  | send chan val inSelect =>
    simp only [Guard.ofNode?, bind, Option.bind_eq_some_iff] at h
    obtain ⟨c, hc, v, hv, ⟨⟩⟩ := h
    rw [Guard.toNode, Expr.toNode_of_ofNode hc, Expr.toNode_of_ofNode hv]
  | receive chan inSelect =>
    simp only [Guard.ofNode?, Option.map_eq_some_iff] at h
    obtain ⟨c, hc, rfl⟩ := h
    rw [Guard.toNode, Expr.toNode_of_ofNode hc]
  | declaration kind ids vals =>
    simp only [Guard.ofNode?, bind, Option.bind_eq_some_iff] at h
    obtain ⟨is, his, es, hes, ⟨⟩⟩ := h
    rw [Guard.toNode, Declaration.toNode, Ident.map_toNode_of_ofNodes his, Expr.toNodes_of_ofNodes hes]
  | assignment targets vals =>
    simp only [Guard.ofNode?, bind, Option.bind_eq_some_iff] at h
    obtain ⟨ts, hts, es, hes, ⟨⟩⟩ := h
    rw [Guard.toNode, Target.toNodes_of_ofNodes hts, Expr.toNodes_of_ofNodes hes]
  | _ => cases h

end

theorem Item.toNode_of_ofNode {n : Node} {i : Item} (h : Item.ofNode? n = some i) :
    i.toNode = n := by
  cases n with
  | declaration kind ids vals =>
    simp only [Item.ofNode?, bind, Option.bind_eq_some_iff] at h
    obtain ⟨is, his, es, hes, ⟨⟩⟩ := h
    rw [Item.toNode, Declaration.toNode, Ident.map_toNode_of_ofNodes his, Expr.toNodes_of_ofNodes hes]
  | function name formals result body =>
    simp only [Item.ofNode?, bind, Option.bind_eq_some_iff] at h
    obtain ⟨i, hi, is, his, t, ht, ss, hss, ⟨⟩⟩ := h
    rw [Item.toNode, Function.toNode, Ident.map_toNode_of_ofOption hi,
      Ident.map_toNode_of_ofNodes his, Ty.toOption_of_ofOption ht, Stmt.toNodes_of_ofNodes hss]
  | typeDeclaration name type =>
    cases name with
    | customType s =>
      simp only [Item.ofNode?, Option.map_eq_some_iff] at h
      obtain ⟨t, ht, rfl⟩ := h
      rw [Item.toNode, Ty.toNode_of_ofNode ht]
    | _ => cases h
  | _ => cases h

/-- The tree of a program is the tree that it was made of. -/
theorem Program.toNode_of_ofNode {tree : Node} {p : Program} (h : Program.ofNode? tree = some p) :
    p.toNode = tree := by
  cases tree with
  | program items =>
    simp only [Program.ofNode?, Option.map_eq_some_iff] at h
    obtain ⟨is, his, rfl⟩ := h
    rw [Program.toNode, map_of_mapM Item.toNode_of_ofNode his]
  | _ => cases h

/-- A tree that passes the check is recovered from its program, and so it is the only tree that has this
program. Programs are compared as they are built, not by agreement, which would let types differ. -/
theorem Program.toNode_of_check {tree : Node} {limit : Nat} (h : tree.check limit = .ok ()) :
    ∃ p, Program.ofNode? tree = some p ∧ p.toNode = tree ∧
      ∀ other limit', Node.check other limit' = .ok () → Program.ofNode? other = some p →
        other = tree := by
  obtain ⟨p, hp⟩ := (Node.wellFormed_of_check h).converts
  refine ⟨p, hp, Program.toNode_of_ofNode hp, ?_⟩
  intro other limit' _ hother
  rw [← Program.toNode_of_ofNode hother, Program.toNode_of_ofNode hp]

theorem Program.toNode_of_selectCase :
    (Node.program [.function (some (.name "f")) [] none [.selectStatement [
        .selectCase (.declaration .var [.name "x"] [.receive (.name "c") true]) []]]]).check 5 =
        .ok () ∧
      ∃ p, Program.ofNode? (.program [.function (some (.name "f")) [] none [.selectStatement [
          .selectCase (.declaration .var [.name "x"] [.receive (.name "c") true]) []]]]) = some p ∧
        p.toNode = .program [.function (some (.name "f")) [] none [.selectStatement [
          .selectCase (.declaration .var [.name "x"] [.receive (.name "c") true]) []]]] := by
  have hcheck : (Node.program [.function (some (.name "f")) [] none [.selectStatement [
      .selectCase (.declaration .var [.name "x"] [.receive (.name "c") true]) []]]]).check 5 =
      .ok () := rfl
  obtain ⟨p, hp, htree, -⟩ := Program.toNode_of_check hcheck
  exact ⟨hcheck, p, hp, htree⟩

end MiniGo
