import MiniGo.FrontEnd
import MiniGo.Proofs.Tree.Acceptance

/-!
Every checked tree has a program. A node that fits its place can be put into the typed place that its
parent offers there, so after the check the conversion finds nothing it cannot place.
-/
namespace MiniGo

/-- The conversion accepts a node in a place. Targets, cases, field values and struct elements are
converted together with the list they stand in. -/
def Converts : Place → Node → Prop
  | .root, n => ∃ p, Program.ofNode? n = some p
  | .item, n => ∃ i, Item.ofNode? n = some i
  | .statement, n => ∃ s, Stmt.ofNode? n = some s
  | .simple, n => ∃ s, Stmt.ofNode? n = some s
  | .post, n => ∃ s, Stmt.ofNode? n = some s
  | .expression, n => ∃ e, Expr.ofNode? n = some e
  | .type, n => ∃ t, Ty.ofNode? n = some t
  | .name, n => ∃ i, Ident.ofNode? n = some i
  | .typedName, n => ∃ i, Ident.ofNode? n = some i
  | .elseIf, n => ∃ i, If.ofNode? n = some i
  | .guard, n => ∃ g, Guard.ofNode? n = some g
  | .received, n => (∃ g, Guard.ofNode? n = some g) ∧ ∃ e, Expr.ofNode? n = some e
  | .target, n => ∀ ns, (∃ ts, Target.ofNodes? ns = some ts) → ∃ ts, Target.ofNodes? (n :: ns) = some ts
  | .arm, n => ∀ ns, (∃ as, Arm.ofNodes? ns = some as) → ∃ as, Arm.ofNodes? (n :: ns) = some as
  | .fieldValue, n =>
    ∀ ns, (∃ fs, FieldValue.ofNodes? ns = some fs) → ∃ fs, FieldValue.ofNodes? (n :: ns) = some fs
  | .structElement, n =>
    ∀ ns, (∃ is, Ident.ofElements? ns = some is) → ∃ is, Ident.ofElements? (n :: ns) = some is

section Parts

variable {ns : List Node} {o : Option Node}

theorem exists_of_forall_cons {α : Type} {f : List Node → Option (List α)} (hnil : f [] = some [])
    (h : ∀ n ∈ ns, ∀ rest, (∃ xs, f rest = some xs) → ∃ xs, f (n :: rest) = some xs) :
    ∃ xs, f ns = some xs := by
  induction ns with
  | nil => exact ⟨[], hnil⟩
  | cons n ns ih =>
    apply h n (by simp)
    exact ih fun m hm => h m (by simp [hm])

theorem exists_of_forall_mem {α : Type} {g : Node → Option α} {f : List Node → Option (List α)}
    (hnil : f [] = some []) (hcons : ∀ n ns, f (n :: ns) = do return (← g n) :: (← f ns))
    (h : ∀ n ∈ ns, ∃ x, g n = some x) : ∃ xs, f ns = some xs := by
  apply exists_of_forall_cons hnil
  rintro n hn rest ⟨xs, hxs⟩
  obtain ⟨x, hx⟩ := h n hn
  simp [hcons, hx, hxs]

theorem exists_of_forall_some {α : Type} {g : Node → Option α} {f : Option Node → Option (Option α)}
    (hnone : f none = some none) (hsome : ∀ n, f (some n) = (g n).map some)
    (h : ∀ n ∈ o, ∃ x, g n = some x) : ∃ x, f o = some x := by
  cases o with
  | none => exact ⟨none, hnone⟩
  | some n =>
    obtain ⟨x, hx⟩ := h n rfl
    simp [hsome, hx]

theorem Ty.exists_ofNodes : (∀ n ∈ ns, ∃ t, Ty.ofNode? n = some t) → ∃ ts, Ty.ofNodes? ns = some ts :=
  exists_of_forall_mem (by simp [Ty.ofNodes?]) (by simp [Ty.ofNodes?])

theorem Expr.exists_ofNodes :
    (∀ n ∈ ns, ∃ e, Expr.ofNode? n = some e) → ∃ es, Expr.ofNodes? ns = some es :=
  exists_of_forall_mem (by simp [Expr.ofNodes?]) (by simp [Expr.ofNodes?])

theorem Stmt.exists_ofNodes :
    (∀ n ∈ ns, ∃ s, Stmt.ofNode? n = some s) → ∃ ss, Stmt.ofNodes? ns = some ss :=
  exists_of_forall_mem (by simp [Stmt.ofNodes?]) (by simp [Stmt.ofNodes?])

theorem Ident.exists_ofNodes :
    (∀ n ∈ ns, ∃ i, Ident.ofNode? n = some i) → ∃ is, Ident.ofNodes? ns = some is :=
  exists_of_forall_mem (by simp [Ident.ofNodes?]) (by simp [Ident.ofNodes?])

theorem Ty.exists_ofOption : (∀ n ∈ o, ∃ t, Ty.ofNode? n = some t) → ∃ t, Ty.ofOption? o = some t :=
  exists_of_forall_some (by simp [Ty.ofOption?]) (by simp [Ty.ofOption?])

theorem Expr.exists_ofOption :
    (∀ n ∈ o, ∃ e, Expr.ofNode? n = some e) → ∃ e, Expr.ofOption? o = some e :=
  exists_of_forall_some (by simp [Expr.ofOption?]) (by simp [Expr.ofOption?])

theorem Stmt.exists_ofOption :
    (∀ n ∈ o, ∃ s, Stmt.ofNode? n = some s) → ∃ s, Stmt.ofOption? o = some s :=
  exists_of_forall_some (by simp [Stmt.ofOption?]) (by simp [Stmt.ofOption?])

theorem Ident.exists_ofOption :
    (∀ n ∈ o, ∃ i, Ident.ofNode? n = some i) → ∃ i, Ident.ofOption? o = some i :=
  exists_of_forall_some (by simp [Ident.ofOption?]) (by simp [Ident.ofOption?])

end Parts

theorem Else.exists_ofOption {alt : Option Alternative}
    (hblock : ∀ body, alt = some (.block body) → ∀ n ∈ body, ∃ s, Stmt.ofNode? n = some s)
    (hchained : ∀ n, alt = some (.chained n) → ∃ i, If.ofNode? n = some i) :
    ∃ e, Else.ofOption? alt = some e := by
  match alt with
  | none => simp [Else.ofOption?]
  | some (.block body) =>
    obtain ⟨ss, hss⟩ := Stmt.exists_ofNodes (hblock body rfl)
    simp [Else.ofOption?, Else.ofAlternative?, hss]
  | some (.chained n) =>
    obtain ⟨i, hi⟩ := hchained n rfl
    simp [Else.ofOption?, Else.ofAlternative?, hi]

theorem Stmt.exists_ofInit {o : Option Node}
    (h : ∀ n ∈ o, n ≠ .empty → ∃ s, Stmt.ofNode? n = some s) : ∃ s, Stmt.ofOption? o = some s := by
  apply Stmt.exists_ofOption
  intro n hn
  by_cases hempty : n = .empty
  · exact ⟨.empty, by simp [hempty, Stmt.ofNode?]⟩
  · exact h n hn hempty

/-- A node that fits its place converts there. The induction follows the rules of well-formedness, so
each case is one row of the conversion. -/
theorem Fits.converts {p : Place} {n : Node} (h : Fits p n) : Converts p n := by
  induction h with
  | program _ ih =>
    obtain ⟨is, his⟩ := exists_of_forall_mem (f := List.mapM Item.ofNode?) (by simp) (by simp) ih
    simp [Converts, Program.ofNode?, his]
  | itemDeclaration _ ih =>
    obtain ⟨s, hs⟩ := ih
    simp only [Stmt.ofNode?, bind, Option.bind_eq_some_iff] at hs
    obtain ⟨is, his, es, hes, -⟩ := hs
    simp [Converts, Item.ofNode?, his, hes]
  | itemFunction _ ih =>
    obtain ⟨s, hs⟩ := ih
    simp only [Stmt.ofNode?, bind, Option.bind_eq_some_iff] at hs
    obtain ⟨i, hi, is, his, t, ht, ss, hss, -⟩ := hs
    simp [Converts, Item.ofNode?, hi, his, ht, hss]
  | itemType h ih =>
    cases h with
    | typeDeclaration _ _ =>
      obtain ⟨s, hs⟩ := ih
      simp only [Stmt.ofNode?, Option.map_eq_some_iff] at hs
      obtain ⟨t, ht, -⟩ := hs
      simp [Converts, Item.ofNode?, ht]
  | untyped _ => simp [Converts, Ident.ofNode?, Ty.ofOption?]
  | typed _ _ ih =>
    obtain ⟨t, ht⟩ := ih
    simp [Converts, Ident.ofNode?, Ty.ofOption?, ht]
  | typedName _ ih => exact ih
  | anyType | voidType | basicType | customType _ => simp [Converts, Ty.ofNode?]
  | tupleType _ ih =>
    obtain ⟨ts, hts⟩ := Ty.exists_ofNodes ih
    simp [Converts, Ty.ofNode?, hts]
  | functionType _ _ ihparams ihresult =>
    obtain ⟨t, ht⟩ := ihparams
    obtain ⟨u, hu⟩ := ihresult
    refine ⟨.function t u, ?_⟩
    rw [Ty.ofNode?, ht, hu]
    rfl
  | chanType _ ih | arrayType _ ih | sliceType _ ih =>
    obtain ⟨t, ht⟩ := ih
    simp [Converts, Ty.ofNode?, ht]
  | structType _ ih =>
    obtain ⟨is, his⟩ := exists_of_forall_cons (by simp [Ident.ofElements?]) ih
    simp [Converts, Ty.ofNode?, his]
  | structElement _ ih =>
    rintro ns ⟨is, his⟩
    obtain ⟨i, hi⟩ := ih
    simp [Ident.ofElements?, hi, his]
  | identifier _ ih =>
    obtain ⟨i, hi⟩ := ih
    simp only [Ident.ofNode?, Option.map_eq_some_iff] at hi
    obtain ⟨t, ht, -⟩ := hi
    simp [Converts, Expr.ofNode?, ht]
  | literal => simp [Converts, Expr.ofNode?, Ty.ofNode?]
  | application _ _ ihoperator ihoperands =>
    obtain ⟨e, he⟩ := ihoperator
    obtain ⟨es, hes⟩ := Expr.exists_ofNodes ihoperands
    simp [Converts, Expr.ofNode?, he, hes]
  | unary _ _ ih =>
    obtain ⟨e, he⟩ := ih
    simp [Converts, Expr.ofNode?, he]
  | binary _ _ _ ihleft ihright | index _ _ ihleft ihright =>
    obtain ⟨l, hl⟩ := ihleft
    obtain ⟨r, hr⟩ := ihright
    simp [Converts, Expr.ofNode?, hl, hr]
  | function _ _ _ _ ihname ihformals ihresult ihbody =>
    obtain ⟨i, hi⟩ := Ident.exists_ofOption ihname
    obtain ⟨is, his⟩ := Ident.exists_ofNodes ihformals
    obtain ⟨t, ht⟩ := Ty.exists_ofOption ihresult
    obtain ⟨ss, hss⟩ := Stmt.exists_ofNodes ihbody
    simp [Converts, Expr.ofNode?, hi, his, ht, hss]
  | structLiteral _ _ ihtype ihfields =>
    obtain ⟨t, ht⟩ := ihtype
    obtain ⟨fs, hfs⟩ := exists_of_forall_cons (by simp [FieldValue.ofNodes?]) ihfields
    simp [Converts, Expr.ofNode?, ht, hfs]
  | fieldValue _ _ ihfield ihexpr =>
    rintro ns ⟨fs, hfs⟩
    obtain ⟨i, hi⟩ := ihfield
    obtain ⟨e, he⟩ := ihexpr
    simp [FieldValue.ofNodes?, hi, he, hfs]
  | member _ _ ihaccessed ihfield =>
    obtain ⟨e, he⟩ := ihaccessed
    obtain ⟨i, hi⟩ := ihfield
    simp [Converts, Expr.ofNode?, he, hi]
  | receive _ ih =>
    obtain ⟨e, he⟩ := ih
    simp [Converts, Expr.ofNode?, he]
  | declaration _ _ _ ihids ihvals =>
    obtain ⟨is, his⟩ := Ident.exists_ofNodes ihids
    obtain ⟨es, hes⟩ := Expr.exists_ofNodes ihvals
    simp [Converts, Stmt.ofNode?, his, hes]
  | expressionStatement _ ih =>
    obtain ⟨e, he⟩ := ih
    simp [Converts, Stmt.ofNode?, he]
  | returnStatement _ ih =>
    obtain ⟨es, hes⟩ := Expr.exists_ofNodes ih
    simp [Converts, Stmt.ofNode?, hes]
  | assignment _ _ _ ihtargets ihvals =>
    obtain ⟨ts, hts⟩ := exists_of_forall_cons (by simp [Target.ofNodes?]) ihtargets
    obtain ⟨es, hes⟩ := Expr.exists_ofNodes ihvals
    simp [Converts, Stmt.ofNode?, hts, hes]
  | targetName _ ih =>
    rintro ns ⟨ts, hts⟩
    obtain ⟨i, hi⟩ := ih
    simp only [Ident.ofNode?, Option.map_eq_some_iff] at hi
    obtain ⟨t, ht, -⟩ := hi
    simp [Target.ofNodes?, ht, hts]
  | targetIndex _ ih =>
    rintro ns ⟨ts, hts⟩
    obtain ⟨e, he⟩ := ih
    simp only [Expr.ofNode?, bind, Option.bind_eq_some_iff] at he
    obtain ⟨a, ha, i, hi, -⟩ := he
    simp [Target.ofNodes?, ha, hi, hts]
  | ifStatement _ ih =>
    obtain ⟨i, hi⟩ := ih
    simp only [If.ofNode?, bind, Option.bind_eq_some_iff] at hi
    obtain ⟨s, hs, e, he, ss, hss, a, ha, -⟩ := hi
    simp [Converts, Stmt.ofNode?, hs, he, hss, ha]
  | elseIf _ _ _ _ _ ihshort ihcond ihcons ihblock ihchained =>
    obtain ⟨s, hs⟩ := Stmt.exists_ofOption ihshort
    obtain ⟨e, he⟩ := ihcond
    obtain ⟨ss, hss⟩ := Stmt.exists_ofNodes ihcons
    obtain ⟨a, ha⟩ := Else.exists_ofOption ihblock ihchained
    simp [Converts, If.ofNode?, hs, he, hss, ha]
  | forStatement _ _ _ _ ihinit ihcond ihpost ihbody =>
    obtain ⟨i, hi⟩ := Stmt.exists_ofInit ihinit
    obtain ⟨e, he⟩ := Expr.exists_ofOption ihcond
    obtain ⟨s, hs⟩ := Stmt.exists_ofOption ihpost
    obtain ⟨ss, hss⟩ := Stmt.exists_ofNodes ihbody
    simp [Converts, Stmt.ofNode?, hi, he, hs, hss]
  | goStatement _ ih =>
    obtain ⟨e, he⟩ := ih
    simp only [Expr.ofNode?, bind, Option.bind_eq_some_iff] at he
    obtain ⟨f, hf, es, hes, -⟩ := he
    simp [Converts, Stmt.ofNode?, hf, hes]
  | selectStatement _ _ ih =>
    obtain ⟨as, has⟩ := exists_of_forall_cons (by simp [Arm.ofNodes?]) ih
    simp [Converts, Stmt.ofNode?, has]
  | send _ _ ihchan ihval =>
    obtain ⟨c, hc⟩ := ihchan
    obtain ⟨v, hv⟩ := ihval
    simp [Converts, Stmt.ofNode?, hc, hv]
  | empty => simp [Converts, Stmt.ofNode?]
  | namedFunction _ ih =>
    obtain ⟨e, he⟩ := ih
    simp only [Expr.ofNode?, bind, Option.bind_eq_some_iff] at he
    obtain ⟨i, hi, is, his, t, ht, ss, hss, -⟩ := he
    simp [Converts, Stmt.ofNode?, hi, his, ht, hss]
  | typeDeclaration _ _ ih =>
    obtain ⟨t, ht⟩ := ih
    simp [Converts, Stmt.ofNode?, ht]
  | simpleDeclaration _ ih | simplePost _ ih => exact ih
  | postExpression _ ih | postAssignment _ ih | postSend _ ih => exact ih
  | selectCase _ _ ihguard ihbody =>
    rintro ns ⟨as, has⟩
    obtain ⟨g, hg⟩ := ihguard
    obtain ⟨ss, hss⟩ := Stmt.exists_ofNodes ihbody
    simp [Arm.ofNodes?, hg, hss, has]
  | defaultCase _ ih =>
    rintro ns ⟨as, has⟩
    obtain ⟨ss, hss⟩ := Stmt.exists_ofNodes ih
    simp [Arm.ofNodes?, hss, has]
  | guardSend _ _ ihchan ihval =>
    obtain ⟨c, hc⟩ := ihchan
    obtain ⟨v, hv⟩ := ihval
    simp [Converts, Guard.ofNode?, hc, hv]
  | guardReceive _ ih => exact ih.1
  | guardDeclaration _ _ _ ihids ihval =>
    obtain ⟨is, his⟩ := Ident.exists_ofNodes ihids
    obtain ⟨-, e, he⟩ := ihval
    simp [Converts, Guard.ofNode?, Expr.ofNodes?, his, he]
  | guardAssignment _ _ _ ihtargets ihval =>
    obtain ⟨ts, hts⟩ := exists_of_forall_cons (by simp [Target.ofNodes?]) ihtargets
    obtain ⟨-, e, he⟩ := ihval
    simp [Converts, Guard.ofNode?, Expr.ofNodes?, hts, he]
  | received _ ih =>
    obtain ⟨e, he⟩ := ih
    simp [Converts, Guard.ofNode?, Expr.ofNode?, he]

/-- Only the check can turn a tree down: a tree that passes it under any limit has a program, and the
program of a tree is that one or the error of the check. -/
theorem Program.ofTree_of_check (tree : Node) (o : Options) :
    (∀ limit, tree.check limit = .ok () → ∃ p, Program.ofNode? tree = some p) ∧
      match tree.check o.maxTreeDepth with
      | .ok () => ∃ p, Program.ofNode? tree = some p ∧ Program.ofTree tree o = .ok p
      | .error e => Program.ofTree tree o = .error e := by
  have htotal (limit : Nat) (h : tree.check limit = .ok ()) : ∃ p, Program.ofNode? tree = some p :=
    (Node.wellFormed_of_check h).converts
  refine ⟨htotal, ?_⟩
  unfold Program.ofTree
  cases h : tree.check o.maxTreeDepth with
  | error e => rfl
  | ok u =>
    obtain ⟨p, hp⟩ := htotal _ h
    refine ⟨p, hp, ?_⟩
    rw [hp]
    rfl

end MiniGo
