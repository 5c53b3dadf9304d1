import MiniGo.Program.Type

/-!
Compatible types are those that can still become the same. A type is refined by writing types in the
place of its wildcards and directions in the place of open ones; struct types are left as they are. Two
types are compatible exactly when one type refines both.
-/
namespace MiniGo

/-- An open direction may become any direction. -/
def Direction.Refines (d e : Direction) : Prop := e = .both ∨ d = e

theorem Direction.refines_refl (d : Direction) : d.Refines d := .inr rfl

theorem Direction.exists_refines_of_compatible {d e : Direction} (h : d.compatible e = true) :
    ∃ f : Direction, f.Refines d ∧ f.Refines e := by
  cases d with
  | both => exact ⟨e, .inl rfl, e.refines_refl⟩
  | send =>
    cases e with
    | receive => cases h
    | send => exact ⟨.send, .inr rfl, .inr rfl⟩
    | both => exact ⟨.send, .inr rfl, .inl rfl⟩
  | receive =>
    cases e with
    | send => cases h
    | receive => exact ⟨.receive, .inr rfl, .inr rfl⟩
    | both => exact ⟨.receive, .inr rfl, .inl rfl⟩

theorem Direction.compatible_of_refines {d e f : Direction} (hd : f.Refines d) (he : f.Refines e) :
    d.compatible e = true := by
  obtain rfl | rfl := hd
  · cases e <;> rfl
  · obtain rfl | rfl := he
    · cases f <;> rfl
    · cases f <;> rfl

namespace Ty

mutual

/-- `c.Refines a` if `c` is `a` with types for some of its wildcards and directions for some of its open
ones. Each occurrence is settled on its own, and none inside a struct type. -/
inductive Refines : Ty → Ty → Prop where
  | any (c : Ty) : Refines c .any
  | void : Refines .void .void
  | basic (b : BasicType) : Refines (.basic b) (.basic b)
  | tuple {cs as : List Ty} (h : RefinesAll cs as) : Refines (.tuple cs) (.tuple as)
  | function {p q r s : Ty} (hparams : Refines p q) (hresult : Refines r s) :
      Refines (.function p r) (.function q s)
  | chan {d e : Direction} {c a : Ty} (hdirection : d.Refines e) (h : Refines c a) :
      Refines (.chan d c) (.chan e a)
  | array {c a : Ty} (size : UInt64) (h : Refines c a) : Refines (.array c size) (.array a size)
  | slice {c a : Ty} (h : Refines c a) : Refines (.slice c) (.slice a)
  | custom (name : String) : Refines (.custom name) (.custom name)
  | struct (fields : List Ident) : Refines (.struct fields) (.struct fields)

inductive RefinesAll : List Ty → List Ty → Prop where
  | nil : RefinesAll [] []
  | cons {c a : Ty} {cs as : List Ty} (h : Refines c a) (hs : RefinesAll cs as) :
      RefinesAll (c :: cs) (a :: as)

end

mutual

/-- No wildcard and no open direction is left outside struct types. -/
def settled : Ty → Bool
  | .any => false
  | .void => true
  | .basic _ => true
  | .tuple elements => settledAll elements
  | .function params result => params.settled && result.settled
  | .chan direction element => direction != .both && element.settled
  | .array element _ => element.settled
  | .slice element => element.settled
  | .custom _ => true
  | .struct _ => true

def settledAll : List Ty → Bool
  | [] => true
  | t :: ts => t.settled && settledAll ts

end

theorem eq_of_same :
    (∀ a b : Ty, same a b = true → a = b) ∧ (∀ fs gs : List Ident, sameFields fs gs = true → fs = gs) ∧
      ∀ as bs : List Ty, sameAll as bs = true → as = bs := by
  -- The cases follow the rows of the comparison: types, then lists of types, then fields.
  apply Ty.same.mutual_induct
  case case1 | case2 => exact fun _ => rfl
  case case3 | case9 => simp [same]
  case case4 =>
    intro as bs ih h
    rw [ih (by simpa [same] using h)]
  case case5 =>
    intro p r q s ihparams ihresult h
    simp only [same, Bool.and_eq_true] at h
    rw [ihparams h.1, ihresult h.2]
  case case6 =>
    intro d a e b ih h
    simp only [same, Bool.and_eq_true, beq_iff_eq] at h
    rw [h.1, ih h.2]
  case case7 =>
    intro a m b n ih h
    simp only [same, Bool.and_eq_true, beq_iff_eq] at h
    rw [h.1, ih h.2]
  case case8 =>
    intro a b ih h
    rw [ih (by simpa [same] using h)]
  case case10 =>
    intro fs gs ih h
    rw [ih (by simpa [same] using h)]
  case case11 =>
    intros
    simp_all [same]
  case case12 => exact fun _ => rfl
  case case13 =>
    intro a as b bs ih ihs h
    simp only [sameAll, Bool.and_eq_true] at h
    rw [ih h.1, ihs h.2]
  case case14 =>
    intros
    simp_all [sameAll]
  case case15 => exact fun _ => rfl
  case case16 =>
    intro m fs n gs ih h
    simp only [sameFields, Bool.and_eq_true, beq_iff_eq] at h
    rw [h.1, ih h.2]
  case case17 =>
    intro m a fs n b gs ih ihs h
    simp only [sameFields, Bool.and_eq_true, beq_iff_eq] at h
    rw [h.1.1, ih h.1.2, ihs h.2]
  case case18 =>
    intros
    simp_all [sameFields]

mutual

@[simp] theorem same_self : ∀ a : Ty, a.same a = true
  | .any => rfl
  | .void => rfl
  | .basic b => by simp [same]
  | .tuple elements => by simp [same, sameAll_self elements]
  | .function params result => by simp [same, same_self params, same_self result]
  | .chan direction element => by simp [same, same_self element]
  | .array element size => by simp [same, same_self element]
  | .slice element => by simp [same, same_self element]
  | .custom name => by simp [same]
  | .struct fields => by simp [same, sameFields_self fields]

@[simp] theorem sameAll_self : ∀ as : List Ty, sameAll as as = true
  | [] => rfl
  | a :: as => by simp [sameAll, same_self a, sameAll_self as]

@[simp] theorem sameFields_self : ∀ fs : List Ident, sameFields fs fs = true
  | [] => rfl
  | ⟨_, none⟩ :: fs => by simp [sameFields, sameFields_self fs]
  | ⟨_, some t⟩ :: fs => by simp [sameFields, same_self t, sameFields_self fs]

end

theorem compatible_struct_iff {fs gs : List Ident} :
    (Ty.struct fs).compatible (.struct gs) = true ↔ fs = gs := by
  simp only [compatible]
  constructor
  · exact eq_of_same.2.1 fs gs
  · rintro rfl
    exact sameFields_self fs

mutual

theorem Refines.refl : ∀ a : Ty, a.Refines a
  | .any => .any _
  | .void => .void
  | .basic b => .basic b
  | .tuple elements => .tuple (RefinesAll.refl elements)
  | .function params result => .function (Refines.refl params) (Refines.refl result)
  | .chan direction element => .chan direction.refines_refl (Refines.refl element)
  | .array element size => .array size (Refines.refl element)
  | .slice element => .slice (Refines.refl element)
  | .custom name => .custom name
  | .struct fields => .struct fields

theorem RefinesAll.refl : ∀ as : List Ty, RefinesAll as as
  | [] => .nil
  | a :: as => .cons (Refines.refl a) (RefinesAll.refl as)

end

@[simp] theorem compatible_any (a : Ty) : a.compatible .any = true := by
  cases a <;> rfl

/-- A common refinement is put together along the comparison. -/
theorem exists_refines_of_compatible :
    (∀ a b : Ty, a.compatible b = true → ∃ c : Ty, c.Refines a ∧ c.Refines b) ∧
      ∀ as bs : List Ty, compatibleAll as bs = true → ∃ cs, RefinesAll cs as ∧ RefinesAll cs bs := by
  -- A wildcard on one side leaves the choice to the other; rows that do not match are incompatible.
  apply Ty.compatible.mutual_induct
  case case1 => exact fun b _ => ⟨b, .any b, .refl b⟩
  case case2 => exact fun a _ _ => ⟨a, .refl a, .any a⟩
  case case3 => exact fun _ => ⟨.void, .void, .void⟩
  case case4 =>
    intro a b h
    obtain rfl : a = b := by simpa [compatible] using h
    exact ⟨.basic a, .basic a, .basic a⟩
  case case5 =>
    intro as bs ih h
    simp only [compatible] at h
    obtain ⟨cs, has, hbs⟩ := ih h
    exact ⟨.tuple cs, .tuple has, .tuple hbs⟩
  case case6 =>
    intro p r q s ihparams ihresult h
    simp only [compatible, Bool.and_eq_true] at h
    obtain ⟨t, hp, hq⟩ := ihparams h.1
    obtain ⟨u, hr, hs⟩ := ihresult h.2
    exact ⟨.function t u, .function hp hr, .function hq hs⟩
  case case7 =>
    intro d a e b ih h
    simp only [compatible, Bool.and_eq_true] at h
    obtain ⟨f, hd, he⟩ := Direction.exists_refines_of_compatible h.1
    obtain ⟨c, ha, hb⟩ := ih h.2
    exact ⟨.chan f c, .chan hd ha, .chan he hb⟩
  case case8 =>
    intro a m b n ih h
    simp only [compatible, Bool.and_eq_true, beq_iff_eq] at h
    obtain ⟨rfl, h⟩ := h
    obtain ⟨c, ha, hb⟩ := ih h
    exact ⟨.array c m, .array m ha, .array m hb⟩
  case case9 =>
    intro a b ih h
    simp only [compatible] at h
    obtain ⟨c, ha, hb⟩ := ih h
    exact ⟨.slice c, .slice ha, .slice hb⟩
  case case10 =>
    intro a b h
    obtain rfl : a = b := by simpa [compatible] using h
    exact ⟨.custom a, .custom a, .custom a⟩
  case case11 =>
    intro fs gs h
    obtain rfl := compatible_struct_iff.1 h
    exact ⟨.struct fs, .struct fs, .struct fs⟩
  case case12 =>
    intros
    simp_all [compatible]
  case case13 => exact fun _ => ⟨[], .nil, .nil⟩
  case case14 =>
    intro a as b bs ih ihs h
    simp only [compatibleAll, Bool.and_eq_true] at h
    obtain ⟨c, ha, hb⟩ := ih h.1
    obtain ⟨cs, has, hbs⟩ := ihs h.2
    exact ⟨c :: cs, .cons ha has, .cons hb hbs⟩
  case case15 =>
    intros
    simp_all [compatibleAll]

mutual

theorem compatible_of_refines {a b c : Ty} (ha : c.Refines a) (hb : c.Refines b) :
    a.compatible b = true := by
  cases ha with
  | any => simp [compatible]
  | void | basic | custom =>
    cases hb <;> simp [compatible]
  | struct fields =>
    cases hb with
    | any => exact compatible_any _
    | struct => exact compatible_struct_iff.2 rfl
  | tuple has =>
    cases hb with
    | any => exact compatible_any _
    | tuple hbs =>
      simp only [compatible]
      exact compatibleAll_of_refines has hbs
  | function hparams hresult =>
    cases hb with
    | any => exact compatible_any _
    | function hparams' hresult' =>
      simp only [compatible, Bool.and_eq_true]
      exact ⟨compatible_of_refines hparams hparams', compatible_of_refines hresult hresult'⟩
  | chan hdirection h =>
    cases hb with
    | any => exact compatible_any _
    | chan hdirection' h' =>
      simp only [compatible, Bool.and_eq_true]
      exact ⟨Direction.compatible_of_refines hdirection hdirection', compatible_of_refines h h'⟩
  | array size h =>
    cases hb with
    | any => exact compatible_any _
    | array _ h' =>
      simp only [compatible, beq_self_eq_true, Bool.true_and]
      exact compatible_of_refines h h'
  | slice h =>
    cases hb with
    | any => exact compatible_any _
    | slice h' =>
      simp only [compatible]
      exact compatible_of_refines h h'

theorem compatibleAll_of_refines {as bs cs : List Ty} (has : RefinesAll cs as)
    (hbs : RefinesAll cs bs) : compatibleAll as bs = true := by
  cases has with
  | nil =>
    cases hbs
    rfl
  | cons h hs =>
    cases hbs with
    | cons h' hs' =>
      simp only [compatibleAll, Bool.and_eq_true]
      exact ⟨compatible_of_refines h h', compatibleAll_of_refines hs hs'⟩

end

mutual

theorem Refines.eq_of_settled {c a : Ty} (h : c.Refines a) (ha : a.settled = true) : c = a := by
  cases h with
  | any => cases ha
  | void | basic | custom | struct => rfl
  | tuple hs => rw [hs.eq_of_settled ha]
  | function hparams hresult =>
    simp only [settled, Bool.and_eq_true] at ha
    rw [hparams.eq_of_settled ha.1, hresult.eq_of_settled ha.2]
  | chan hdirection h =>
    simp only [settled, Bool.and_eq_true, bne_iff_ne, ne_eq] at ha
    rw [hdirection.resolve_left ha.1, h.eq_of_settled ha.2]
  | array _ h => rw [h.eq_of_settled ha]
  | slice h => rw [h.eq_of_settled ha]

theorem RefinesAll.eq_of_settled {cs as : List Ty} (h : RefinesAll cs as)
    (has : settledAll as = true) : cs = as := by
  cases h with
  | nil => rfl
  | cons h hs =>
    simp only [settledAll, Bool.and_eq_true] at has
    rw [h.eq_of_settled has.1, hs.eq_of_settled has.2]

end

theorem compatible_iff_refines {a b : Ty} :
    a.compatible b = true ↔ ∃ c : Ty, c.Refines a ∧ c.Refines b := by
  constructor
  · exact exists_refines_of_compatible.1 a b
  · rintro ⟨c, ha, hb⟩
    exact compatible_of_refines ha hb

theorem refines_of_compatible_settled {a b : Ty} (h : a.compatible b = true) (hb : b.settled = true) :
    b.Refines a := by
  obtain ⟨c, hca, hcb⟩ := compatible_iff_refines.1 h
  obtain rfl := hcb.eq_of_settled hb
  exact hca

/-- Two types are compatible exactly when some type refines both. So each type is compatible with
itself, the order of the two does not matter, struct types are compatible only if their fields are
equal, and what is compatible with a settled type in the middle is compatible with each other. -/
theorem compatible_iff_common_refinement (a b : Ty) :
    (a.compatible b = true ↔ ∃ c : Ty, c.Refines a ∧ c.Refines b) ∧
      a.compatible a = true ∧ a.compatible b = b.compatible a ∧
      (∀ fs gs, (Ty.struct fs).compatible (.struct gs) = true ↔ fs = gs) ∧
      ∀ c : Ty, b.settled = true → a.compatible b = true → b.compatible c = true →
        a.compatible c = true := by
  have hsymm (s t : Ty) (h : s.compatible t = true) : t.compatible s = true := by
    obtain ⟨c, hs, ht⟩ := compatible_iff_refines.1 h
    exact compatible_of_refines ht hs
  refine ⟨compatible_iff_refines, compatible_of_refines (.refl a) (.refl a), ?_,
    fun fs gs => compatible_struct_iff, ?_⟩
  · rw [Bool.eq_iff_iff]
    exact ⟨hsymm a b, hsymm b a⟩
  · intro c hb hab hbc
    have ha := refines_of_compatible_settled hab hb
    have hc := refines_of_compatible_settled (hsymm b c hbc) hb
    exact compatible_of_refines ha hc

theorem compatible_through_sendChannel :
    (Ty.chan .send (.struct [⟨"x", some .any⟩])).settled = true ∧
      (Ty.chan .both .any).compatible (.chan .send (.struct [⟨"x", some .any⟩])) = true ∧
      (Ty.chan .send (.struct [⟨"x", some .any⟩])).compatible
        (.chan .both (.struct [⟨"x", some .any⟩])) = true ∧
      (Ty.chan .both .any).compatible (.chan .both (.struct [⟨"x", some .any⟩])) = true :=
  ⟨rfl, rfl, rfl, (compatible_iff_common_refinement (.chan .both .any)
    (.chan .send (.struct [⟨"x", some .any⟩]))).2.2.2.2 (.chan .both (.struct [⟨"x", some .any⟩]))
    rfl rfl rfl⟩

-- Through a wildcard in the middle nothing follows.
example : (Ty.basic .number).compatible .any = true ∧ Ty.any.compatible (.basic .bool) = true ∧
    (Ty.basic .number).compatible (.basic .bool) = false := by
  decide

end Ty

end MiniGo
