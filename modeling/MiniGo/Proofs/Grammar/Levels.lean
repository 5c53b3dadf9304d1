import MiniGo.Proofs.Grammar.Uniform.Rules

/-!
Rules on different levels. What a rule yields does not depend on the level that it runs on, on the levels that
were reached before or on the limit, except that the limit may be exceeded. So of two runs, the second some
levels further down and with as much room as the first, the second does what the first does unless that fails
by the limit.
-/
namespace MiniGo.Grammar

/-- What sets two runs apart. The first is on a level, the second `rise` levels further down, and each has
reached some level before. -/
structure Drop where
  level : Nat
  rise : Nat
  floor : Nat
  floor' : Nat

structure Setting.Reaches (rise : Nat) (c c' : Setting) : Prop where
  file : c'.file = c.file
  table : c'.table = c.table
  limit : c.limit + rise ≤ c'.limit

/-- The runs are at the same tokens. Both have reached a common level, seen from theirs, or the floor. -/
structure Drop.Beside (d : Drop) (s s' : State) : Prop extends s.Matches s' where
  depth : s.depth = d.level
  depth' : s'.depth = d.level + d.rise
  peak : ∃ q, s.peak = max q d.floor ∧ s'.peak = max (q + d.rise) d.floor'

/-- The runs come to the same result, or the first has exceeded the limit. -/
inductive Drop.Agrees {α : Type} (d : Drop) :
    EStateM.Result Error State α → EStateM.Result Error State α → Prop where
  | ok {a : α} {t t' : State} (h : d.Beside t t') : d.Agrees (.ok a t) (.ok a t')
  | error {e : Error} {t t' : State} : d.Agrees (.error e t) (.error e t')
  | limit {e : Error} {t : State} {r : EStateM.Result Error State α} {k : Nat}
      (h : e.cause = .limitExceeded k) : d.Agrees (.error e t) r

def BelowAgrees (rise : Nat) (c c' : Setting) (below below' : Below) : Prop :=
  ∀ goal level floor floor' s s', (Drop.mk level rise floor floor').Beside s s' →
    (Drop.mk level rise floor floor').Agrees (below goal c s) (below' goal c' s')

section Runs

variable {α β : Type} {d : Drop} {c c' : Setting} {below below' : Below} {s s' : State}

theorem Drop.Beside.next (h : d.Beside s s') : d.Beside s.next s'.next := by
  unfold State.next
  rw [h.later]
  cases s.later with
  | nil => exact h
  | cons k ks =>
    exact ⟨⟨by rw [h.behind, h.current], rfl, rfl, h.structLiterals⟩, h.depth, h.depth', h.peak⟩

theorem Drop.Agrees.bind {x x' : Rule α} {f f' : α → Rule β} (hx : d.Agrees (x c s) (x' c' s'))
    (hf : ∀ a t t', d.Beside t t' → d.Agrees (f a c t) (f' a c' t')) :
    d.Agrees ((x >>= f) c s) ((x' >>= f') c' s') := by
  rw [bind_apply, bind_apply]
  revert hx
  generalize x c s = r, x' c' s' = r'
  intro hx
  cases hx with
  | ok h => exact hf _ _ _ h
  | error => exact .error
  | limit h => exact .limit h

theorem Drop.Agrees.finish {d' : Drop} {r r' : EStateM.Result Error State α} {g g' : α → State → β}
    {k k' : State → State} (h : d'.Agrees r r')
    (hok : ∀ a t t', d'.Beside t t' → g' a t' = g a t ∧ d.Beside (k t) (k' t')) :
    d.Agrees (Grammar.finish g k r) (Grammar.finish g' k' r') := by
  cases h with
  | @ok a t t' h =>
    obtain ⟨hvalue, hbeside⟩ := hok a t t' h
    rw [Grammar.finish, Grammar.finish, hvalue]
    exact .ok hbeside
  | error => exact .error
  | limit h => exact .limit h

theorem agrees_reach (hc : c.Reaches d.rise c') (h : d.Beside s s') (levels : Nat) :
    d.Agrees (reach levels c s) (reach levels c' s') := by
  rw [reach_apply, reach_apply]
  by_cases hlimit : c.limit < s.depth + levels
  · rw [if_pos hlimit]
    exact .limit rfl
  · have := hc.limit
    have hdepth := h.depth
    have hdepth' := h.depth'
    obtain ⟨q, hq, hq'⟩ := h.peak
    rw [if_neg hlimit, if_neg (by omega)]
    refine .ok ⟨⟨h.behind, h.current, h.later, h.structLiterals⟩, hdepth, hdepth',
      max q (d.level + levels), ?_, ?_⟩
    · dsimp only
      omega
    · dsimp only
      omega

theorem agrees_measured {x x' : Rule α} (h : d.Beside s s')
    (hx : ∀ s s', (Drop.mk d.level d.rise 0 0).Beside s s' →
      (Drop.mk d.level d.rise 0 0).Agrees (x c s) (x' c' s')) :
    d.Agrees (measured x c s) (measured x' c' s') := by
  obtain ⟨⟨hbehind, hcurrent, hlater, hflag⟩, hdepth, hdepth', q, hq, hq'⟩ := h
  have hstart : (Drop.mk d.level d.rise 0 0).Beside { s with peak := s.depth } { s' with peak := s'.depth } :=
    ⟨⟨hbehind, hcurrent, hlater, hflag⟩, hdepth, hdepth', d.level, by simp [hdepth], by simp [hdepth']⟩
  rw [measured_apply, measured_apply]
  refine (hx _ _ hstart).finish fun a t t' ⟨hmatches, hdepth, hdepth', r, hr, hr'⟩ => ?_
  dsimp only at hdepth hdepth' hr hr'
  refine ⟨?_, ⟨hmatches.behind, hmatches.current, hmatches.later, hmatches.structLiterals⟩, hdepth, hdepth',
    max r q, ?_, ?_⟩
  · rw [show t'.peak - t'.depth = t.peak - t.depth by omega]
  · dsimp only
    omega
  · dsimp only
    omega

theorem agrees_withStructLiterals {x x' : Rule α} (allowed : Bool) (h : d.Beside s s')
    (hx : ∀ s s', d.Beside s s' → d.Agrees (x c s) (x' c' s')) :
    d.Agrees (withStructLiterals allowed x c s) (withStructLiterals allowed x' c' s') := by
  have hstart : d.Beside { s with structLiterals := allowed } { s' with structLiterals := allowed } :=
    ⟨⟨h.behind, h.current, h.later, rfl⟩, h.depth, h.depth', h.peak⟩
  rw [withStructLiterals_apply, withStructLiterals_apply]
  refine (hx _ _ hstart).finish fun a t t' ht => ⟨rfl, ?_⟩
  exact ⟨⟨ht.behind, ht.current, ht.later, h.structLiterals⟩, ht.depth, ht.depth', ht.peak⟩

theorem agrees_deeper {x x' : Rule α} (h : d.Beside s s')
    (hx : ∀ s s', { d with level := d.level + 1 }.Beside s s' →
      { d with level := d.level + 1 }.Agrees (x c s) (x' c' s')) :
    d.Agrees (deeper x c s) (deeper x' c' s') := by
  have hdepth := h.depth
  have hdepth' := h.depth'
  have hstart : { d with level := d.level + 1 }.Beside { s with depth := s.depth + 1 }
      { s' with depth := s'.depth + 1 } :=
    ⟨⟨h.behind, h.current, h.later, h.structLiterals⟩, congrArg (· + 1) hdepth, by dsimp only; omega, h.peak⟩
  rw [deeper_apply, deeper_apply]
  refine (hx _ _ hstart).finish fun a t t' ⟨hmatches, hdepth, hdepth', hpeak⟩ => ⟨rfl, ?_⟩
  dsimp only at hdepth hdepth'
  refine ⟨⟨hmatches.behind, hmatches.current, hmatches.later, hmatches.structLiterals⟩, ?_, ?_, hpeak⟩
  · dsimp only
    omega
  · dsimp only
    omega

/-- A rule does the same in both runs if the rules one level down do. -/
theorem Uniform.agrees {x : Below → Rule α} (hx : Uniform x) (hc : c.Reaches d.rise c')
    (hb : BelowAgrees d.rise c c' below below') (h : d.Beside s s') :
    d.Agrees (x below c s) (x below' c' s') := by
  induction hx generalizing d s s' with
  | pure a => exact .ok h
  | failAt offset cause =>
    change d.Agrees (.error ⟨cause, offset, c.file⟩ s) (.error ⟨cause, offset, c'.file⟩ s')
    rw [hc.file]
    exact .error
  | bind _ _ ihx ihf => exact (ihx hc hb h).bind fun a t t' ht => ihf a hc hb ht
  | @look _ f hmatches _ ih =>
    have hrun := ih s hc hb h
    change d.Agrees (f s below c s) (f s' below' c' s')
    rwa [hmatches s s' h.toMatches]
  | @consult _ f hlimit _ ih =>
    have hrun := ih c hc hb h
    have hc' : c' = { c with limit := c'.limit } := by
      cases c'
      obtain ⟨rfl, rfl, -⟩ := hc
      rfl
    change d.Agrees (f c below c s) (f c' below' c' s')
    rwa [show f c' = f c from hc' ▸ hlimit c c'.limit]
  | advance =>
    change d.Agrees (.ok s.current s.next) (.ok s'.current s'.next)
    rw [h.current]
    exact .ok h.next
  | reach levels => exact agrees_reach hc h levels
  | measured _ ih => exact agrees_measured h fun s s' hs => ih hc hb hs
  | withStructLiterals allowed _ ih => exact agrees_withStructLiterals allowed h fun s s' hs => ih hc hb hs
  | goal goal => exact hb goal _ _ _ s s' h

theorem produce_agrees {rise n n' : Nat} (hc : c.Reaches rise c') (hn : n ≤ n') :
    BelowAgrees rise c c' (produce n) (produce n') := by
  induction n generalizing n' with
  | zero =>
    intro goal level floor floor' s s' h
    exact .limit (k := c.limit) rfl
  | succ n ih =>
    intro goal level floor floor' s s' h
    cases n' with
    | zero => exact absurd hn (Nat.not_succ_le_zero n)
    | succ n' =>
      have hbelow := ih (Nat.le_of_succ_le_succ hn)
      change Drop.Agrees _ (nested (goalBody (produce n) goal) c s)
        (nested (goalBody (produce n') goal) c' s')
      rw [nested_eq, nested_eq]
      refine (agrees_reach hc h 1).bind fun _ t t' ht => agrees_deeper ht fun u u' hu => ?_
      exact (goalBody_advancing goal).uniform.agrees hc hbelow hu

end Runs

end MiniGo.Grammar
