import MiniGo.Proofs.Grammar.Parsed
import MiniGo.Proofs.Grammar.Source

/-!
How rules depend on the limit. A rule settles on a state if there is one result that all limits give
within which its levels lie, while all smaller ones fail by it. The levels are paid for by tokens: a
budget bounds the level reached together with the tokens that are left, so every token that is passed
pays for one more level.
-/
namespace MiniGo.Grammar

/-- What is fixed while limits vary. -/
structure Terms where
  file : String
  spelled : Prop
  budget : Nat

/-- How many levels below the current one were reached. -/
def State.reached (s : State) : Nat := s.peak - s.depth

structure State.Leads (s t : State) : Prop where
  depth : t.depth = s.depth
  peak : s.peak ≤ t.peak
  later : t.later.length ≤ s.later.length

structure State.Consumes (s t : State) : Prop extends s.Leads t where
  lt : t.later.length < s.later.length

structure State.Sound (c : Terms) (s : State) : Prop where
  ended : s.Ended
  spelled : c.spelled → s.Spelled
  depth_le : s.depth ≤ s.peak
  paid : s.peak + s.later.length ≤ c.budget

/-- The state is on a level, and the tokens that were passed have paid for `k` more. -/
structure State.Affords (c : Terms) (depth k : Nat) (s : State) : Prop where
  depth_eq : s.depth = depth
  paid : depth + k + s.later.length ≤ c.budget

section States

variable {c : Terms} {s t u : State} {depth k : Nat}

theorem State.Leads.refl (s : State) : s.Leads s := ⟨rfl, Nat.le_refl _, Nat.le_refl _⟩

theorem State.Leads.trans (h : s.Leads t) (h' : t.Leads u) : s.Leads u :=
  ⟨h'.depth.trans h.depth, Nat.le_trans h.peak h'.peak, Nat.le_trans h'.later h.later⟩

theorem State.Consumes.trans (h : s.Consumes t) (h' : t.Leads u) : s.Consumes u :=
  ⟨h.toLeads.trans h', Nat.lt_of_le_of_lt h'.later h.lt⟩

theorem State.Leads.reached_le (h : s.Leads t) : s.reached ≤ t.reached := by
  have := h.depth
  have := h.peak
  unfold State.reached
  omega

theorem State.Affords.leads (hs : s.Affords c depth k) (h : s.Leads t) : t.Affords c depth k := by
  have := hs.paid
  have := h.later
  exact ⟨h.depth.trans hs.depth_eq, by omega⟩

theorem State.Affords.consumes (hs : s.Affords c depth k) (h : s.Consumes t) :
    t.Affords c depth (k + 1) := by
  have := hs.paid
  have := h.lt
  exact ⟨h.depth.trans hs.depth_eq, by omega⟩

theorem State.Affords.mono {k' : Nat} (hs : s.Affords c depth k) (h : k' ≤ k) :
    s.Affords c depth k' := by
  have := hs.paid
  exact ⟨hs.depth_eq, by omega⟩

theorem State.Ended.next (hs : s.Ended) : s.next.Ended := by
  unfold State.next
  cases hl : s.later with
  | nil => exact hs
  | cons k ks =>
    unfold State.Ended State.tokens at hs ⊢
    rw [hl, List.getLast?_cons_cons] at hs
    exact hs

@[simp] theorem State.leads_next (s : State) : s.Leads s.next := by
  unfold State.next
  cases hl : s.later with
  | nil => exact .refl s
  | cons k ks => exact ⟨rfl, Nat.le_refl _, by simp [hl]⟩

theorem State.Ended.consumes_next (hs : s.Ended) (hk : s.current.kind ≠ .eof) :
    s.Consumes s.next :=
  ⟨s.leads_next, (hs.passes_next hk).length_lt (List.cons_ne_nil _ _)⟩

theorem State.Sound.next (hs : s.Sound c) : s.next.Sound c := by
  have hpeak : s.next.peak = s.peak := by unfold State.next; split <;> rfl
  have hdepth := s.leads_next.depth
  have hlater := s.leads_next.later
  have := hs.depth_le
  have := hs.paid
  exact ⟨hs.ended.next, fun h => (hs.spelled h).next, by omega, by omega⟩

theorem Parsed.leads {spelled : Prop} {p : Phrase} {n : Node} (h : Parsed spelled s.reached p n)
    (hst : s.Leads t) : Parsed spelled t.reached p n := h.mono hst.reached_le

theorem Parsed.leads_succ {spelled : Prop} {p : Phrase} {n : Node}
    (h : Parsed spelled (s.reached + 1) p n) (hst : s.Leads t) :
    Parsed spelled (t.reached + 1) p n := h.mono (Nat.succ_le_succ hst.reached_le)

end States

/-- All limits from `p` on give one result, and all smaller ones fail by it. -/
structure Transparent {α : Type} (file : String) (x : Below → Rule α) (s : State)
    (r : EStateM.Result Error State α) (p : Nat) : Prop where
  within : ∀ limit, p ≤ limit → close x ⟨file, limit, .standard⟩ s = r
  beyond : ∀ limit, s.peak ≤ limit → limit < p →
    ∃ place t, close x ⟨file, limit, .standard⟩ s = .error ⟨.limitExceeded limit, place⟩ t

/-- A result within the budget that does not depend on the limit, with a property if it is not an
error. -/
inductive Outcome {α : Type} (c : Terms) (x : Below → Rule α) (s : State) (Q : α → State → Prop) :
    Prop where
  | ok (a : α) (t : State) (h : Transparent c.file x s (.ok a t) t.peak) (hst : s.Leads t)
      (ht : t.Sound c) (hQ : Q a t)
  | error (e : Error) (t : State) (p : Nat) (h : Transparent c.file x s (.error e t) p)
      (hsp : s.peak ≤ p) (hp : p ≤ c.budget) (he : ∀ k, e.cause ≠ .limitExceeded k)

def Settles {α : Type} (c : Terms) (x : Below → Rule α) (s : State) (Q : α → State → Prop) : Prop :=
  s.Sound c → Outcome c x s Q

section Blocks

variable {α β : Type} {c : Terms} {s : State} {x y : Below → Rule α} {f : α → Below → Rule β}
  {P Q : α → State → Prop} {R : β → State → Prop}

theorem settles_of_sound (h : s.Sound c → Settles c x s Q) : Settles c x s Q :=
  fun hs => h hs hs

theorem Transparent.congr {r : EStateM.Result Error State α} {p : Nat} (h : Transparent c.file y s r p)
    (heq : ∀ limit, close x ⟨c.file, limit, .standard⟩ s = close y ⟨c.file, limit, .standard⟩ s) :
    Transparent c.file x s r p := by
  constructor
  · intro limit hlimit
    rw [heq, h.within limit hlimit]
  · intro limit hs hlimit
    rw [heq]
    exact h.beyond limit hs hlimit

theorem Settles.congr (h : Settles c y s Q)
    (heq : ∀ limit, close x ⟨c.file, limit, .standard⟩ s = close y ⟨c.file, limit, .standard⟩ s) :
    Settles c x s Q := by
  intro hs
  cases h hs with
  | ok a t hrun hst ht hQ => exact .ok a t (hrun.congr heq) hst ht hQ
  | error e t p hrun hsp hp he => exact .error e t p (hrun.congr heq) hsp hp he

theorem Settles.mono (h : Settles c x s P) (hPQ : ∀ a t, s.Leads t → P a t → Q a t) :
    Settles c x s Q := by
  intro hs
  cases h hs with
  | ok a t hrun hst ht hP => exact .ok a t hrun hst ht (hPQ a t hst hP)
  | error e t p hrun hsp hp he => exact .error e t p hrun hsp hp he

theorem settles_pure {a : α} (h : Q a s) : Settles c (fun _ => pure a) s Q := by
  intro hs
  refine .ok a s ⟨fun _ _ => rfl, ?_⟩ (.refl s) hs h
  intro limit hlow hhigh
  omega

theorem settles_failAt {offset : Text.Offset} {cause : Cause} (h : ∀ k, cause ≠ .limitExceeded k) :
    Settles c (fun _ => failAt offset cause) s Q := by
  intro hs
  have := hs.paid
  refine .error ⟨cause, offset, c.file⟩ s s.peak ⟨fun _ _ => rfl, ?_⟩ (Nat.le_refl _) (by omega) h
  intro limit hlow hhigh
  omega

theorem settles_fail {cause : Cause} (h : ∀ k, cause ≠ .limitExceeded k) :
    Settles c (fun _ => fail cause) s Q :=
  (settles_failAt h).congr fun _ => rfl

theorem settles_refuse {k : Token} {message : String} : Settles c (fun _ => refuse k message) s Q :=
  settles_failAt nofun

theorem settles_unexpected {message : String} : Settles c (fun _ => unexpected message) s Q :=
  (settles_refuse (k := s.current)).congr fun _ => rfl

@[simp] theorem close_apply (setting : Setting) :
    close x setting s = x (produce (setting.limit - s.depth)) setting s := rfl

theorem close_bind (limit : Nat) :
    close (fun below => x below >>= fun a => f a below) ⟨c.file, limit, .standard⟩ s =
      match close x ⟨c.file, limit, .standard⟩ s with
      | .ok a t => f a (produce (limit - s.depth)) ⟨c.file, limit, .standard⟩ t
      | .error e t => .error e t := by
  rw [close_apply, bind_apply]
  rfl

/-- The results of both parts are fixed, and the deeper of them decides which limits suffice. -/
theorem Transparent.bind {a : α} {t : State} {r : EStateM.Result Error State β} {p : Nat}
    (hx : Transparent c.file x s (.ok a t) t.peak) (hst : s.Leads t)
    (hf : Transparent c.file (f a) t r p) (hp : t.peak ≤ p) :
    Transparent c.file (fun below => x below >>= fun a => f a below) s r p := by
  have hbind : ∀ limit, t.peak ≤ limit →
      close (fun below => x below >>= fun a => f a below) ⟨c.file, limit, .standard⟩ s =
        close (f a) ⟨c.file, limit, .standard⟩ t := by
    intro limit hlimit
    rw [close_bind, hx.within limit hlimit]
    dsimp only
    rw [← hst.depth]
    rfl
  constructor
  · intro limit hlimit
    rw [hbind limit (Nat.le_trans hp hlimit), hf.within limit hlimit]
  · intro limit hlow hhigh
    by_cases hlimit : t.peak ≤ limit
    · rw [hbind limit hlimit]
      exact hf.beyond limit hlimit hhigh
    · obtain ⟨place, u, hrun⟩ := hx.beyond limit hlow (Nat.lt_of_not_le hlimit)
      exact ⟨place, u, by rw [close_bind, hrun]⟩

theorem Transparent.bind_error {e : Error} {t : State} {p : Nat}
    (hx : Transparent c.file x s (.error e t) p) :
    Transparent c.file (fun below => x below >>= fun a => f a below) s (.error e t) p := by
  constructor
  · intro limit hlimit
    rw [close_bind, hx.within limit hlimit]
  · intro limit hlow hhigh
    obtain ⟨place, u, hrun⟩ := hx.beyond limit hlow hhigh
    exact ⟨place, u, by rw [close_bind, hrun]⟩

theorem Settles.bind (hx : Settles c x s P) (hf : ∀ a t, s.Leads t → P a t → Settles c (f a) t R) :
    Settles c (fun below => x below >>= fun a => f a below) s R := by
  intro hs
  cases hx hs with
  | ok a t hrun hst ht hP =>
    cases hf a t hst hP ht with
    | ok b u hrun' htu hu hR => exact .ok b u (hrun.bind hst hrun' htu.peak) (hst.trans htu) hu hR
    | error e u p hrun' htp hp he =>
      exact .error e u p (hrun.bind hst hrun' htp) (Nat.le_trans hst.peak htp) hp he
  | error e t p hrun hsp hp he => exact .error e t p hrun.bind_error hsp hp he

theorem Settles.map {g : α → β} (hx : Settles c x s fun a t => R (g a) t) :
    Settles c (fun below => g <$> x below) s R :=
  (hx.bind fun _ _ _ h => settles_pure h).congr fun _ => rfl

theorem settles_ite {p : Prop} [Decidable p] (hx : p → Settles c x s Q)
    (hy : ¬ p → Settles c y s Q) : Settles c (fun below => if p then x below else y below) s Q := by
  by_cases hp : p
  · simp only [if_pos hp]
    exact hx hp
  · simp only [if_neg hp]
    exact hy hp

/-! Rules that start with a step of which the result is known go on from there. -/

theorem settles_kind_bind {f : TokenKind → Below → Rule β}
    (h : Settles c (f s.current.kind) s R) :
    Settles c (fun below => kind >>= fun k => f k below) s R := h.congr fun _ => rfl

theorem settles_current_bind {f : Token → Below → Rule β} (h : Settles c (f s.current) s R) :
    Settles c (fun below => current >>= fun k => f k below) s R := h.congr fun _ => rfl

theorem settles_kindAhead_bind {n : Nat} {f : TokenKind → Below → Rule β}
    (h : Settles c (f (s.kindAhead n)) s R) :
    Settles c (fun below => kindAhead n >>= fun k => f k below) s R := h.congr fun _ => rfl

theorem settles_get_bind {f : State → Below → Rule β} (h : Settles c (f s) s R) :
    Settles c (fun below => get >>= fun s => f s below) s R := h.congr fun _ => rfl

theorem settles_read_bind {f : Setting → Below → Rule β}
    (hf : ∀ limit, f ⟨c.file, limit, .standard⟩ = f ⟨c.file, 0, .standard⟩)
    (h : Settles c (f ⟨c.file, 0, .standard⟩) s R) :
    Settles c (fun below => read >>= fun setting => f setting below) s R := by
  refine h.congr fun limit => ?_
  rw [← hf limit]
  rfl

theorem settles_advance :
    Settles c (fun _ => advance) s fun k t => k = s.current ∧
      (s.current.kind ≠ .eof → s.Consumes t) := by
  intro hs
  have hpeak : s.next.peak = s.peak := by unfold State.next; split <;> rfl
  refine .ok s.current s.next ⟨fun _ _ => rfl, ?_⟩ s.leads_next hs.next
    ⟨rfl, hs.ended.consumes_next⟩
  intro limit hlow hhigh
  omega

theorem settles_advance_bind {f : Token → Below → Rule β}
    (h : ∀ t, s.Leads t → (s.current.kind ≠ .eof → s.Consumes t) → Settles c (f s.current) t R) :
    Settles c (fun below => advance >>= fun k => f k below) s R := by
  refine settles_advance.bind fun k t hst hk => ?_
  obtain ⟨rfl, hconsumes⟩ := hk
  exact h t hst hconsumes

structure State.Passed (k : TokenKind) (s : State) (x : Token) (t : State) : Prop where
  current : x = s.current
  kind : s.current.kind = k
  consumes : s.Consumes t

theorem settles_wanted {k : TokenKind} {y : Below → Rule Token} (hk : k ≠ .eof)
    (hy : Settles c y s (s.Passed k)) :
    Settles c (fun below => do if (← kind) = k then advance else y below) s (s.Passed k) := by
  refine settles_kind_bind (settles_ite (fun heq => ?_) fun _ => hy)
  exact settles_advance.mono fun x t _ hx => ⟨hx.1, heq, hx.2 (heq ▸ hk)⟩

theorem Settles.bind_passed {k : TokenKind} {x : Below → Rule Token} {f : Token → Below → Rule β}
    (hx : Settles c x s (s.Passed k))
    (h : s.current.kind = k → ∀ t, s.Consumes t → Settles c (f s.current) t R) :
    Settles c (fun below => x below >>= fun k => f k below) s R := by
  refine hx.bind fun a t _ ha => ?_
  obtain ⟨rfl, hkind, hst⟩ := ha
  exact h hkind t hst

theorem settles_expect_bind {k : TokenKind} {f : Token → Below → Rule β} (hk : k ≠ .eof)
    (h : s.current.kind = k → ∀ t, s.Consumes t → Settles c (f s.current) t R) :
    Settles c (fun below => expect k >>= fun k => f k below) s R := by
  have hfail : Settles c (fun _ => do fail (.unexpectedToken (← current).describe)) s (s.Passed k) :=
    settles_current_bind (settles_fail nofun)
  exact (settles_wanted hk hfail).bind_passed h

theorem settles_expectOr_bind {k : TokenKind} {message : String} {f : Token → Below → Rule β}
    (hk : k ≠ .eof)
    (h : s.current.kind = k → ∀ t, s.Consumes t → Settles c (f s.current) t R) :
    Settles c (fun below => expectOr k message >>= fun k => f k below) s R :=
  (settles_wanted hk settles_unexpected).bind_passed h

end Blocks

section Wrappers

variable {α β : Type} {c : Terms} {s u : State} {x : Below → Rule α} {y : Below → Rule β}
  {P : α → State → Prop} {Q : β → State → Prop}

/-- A rule `y` that runs `x` on another state `u` and finishes its result settles with it. What `x`
reaches counts together with what was reached before. -/
theorem Settles.around {g : α → State → β} {k : State → State} (hx : Settles c x u P)
    (hu : s.Sound c → u.Sound c)
    (hrun : ∀ limit, u.peak ≤ limit → close y ⟨c.file, limit, .standard⟩ s =
      finish g k (close x ⟨c.file, limit, .standard⟩ u))
    (hlow : ∀ limit, s.peak ≤ limit → limit < u.peak → ∃ place t,
      close y ⟨c.file, limit, .standard⟩ s = .error ⟨.limitExceeded limit, place⟩ t)
    (hpeak : ∀ t, u.Leads t → (k t).peak = max t.peak s.peak)
    (hk : ∀ a t, u.Leads t → t.Sound c → P a t →
      s.Leads (k t) ∧ (k t).Sound c ∧ Q (g a t) (k t)) : Settles c y s Q := by
  intro hs
  have htransparent : ∀ r p, Transparent c.file x u r p → u.peak ≤ p →
      Transparent c.file y s (finish g k r) (max p s.peak) := by
    intro r p h hup
    constructor
    · intro limit hlimit
      rw [hrun limit (by omega), h.within limit (by omega)]
    · intro limit hsl hlimit
      by_cases hul : u.peak ≤ limit
      · obtain ⟨place, t, herror⟩ := h.beyond limit hul (by omega)
        exact ⟨place, k t, by rw [hrun limit hul, herror]; rfl⟩
      · exact hlow limit hsl (by omega)
  cases hx (hu hs) with
  | ok a t h hut ht hP =>
    obtain ⟨hst, hsound, hQ⟩ := hk a t hut ht hP
    exact .ok (g a t) (k t) (hpeak t hut ▸ htransparent _ _ h hut.peak) hst hsound hQ
  | error e t p h hup hp he =>
    have := hs.paid
    exact .error e (k t) (max p s.peak) (htransparent _ _ h hup) (by omega) (by omega) he

theorem settles_withStructLiterals {allowed : Bool} {Q : α → State → Prop}
    (h : ∀ u, s.Leads u → Settles c x u Q)
    (hQ : ∀ a t flag, Q a t → Q a { t with structLiterals := flag }) :
    Settles c (fun below => withStructLiterals allowed (x below)) s Q := by
  have hsu : s.Leads { s with structLiterals := allowed } := ⟨rfl, Nat.le_refl _, Nat.le_refl _⟩
  refine (h _ hsu).around ?_ (fun limit _ => withStructLiterals_apply _ _) ?_ ?_ ?_
  · rintro ⟨hended, hspelled, hdepth, hpaid⟩
    exact ⟨hended, hspelled, hdepth, hpaid⟩
  · intro limit hlow hhigh
    exact absurd hlow (Nat.not_le_of_lt hhigh)
  · intro t ht
    exact (Nat.max_eq_left ht.peak).symm
  · rintro a t ⟨hdepth, hpeak, hlater⟩ ⟨hended, hspelled, hdepth', hpaid⟩ hP
    exact ⟨⟨hdepth, hpeak, hlater⟩, ⟨hended, hspelled, hdepth', hpaid⟩, hQ a t _ hP⟩

theorem settles_measured {R : α → Nat → State → Prop}
    (h : Settles c x { s with peak := s.depth } fun a t => R a t.reached t)
    (hR : ∀ a n t p, R a n t → R a n { t with peak := p }) :
    Settles c (fun below => measured (x below)) s fun p t =>
      R p.1 p.2 t ∧ p.2 ≤ t.reached ∧ s.depth + p.2 + t.later.length ≤ c.budget := by
  refine settles_of_sound fun hs => ?_
  have hdepth_le := hs.depth_le
  have hpaid := hs.paid
  refine h.around ?_ (fun limit _ => measured_apply _) ?_ ?_ ?_
  · intro _
    exact ⟨hs.ended, hs.spelled, Nat.le_refl _, Nat.le_trans (Nat.add_le_add_right hdepth_le _) hpaid⟩
  · intro limit hlow hhigh
    exact absurd (Nat.le_trans hdepth_le hlow) (Nat.not_le_of_lt hhigh)
  · intro t _
    rfl
  · rintro a t ⟨hdepth, hpeak, hlater⟩ ⟨hended, hspelled, hdepth', hpaid'⟩ hP
    dsimp only at hdepth hpeak hlater
    refine ⟨⟨hdepth, Nat.le_max_right _ _, hlater⟩, ⟨hended, hspelled, ?_, ?_⟩, hR a _ t _ hP, ?_, ?_⟩
    · exact Nat.le_trans hdepth' (Nat.le_max_left _ _)
    · dsimp only
      omega
    · unfold State.reached
      dsimp only
      omega
    · dsimp only
      omega

theorem settles_reach {levels : Nat} (h : s.depth + levels + s.later.length ≤ c.budget) :
    Settles c (fun _ => reach levels) s fun _ t => levels ≤ t.reached := by
  intro hs
  have hdepth := hs.depth_le
  have hpaid := hs.paid
  refine .ok () { s with peak := max s.peak (s.depth + levels) } ⟨?_, ?_⟩ ⟨rfl, ?_, ?_⟩
    ⟨hs.ended, hs.spelled, ?_, ?_⟩ ?_
  · intro limit hlimit
    dsimp only at hlimit
    rw [close_apply, reach_apply, if_neg (by dsimp only; omega)]
  · intro limit hlow hhigh
    dsimp only at hhigh
    exact ⟨_, s, by rw [close_apply, reach_apply, if_pos (by dsimp only; omega)]; rfl⟩
  · exact Nat.le_max_left _ _
  · exact Nat.le_refl _
  · dsimp only
    omega
  · dsimp only
    omega
  · unfold State.reached
    dsimp only
    omega

/-- What a goal costs at once, before a token is passed: a statement may open with an expression. -/
def Goal.cost : Goal → Nat
  | .statement => 2
  | .expression _ | .type | .elseIf => 1

def Goal.phrase : Goal → Phrase
  | .statement => .statement
  | .expression _ => .expression
  | .type => .type
  | .elseIf => .elseIf

def Opens (k : TokenKind) (n : Node) : Prop := ∀ e, n = .chanType .receive e → k = .arrow

/-- What a goal that starts with a token of kind `k` yields within some levels. -/
def Meets (c : Terms) (goal : Goal) (k : TokenKind) (levels : Nat) (n : Node) : Prop :=
  Parsed c.spelled levels goal.phrase n ∧ (goal = .type → Opens k n)

def GoalsSettle (c : Terms) (depth : Nat) : Prop :=
  ∀ goal s, s.Affords c depth goal.cost → Settles c (fun below => below goal) s fun n t =>
    Meets c goal s.current.kind t.reached n

theorem settles_goal {goal : Goal}
    (h : s.depth + 1 + s.later.length ≤ c.budget)
    (hbody : Settles c (fun below => goalBody below goal)
      { s with depth := s.depth + 1, peak := max s.peak (s.depth + 1) } fun n t =>
        Meets c goal s.current.kind (t.reached + 1) n) :
    Settles c (fun below => below goal) s fun n t => Meets c goal s.current.kind t.reached n := by
  refine settles_of_sound fun hs => ?_
  have hdepth_le := hs.depth_le
  have hpaid := hs.paid
  refine hbody.around (g := fun a _ => a) (k := fun t => { t with depth := t.depth - 1 }) ?_ ?_ ?_ ?_ ?_
  · intro _
    refine ⟨hs.ended, hs.spelled, ?_, ?_⟩
    · dsimp only
      omega
    · dsimp only
      omega
  · intro limit hlimit
    have hlimit' : s.depth + 1 ≤ limit := Nat.le_trans (Nat.le_max_right _ _) hlimit
    have hlevels : limit - s.depth = limit - (s.depth + 1) + 1 := by omega
    rw [close_apply, close_apply, hlevels]
    exact nested_apply hlimit'
  · intro limit hlow hhigh
    dsimp only at hhigh
    have hlevels : limit - s.depth = 0 := by omega
    exact ⟨⟨s.current.start, c.file⟩, s, by rw [close_apply, hlevels]; rfl⟩
  · intro t ht
    have := ht.peak
    dsimp only at this ⊢
    omega
  · rintro n t ⟨hdepth, hpeak, hlater⟩ ⟨hended, hspelled, hdepth', hpaid'⟩ hP
    dsimp only at hdepth hpeak hlater
    refine ⟨⟨?_, ?_, hlater⟩, ⟨hended, hspelled, ?_, hpaid'⟩, ?_⟩
    · dsimp only
      omega
    · dsimp only
      omega
    · dsimp only
      omega
    · refine ⟨hP.1.mono ?_, hP.2⟩
      unfold State.reached
      dsimp only
      omega

end Wrappers

section Loops

variable {α : Type} {c : Terms} {s : State}

theorem settles_loop (turn : α → Below → Rule (Turn α)) {a : α} {I : α → State → Prop} (ha : I a s)
    (hturn : ∀ a t, I a t → Settles c (turn a) t fun x u => I x.value u) :
    Settles c (fun below => loop a fun a => turn a below) s I := by
  have key : ∀ turns a t, I a t →
      Settles c (fun below => loopFrom (fun a => turn a below) turns a) t I := by
    intro turns
    induction turns with
    | nil =>
      intro a t ha
      refine (hturn a t ha).bind ?_
      rintro (b | b) u _ hb
      · exact settles_pure hb
      · exact settles_pure hb
    | cons k turns ih =>
      intro a t ha
      refine (hturn a t ha).bind ?_
      rintro (b | b) u _ hb
      · exact ih b u hb
      · exact settles_pure hb
  exact settles_get_bind (key s.later a s ha)

theorem settles_many {rule : Below → Rule (Option α)} {P : α → State → Prop}
    (hP : ∀ a s t, P a s → s.Leads t → P a t)
    (h : ∀ t, s.Leads t → Settles c rule t fun o u => ∀ a ∈ o, P a u) :
    Settles c (fun below => many (rule below)) s fun as t => ∀ a ∈ as, P a t := by
  have hloop : Settles c (fun below => loop [] (manyTurn (rule below))) s fun as t =>
      s.Leads t ∧ ∀ a ∈ as, P a t := by
    refine settles_loop (fun found below => manyTurn (rule below) found)
      ⟨.refl s, List.forall_mem_nil _⟩ ?_
    rintro found t ⟨hst, hfound⟩
    refine (h t hst).bind ?_
    rintro (_ | a) u htu ha
    · exact settles_pure ⟨hst.trans htu, fun b hb => hP b t u (hfound b hb) htu⟩
    · refine settles_pure ⟨hst.trans htu, List.forall_mem_append.2 ⟨?_, ?_⟩⟩
      · exact fun b hb => hP b t u (hfound b hb) htu
      · exact List.forall_mem_singleton.2 (ha a rfl)
  exact hloop.mono fun _ _ _ h => h.2

theorem settles_skipSemicolons : Settles c (fun _ => skipSemicolons) s fun _ _ => True := by
  refine settles_loop (fun _ _ => _) trivial fun _ t _ => ?_
  refine settles_kind_bind (settles_ite (fun _ => ?_) fun _ => settles_pure trivial)
  exact settles_advance_bind fun _ _ _ => settles_pure trivial

theorem settles_separated {close : TokenKind} {message : String} {item : Below → Rule α}
    {P : α → State → Prop} (hP : ∀ a s t, P a s → s.Leads t → P a t)
    (h : ∀ t, s.Leads t → Settles c item t P) :
    Settles c (fun below => separated close message (item below)) s fun as t => ∀ a ∈ as, P a t := by
  refine settles_many hP fun t hst => ?_
  refine settles_kind_bind (settles_ite (fun _ => settles_pure nofun) fun _ => ?_)
  refine (h t hst).bind fun a u htu ha => ?_
  refine settles_kind_bind (settles_ite (fun _ => settles_pure (forall_mem_some ha)) fun _ => ?_)
  refine settles_expectOr_bind nofun fun _ v huv => settles_pure (forall_mem_some ?_)
  exact hP a u v ha huv.toLeads

end Loops

end MiniGo.Grammar
