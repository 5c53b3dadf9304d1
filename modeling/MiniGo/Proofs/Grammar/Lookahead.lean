import MiniGo.Proofs.Grammar.Tracking

/-!
Rules look one token ahead. Two lists of tokens part at a fork: up to there they are the same, at the fork
they have tokens of one kind, and what is behind it has nothing to do with the other. A run over the first
list that has not passed the token at the fork is also a run over the second. A rule only looks at the kind
of the current token before it passes it, so the fork may be where the run ends.
-/
namespace MiniGo.Grammar

/-- Where two lists of tokens part. -/
structure Fork where
  setting : Setting
  token : Token
  token' : Token
  alike : token'.kind = token.kind
  later : List Token
  later' : List Token
  more : later ≠ []

/-- The same tokens lie between both states and the fork. The second run has also reached `floor` levels
before. -/
structure Fork.Beside (f : Fork) (floor : Nat) (s s' : State) : Prop where
  tokens : ∃ w, s.tokens = w ++ f.token :: f.later ∧ s'.tokens = w ++ f.token' :: f.later'
  depth : s'.depth = s.depth
  peak : s'.peak = max s.peak floor
  structLiterals : s'.structLiterals = s.structLiterals

/-- A run of the rule up to the fork has a run beside it with the same result. It passes a token if `P` is
true of the result. -/
structure Local {α : Type} (f : Fork) (x : Rule α) (P : α → Prop) : Prop where
  shrinks {s t : State} {a : α} (h : Rule.Runs x f.setting s a t) : t.later.length ≤ s.later.length
  follows {floor : Nat} {s s' t : State} {a : α} (hs : f.Beside floor s s')
    (h : Rule.Runs x f.setting s a t) (ht : f.later.length ≤ t.later.length) :
    (P a → t.later.length < s.later.length) ∧
      ∃ t', Rule.Runs x f.setting s' a t' ∧ f.Beside floor t t'

/-- A token is passed whatever the result is. -/
abbrev Passing {α : Type} (_ : α) : Prop := True

/-- There may be no token to pass. -/
abbrev Resting {α : Type} (_ : α) : Prop := False

section States

variable {f : Fork} {floor : Nat} {s s' t t' : State}

theorem Fork.Beside.later_length (h : f.Beside floor s s') :
    s.later.length + f.later'.length = s'.later.length + f.later.length := by
  obtain ⟨w, hw, hw'⟩ := h.tokens
  have hlength := congrArg List.length hw
  have hlength' := congrArg List.length hw'
  simp only [State.tokens, List.length_cons, List.length_append] at hlength hlength'
  omega

theorem Fork.Beside.lt (hs : f.Beside floor s s') (ht : f.Beside floor t t')
    (h : t.later.length < s.later.length) : t'.later.length < s'.later.length := by
  have := hs.later_length
  have := ht.later_length
  omega

theorem Fork.Beside.kind (h : f.Beside floor s s') : s'.current.kind = s.current.kind := by
  obtain ⟨w, hw, hw'⟩ := h.tokens
  cases w with
  | nil =>
    rw [(List.cons.inj hw).1, (List.cons.inj hw').1]
    exact f.alike
  | cons k w => rw [(List.cons.inj hw).1, (List.cons.inj hw').1]

theorem State.next_of_tokens {k l : Token} {ls : List Token} (h : s.tokens = k :: l :: ls) :
    s.current = k ∧ s.next.tokens = l :: ls ∧ s.next.depth = s.depth ∧ s.next.peak = s.peak ∧
      s.next.structLiterals = s.structLiterals := by
  obtain ⟨hcurrent, hlater⟩ := List.cons.inj h
  unfold State.next State.tokens
  rw [hlater]
  exact ⟨hcurrent, rfl, rfl, rfl, rfl⟩

theorem Fork.Beside.next (h : f.Beside floor s s') (ht : f.later.length ≤ s.next.later.length) :
    s'.current = s.current ∧ f.Beside floor s.next s'.next ∧ s.next.later.length < s.later.length := by
  obtain ⟨w, hw, hw'⟩ := h.tokens
  have hmore := List.length_pos_iff.2 f.more
  cases w with
  | nil =>
    obtain ⟨l, ls, hlater⟩ := List.exists_cons_of_ne_nil f.more
    have hnext := congrArg List.length (State.next_of_tokens (hlater ▸ hw)).2.1
    rw [← hlater] at hnext
    simp only [State.tokens, List.length_cons] at hnext
    omega
  | cons k w =>
    obtain ⟨l, ls, hl⟩ : ∃ l ls, w ++ f.token :: f.later = l :: ls :=
      List.exists_cons_of_ne_nil (by simp)
    obtain ⟨l', ls', hl'⟩ : ∃ l' ls', w ++ f.token' :: f.later' = l' :: ls' :=
      List.exists_cons_of_ne_nil (by simp)
    rw [List.cons_append] at hw hw'
    obtain ⟨hcurrent, htokens, hdepth, hpeak, hflag⟩ := State.next_of_tokens (hl ▸ hw)
    obtain ⟨hcurrent', htokens', hdepth', hpeak', hflag'⟩ := State.next_of_tokens (hl' ▸ hw')
    refine ⟨hcurrent'.trans hcurrent.symm, ⟨⟨w, htokens.trans hl.symm, htokens'.trans hl'.symm⟩, ?_, ?_, ?_⟩,
      ?_⟩
    · rw [hdepth', hdepth, h.depth]
    · rw [hpeak', hpeak, h.peak]
    · rw [hflag', hflag, h.structLiterals]
    · have hlength := congrArg List.length hw
      have hnext := congrArg List.length (htokens.trans hl.symm)
      simp only [State.tokens, List.length_cons] at hlength hnext
      omega

theorem State.later_next_length_le (s : State) : s.next.later.length ≤ s.later.length := by
  unfold State.next
  split
  · exact Nat.le_refl _
  · rename_i hlater
    rw [hlater]
    exact Nat.le_succ _

theorem State.le_later_next {n : Nat} (hlt : t.later.length < s.later.length) (ht : n ≤ t.later.length) :
    n ≤ s.next.later.length := by
  unfold State.next
  cases hlater : s.later with
  | nil =>
    rw [hlater] at hlt
    exact absurd hlt (Nat.not_lt_zero _)
  | cons k ks =>
    rw [hlater, List.length_cons] at hlt
    exact Nat.le_trans ht (Nat.lt_succ_iff.1 hlt)

end States

section Blocks

variable {α β : Type} {f : Fork} {x y : Rule α} {g : α → Rule β} {P Q : α → Prop} {R : β → Prop}

theorem Local.mono (h : Local f x P) (hPQ : ∀ a, Q a → P a) : Local f x Q := by
  refine ⟨h.shrinks, fun hs hrun ht => ?_⟩
  obtain ⟨hpass, hfollows⟩ := h.follows hs hrun ht
  exact ⟨fun hQ => hpass (hPQ _ hQ), hfollows⟩

theorem local_of_not_runs (h : ∀ c s a t, ¬ Rule.Runs x c s a t) : Local f x P :=
  ⟨fun hrun => absurd hrun (h _ _ _ _), fun _ hrun => absurd hrun (h _ _ _ _)⟩

theorem local_failAt {offset : Text.Offset} {cause : Cause} : Local f (failAt offset cause : Rule α) P :=
  local_of_not_runs fun _ _ _ _ => not_runs_failAt

theorem local_fail {cause : Cause} : Local f (fail cause : Rule α) P :=
  local_of_not_runs fun _ _ _ _ => not_runs_fail

theorem local_refuse {k : Token} {message : String} : Local f (refuse k message : Rule α) P := local_failAt

theorem local_unexpected {message : String} : Local f (unexpected message : Rule α) P :=
  local_of_not_runs fun _ _ _ _ => not_runs_unexpected

theorem local_pure {a : α} (h : ¬ P a) : Local f (pure a) P := by
  constructor
  · intro s t b hrun
    obtain ⟨-, rfl⟩ := runs_pure.1 hrun
    exact Nat.le_refl _
  · intro floor s s' t b hs hrun ht
    obtain ⟨rfl, rfl⟩ := runs_pure.1 hrun
    exact ⟨fun hP => absurd hP h, s', runs_pure.2 ⟨rfl, rfl⟩, hs⟩

/-- If the first part may pass no token, the second has to where a token is to be passed. -/
theorem Local.bind (hx : Local f x P) (hg : ∀ a, Local f (g a) fun b => R b ∧ ¬ P a) :
    Local f (x >>= g) R := by
  constructor
  · intro s t b hrun
    obtain ⟨a, u, ha, hb⟩ := runs_bind.1 hrun
    exact Nat.le_trans ((hg a).shrinks hb) (hx.shrinks ha)
  · intro floor s s' t b hs hrun ht
    obtain ⟨a, u, ha, hb⟩ := runs_bind.1 hrun
    have htu := (hg a).shrinks hb
    have hus := hx.shrinks ha
    obtain ⟨hpass, u', ha', hu⟩ := hx.follows hs ha (Nat.le_trans ht htu)
    obtain ⟨hpass', t', hb', ht'⟩ := (hg a).follows hu hb ht
    refine ⟨fun hR => ?_, t', runs_bind.2 ⟨a, u', ha', hb'⟩, ht'⟩
    by_cases hP : P a
    · exact Nat.lt_of_le_of_lt htu (hpass hP)
    · exact Nat.lt_of_lt_of_le (hpass' ⟨hR, hP⟩) hus

theorem Local.before (hx : Local f x Passing) (hg : ∀ a, Local f (g a) Resting) : Local f (x >>= g) R :=
  hx.bind fun a => (hg a).mono fun _ h => h.2 trivial

theorem Local.after (hx : Local f x P) (hg : ∀ a, Local f (g a) R) : Local f (x >>= g) R :=
  hx.bind fun a => (hg a).mono fun _ h => h.1

theorem Local.map {h : α → β} (hx : Local f x fun a => R (h a)) : Local f (h <$> x) R := by
  have hbind : Local f (x >>= fun a => pure (h a)) R :=
    hx.bind fun a => local_pure fun hR => hR.2 hR.1
  exact hbind

theorem local_ite {p : Prop} [Decidable p] (hx : Local f x P) (hy : Local f y P) :
    Local f (if p then x else y) P := by
  by_cases hp : p
  · rwa [if_pos hp]
  · rwa [if_neg hp]

theorem local_read_bind {g : Setting → Rule β} (h : Local f (g f.setting) R) : Local f (read >>= g) R :=
  ⟨fun hrun => h.shrinks (runs_read_bind.1 hrun), fun hs hrun ht => h.follows hs (runs_read_bind.1 hrun) ht⟩

theorem local_kind_bind {g : TokenKind → Rule β} (h : ∀ k, Local f (g k) R) : Local f (kind >>= g) R := by
  refine ⟨fun hrun => (h _).shrinks (runs_kind_bind.1 hrun), fun {_ s s' _ _} hs hrun ht => ?_⟩
  obtain ⟨hpass, t', hrun', ht'⟩ := (h s.current.kind).follows hs (runs_kind_bind.1 hrun) ht
  refine ⟨hpass, t', runs_kind_bind.2 ?_, ht'⟩
  rwa [hs.kind]

theorem local_get_bind {g : State → Rule β}
    (hg : ∀ s s' : State, s'.structLiterals = s.structLiterals → g s' = g s)
    (h : ∀ s, Local f (g s) R) : Local f (get >>= g) R := by
  refine ⟨fun hrun => (h _).shrinks (runs_get_bind.1 hrun), fun {_ s s' _ _} hs hrun ht => ?_⟩
  obtain ⟨hpass, t', hrun', ht'⟩ := (h s).follows hs (runs_get_bind.1 hrun) ht
  refine ⟨hpass, t', runs_get_bind.2 ?_, ht'⟩
  rwa [hg s s' hs.structLiterals]

theorem local_advance : Local f advance Passing := by
  constructor
  · intro s t k hrun
    obtain ⟨-, rfl⟩ := runs_advance.1 hrun
    exact s.later_next_length_le
  · intro floor s s' t k hs hrun ht
    obtain ⟨rfl, rfl⟩ := runs_advance.1 hrun
    obtain ⟨hcurrent, hnext, hlt⟩ := hs.next ht
    exact ⟨fun _ => hlt, s'.next, runs_advance.2 ⟨hcurrent.symm, rfl⟩, hnext⟩

theorem local_advance_bind {g : Token → Rule β} (h : ∀ k, Local f (g k) Resting) :
    Local f (advance >>= g) R := local_advance.before h

theorem local_expect {k : TokenKind} : Local f (expect k) Passing :=
  local_kind_bind fun _ => local_ite local_advance (local_of_not_runs fun _ _ _ _ => nofun)

theorem local_expect_bind {k : TokenKind} {g : Token → Rule β} (h : ∀ k, Local f (g k) Resting) :
    Local f (expect k >>= g) R := local_expect.before h

theorem local_expectOr_bind {k : TokenKind} {message : String} {g : Token → Rule β}
    (h : ∀ k, Local f (g k) Resting) : Local f (expectOr k message >>= g) R := by
  have hexpect : Local f (expectOr k message) Passing :=
    local_kind_bind fun _ => local_ite local_advance local_unexpected
  exact hexpect.before h

theorem local_current_bind {g : Token → Rule β} (h : ∀ k, Local f (g k) Passing) :
    Local f (current >>= g) R := by
  refine ⟨fun hrun => (h _).shrinks (runs_current_bind.1 hrun), fun {_ s s' t _} hs hrun ht => ?_⟩
  obtain ⟨hpass, t', hrun', ht'⟩ := (h s.current).follows hs (runs_current_bind.1 hrun) ht
  have hlt := hpass trivial
  refine ⟨fun _ => hlt, t', runs_current_bind.2 ?_, ht'⟩
  rwa [(hs.next (State.le_later_next hlt ht)).1]

theorem local_kindAhead_bind {g : TokenKind → Rule β} (h : ∀ k, Local f (g k) Passing) :
    Local f (kindAhead 1 >>= g) R := by
  refine ⟨fun hrun => (h _).shrinks (runs_kindAhead_bind.1 hrun), fun {_ s s' t _} hs hrun ht => ?_⟩
  obtain ⟨hpass, t', hrun', ht'⟩ := (h (s.kindAhead 1)).follows hs (runs_kindAhead_bind.1 hrun) ht
  have hlt := hpass trivial
  refine ⟨fun _ => hlt, t', runs_kindAhead_bind.2 ?_, ht'⟩
  obtain ⟨-, hnext, hlater⟩ := hs.next (State.le_later_next hlt ht)
  have hlater' := hs.lt hnext hlater
  rwa [kindAhead_one (List.ne_nil_of_length_pos (Nat.zero_lt_of_lt hlater')), hnext.kind,
    ← kindAhead_one (List.ne_nil_of_length_pos (Nat.zero_lt_of_lt hlater))]

/-! Steps that change the rest of the state. -/

theorem local_withStructLiterals {allowed : Bool} (hx : Local f x P) :
    Local f (withStructLiterals allowed x) P := by
  constructor
  · intro s t a hrun
    obtain ⟨u, hu, rfl⟩ := runs_withStructLiterals.1 hrun
    have hle := hx.shrinks hu
    exact hle
  · intro floor s s' t a hs hrun ht
    obtain ⟨u, hu, rfl⟩ := runs_withStructLiterals.1 hrun
    have hinner : f.Beside floor { s with structLiterals := allowed }
        { s' with structLiterals := allowed } := ⟨hs.tokens, hs.depth, hs.peak, rfl⟩
    obtain ⟨hpass, u', hu', hbeside⟩ := hx.follows hinner hu ht
    exact ⟨hpass, _, runs_withStructLiterals.2 ⟨u', hu', rfl⟩,
      hbeside.tokens, hbeside.depth, hbeside.peak, hs.structLiterals⟩

theorem local_measured (hx : Local f x P) : Local f (measured x) fun p => P p.1 := by
  constructor
  · rintro s t ⟨a, n⟩ hrun
    obtain ⟨u, hu, -, rfl⟩ := runs_measured.1 hrun
    have hle := hx.shrinks hu
    exact hle
  · rintro floor s s' t ⟨a, n⟩ hs hrun ht
    obtain ⟨u, hu, rfl, rfl⟩ := runs_measured.1 hrun
    have hinner : f.Beside 0 { s with peak := s.depth } { s' with peak := s'.depth } :=
      ⟨hs.tokens, hs.depth, hs.depth.trans (Nat.max_zero _).symm, hs.structLiterals⟩
    obtain ⟨hpass, u', hu', hbeside⟩ := hx.follows hinner hu ht
    have hpeak : u'.peak = u.peak := hbeside.peak.trans (Nat.max_zero _)
    refine ⟨hpass, _, runs_measured.2 ⟨u', hu', by rw [hpeak, hbeside.depth], rfl⟩,
      hbeside.tokens, hbeside.depth, ?_, hbeside.structLiterals⟩
    simp only [hpeak, hs.peak, Nat.max_assoc]

theorem local_reach {levels : Nat} : Local f (reach levels) Resting := by
  constructor
  · intro s t i hrun
    obtain ⟨-, rfl⟩ := runs_reach.1 hrun
    exact Nat.le_refl _
  · intro floor s s' t i hs hrun ht
    obtain ⟨hlimit, rfl⟩ := runs_reach.1 hrun
    refine ⟨False.elim, _, runs_reach.2 ⟨hs.depth ▸ hlimit, rfl⟩, hs.tokens, hs.depth, ?_,
      hs.structLiterals⟩
    simp only [hs.peak, hs.depth, Nat.max_right_comm]

theorem local_nested (hx : Local f x P) : Local f (nested x) P := by
  constructor
  · intro s t a hrun
    obtain ⟨-, u, hu, rfl⟩ := runs_nested.1 hrun
    have hle := hx.shrinks hu
    exact hle
  · intro floor s s' t a hs hrun ht
    obtain ⟨hlimit, u, hu, rfl⟩ := runs_nested.1 hrun
    have hinner : f.Beside floor { s with depth := s.depth + 1, peak := max s.peak (s.depth + 1) }
        { s' with depth := s'.depth + 1, peak := max s'.peak (s'.depth + 1) } := by
      refine ⟨hs.tokens, congrArg (· + 1) hs.depth, ?_, hs.structLiterals⟩
      simp only [hs.peak, hs.depth, Nat.max_right_comm]
    obtain ⟨hpass, u', hu', hbeside⟩ := hx.follows hinner hu ht
    exact ⟨hpass, _, runs_nested.2 ⟨hs.depth ▸ hlimit, u', hu', rfl⟩,
      hbeside.tokens, congrArg (· - 1) hbeside.depth, hbeside.peak, hbeside.structLiterals⟩

end Blocks

section Loops

variable {α : Type} {f : Fork} {turn : α → Rule (Turn α)} {a b : α}

/-- A turn that goes on or changes something passes a token. -/
def Moves (a : α) : Turn α → Prop
  | .more _ => True
  | .done b => b ≠ a

theorem loopFrom_shrinks (h : ∀ a, Local f (turn a) (Moves a)) {turns : List Token} {s t : State}
    (hrun : Rule.Runs (loopFrom turn turns a) f.setting s b t) : t.later.length ≤ s.later.length := by
  induction turns generalizing a s with
  | nil =>
    rcases runs_loopFrom_nil.1 hrun with hrun | hrun
    · exact (h a).shrinks hrun
    · exact (h a).shrinks hrun
  | cons k turns ih =>
    rcases runs_loopFrom_cons.1 hrun with ⟨d, u, hd, hrest⟩ | hrun
    · exact Nat.le_trans (ih hrest) ((h a).shrinks hd)
    · exact (h a).shrinks hrun

/-- The turns that run up to the fork are also turns beside it. -/
theorem turns_of_loopFrom (h : ∀ a, Local f (turn a) (Moves a)) {turns : List Token} {floor : Nat}
    {s s' t : State} (hs : f.Beside floor s s') (hturns : s.later.length ≤ turns.length)
    (hrun : Rule.Runs (loopFrom turn turns a) f.setting s b t) (ht : f.later.length ≤ t.later.length) :
    (b ≠ a → t.later.length < s.later.length) ∧
      ∃ t', Turns turn f.setting s' a b t' ∧ f.Beside floor t t' := by
  induction turns generalizing a s s' with
  | nil =>
    -- The tokens that bound the turns have run out, and so have those in front of the fork.
    have hts := loopFrom_shrinks h hrun
    have hmore := List.length_pos_iff.2 f.more
    rw [List.length_nil] at hturns
    omega
  | cons k turns ih =>
    rcases runs_loopFrom_cons.1 hrun with ⟨d, u, hd, hrest⟩ | hdone
    · have htu := loopFrom_shrinks h hrest
      obtain ⟨hpass, u', hd', hu⟩ := (h a).follows hs hd (Nat.le_trans ht htu)
      have hlt := hpass trivial
      rw [List.length_cons] at hturns
      obtain ⟨-, t', hrest', ht'⟩ := ih hu (by omega) hrest
      exact ⟨fun _ => Nat.lt_of_le_of_lt htu hlt, t', .more hd' (hs.lt hu hlt) hrest', ht'⟩
    · obtain ⟨hpass, t', hdone', ht'⟩ := (h a).follows hs hdone ht
      exact ⟨hpass, t', .done hdone', ht'⟩

theorem local_loop (h : ∀ a, Local f (turn a) (Moves a)) : Local f (loop a turn) (· ≠ a) := by
  refine ⟨fun hrun => loopFrom_shrinks h (runs_loop.1 hrun), fun hs hrun ht => ?_⟩
  obtain ⟨hpass, t', hturns, ht'⟩ := turns_of_loopFrom h hs (Nat.le_refl _) (runs_loop.1 hrun) ht
  exact ⟨hpass, t', hturns.loop_runs, ht'⟩

theorem local_many {rule : Rule (Option α)} (h : Local f rule fun o => o.isSome = true) :
    Local f (many rule) Resting := by
  have hturn : ∀ found, Local f (manyTurn rule found) (Moves found) := by
    intro found
    refine h.bind fun o => ?_
    cases o with
    | none => exact local_pure fun hmoves => hmoves.1 rfl
    | some a => exact local_pure fun hmoves => hmoves.2 rfl
  exact (local_loop hturn).mono fun _ => False.elim

theorem local_skipSemicolons : Local f skipSemicolons Resting := by
  refine (local_loop fun _ => local_kind_bind fun _ => local_ite ?_ ?_).mono fun _ => False.elim
  · exact local_advance_bind fun _ => local_pure id
  · exact local_pure fun hmoves => hmoves rfl

theorem local_separated {close : TokenKind} {message : String} {item : Rule α}
    (h : Local f item Passing) : Local f (separated close message item) Resting := by
  refine local_many (local_kind_bind fun _ => local_ite (local_pure nofun) ?_)
  refine h.before fun a => local_kind_bind fun _ => local_ite (local_pure id) ?_
  exact local_expectOr_bind fun _ => local_pure id

end Loops

end MiniGo.Grammar
