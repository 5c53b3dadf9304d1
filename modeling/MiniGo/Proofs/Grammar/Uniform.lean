import MiniGo.Proofs.Grammar.Tracking

/-!
What rules are made of. A rule yields results and errors, looks at the tokens and at the tables, passes tokens,
counts levels and runs the rules one level down, and it does nothing else with the state, with the limit or with
the level that it runs on. So what the basic steps keep is kept by every rule: no token is lost or read again,
the level and the struct literals are as before, and the levels reached are within the limit.
-/
namespace MiniGo.Grammar

/-- The states have the same tokens in front of and behind the current one, and allow struct literals alike. -/
structure State.Matches (s t : State) : Prop where
  behind : t.behind = s.behind
  current : t.current = s.current
  later : t.later = s.later
  structLiterals : t.structLiterals = s.structLiterals

theorem State.Matches.symm {s t : State} (h : s.Matches t) : t.Matches s :=
  ⟨h.behind.symm, h.current.symm, h.later.symm, h.structLiterals.symm⟩

theorem State.Matches.trans {s t u : State} (h : s.Matches t) (h' : t.Matches u) : s.Matches u :=
  ⟨h'.behind.trans h.behind, h'.current.trans h.current, h'.later.trans h.later,
    h'.structLiterals.trans h.structLiterals⟩

/-- A rule that is put together from basic steps, in the same way for all rules one level down. What it looks at
of the state and of what is fixed is neither the level nor the limit. -/
inductive Uniform : {α : Type} → (Below → Rule α) → Prop where
  | pure {α : Type} (a : α) : Uniform fun _ => Pure.pure a
  | failAt {α : Type} (offset : Text.Offset) (cause : Cause) : Uniform fun _ => (failAt offset cause : Rule α)
  | bind {α β : Type} {x : Below → Rule α} {f : α → Below → Rule β} (hx : Uniform x)
      (hf : ∀ a, Uniform (f a)) : Uniform fun below => x below >>= fun a => f a below
  | look {β : Type} {f : State → Below → Rule β} (hmatches : ∀ s t, s.Matches t → f t = f s)
      (hf : ∀ s, Uniform (f s)) : Uniform fun below => get >>= fun s => f s below
  | consult {β : Type} {f : Setting → Below → Rule β} (hlimit : ∀ c limit, f { c with limit := limit } = f c)
      (hf : ∀ c, Uniform (f c)) : Uniform fun below => read >>= fun c => f c below
  | advance : Uniform fun _ => advance
  | reach (levels : Nat) : Uniform fun _ => reach levels
  | measured {α : Type} {x : Below → Rule α} (hx : Uniform x) : Uniform fun below => measured (x below)
  | withStructLiterals {α : Type} {x : Below → Rule α} (allowed : Bool) (hx : Uniform x) :
      Uniform fun below => withStructLiterals allowed (x below)
  | goal (goal : Goal) : Uniform fun below => below goal

section Steps

variable {α β : Type} {x y : Below → Rule α}

theorem uniform_current : Uniform fun _ => current :=
  .look (fun _ _ h => by simp only [h.current]) fun s => .pure s.current

theorem uniform_kind : Uniform fun _ => kind :=
  .look (fun _ _ h => by simp only [h.current]) fun s => .pure s.current.kind

theorem State.Matches.kindAhead {s t : State} (h : s.Matches t) (n : Nat) :
    t.kindAhead n = s.kindAhead n := by
  simp only [State.kindAhead, h.current, h.later]

theorem uniform_kindAhead (n : Nat) : Uniform fun _ => kindAhead n :=
  .look (fun _ _ h => by simp only [h.kindAhead]) fun s => .pure (s.kindAhead n)

theorem uniform_fail (cause : Cause) : Uniform fun _ => (fail cause : Rule α) :=
  uniform_current.bind fun t => .failAt t.start cause

theorem uniform_refuse (t : Token) (message : String) : Uniform fun _ => (refuse t message : Rule α) :=
  .failAt t.start _

theorem uniform_unexpected (message : String) : Uniform fun _ => (unexpected message : Rule α) :=
  uniform_current.bind fun t => uniform_refuse t message

theorem uniform_ite {p : Prop} [Decidable p] (hx : Uniform x) (hy : Uniform y) :
    Uniform fun below => if p then x below else y below := by
  by_cases hp : p
  · simp only [if_pos hp]
    exact hx
  · simp only [if_neg hp]
    exact hy

theorem Uniform.map (hx : Uniform x) (f : α → β) : Uniform fun below => f <$> x below :=
  hx.bind fun a => .pure (f a)

theorem uniform_expect (k : TokenKind) : Uniform fun _ => expect k :=
  uniform_kind.bind fun _ => uniform_ite .advance (uniform_current.bind fun _ => uniform_fail _)

theorem uniform_expectOr (k : TokenKind) (message : String) : Uniform fun _ => expectOr k message :=
  uniform_kind.bind fun _ => uniform_ite .advance (uniform_unexpected message)

theorem uniform_loop {turn : α → Below → Rule (Turn α)} (h : ∀ a, Uniform (turn a)) (a : α) :
    Uniform fun below => loop a fun a => turn a below := by
  have key : ∀ turns a, Uniform fun below => loopFrom (fun a => turn a below) turns a := by
    intro turns
    induction turns with
    | nil =>
      intro a
      refine (h a).bind fun x => ?_
      cases x with
      | more b => exact .pure b
      | done b => exact .pure b
    | cons k turns ih =>
      intro a
      refine (h a).bind fun x => ?_
      cases x with
      | more b => exact ih b
      | done b => exact .pure b
  exact .look (fun _ _ h => by simp only [h.later]) fun s => key s.later a

theorem uniform_many {rule : Below → Rule (Option α)} (h : Uniform rule) :
    Uniform fun below => many (rule below) := by
  refine uniform_loop (fun found => ?_) []
  refine h.bind fun o => ?_
  cases o with
  | none => exact .pure _
  | some a => exact .pure _

theorem uniform_skipSemicolons : Uniform fun _ => skipSemicolons :=
  uniform_loop (fun _ => uniform_kind.bind fun _ =>
    uniform_ite (Uniform.advance.bind fun _ => .pure _) (.pure _)) ()

theorem uniform_separated {item : Below → Rule α} (h : Uniform item) (close : TokenKind)
    (message : String) : Uniform fun below => separated close message (item below) := by
  refine uniform_many (uniform_kind.bind fun _ => uniform_ite (.pure none) ?_)
  refine h.bind fun a => uniform_kind.bind fun _ => uniform_ite (.pure (some a)) ?_
  exact (uniform_expectOr .comma message).bind fun _ => .pure (some a)

end Steps

section States

def State.position (s : State) : Nat := s.behind.length

def State.allTokens (s : State) : List Token := s.behind.reverse ++ s.tokens

theorem State.length_allTokens (s : State) :
    s.allTokens.length = s.position + s.later.length + 1 := by
  simp only [State.allTokens, State.tokens, State.position, List.length_append, List.length_reverse,
    List.length_cons]
  omega

theorem State.getLast?_allTokens (s : State) : s.allTokens.getLast? = s.tokens.getLast? :=
  getLast?_append_tokens s.behind.reverse s

/-- A run may lead from `s` to `t`: back to its level, over tokens that stay where they are. The levels that it
has reached are within the limit. -/
structure State.ComesTo (limit : Nat) (s t : State) : Prop extends s.Returns t where
  allTokens : t.allTokens = s.allTokens
  position : s.position ≤ t.position
  peak : s.peak ≤ t.peak
  within : s.depth ≤ s.peak → s.peak ≤ limit → t.peak ≤ limit

variable {limit : Nat} {s t u : State}

theorem State.ComesTo.refl (limit : Nat) (s : State) : s.ComesTo limit s :=
  ⟨⟨rfl, rfl⟩, rfl, Nat.le_refl _, Nat.le_refl _, fun _ h => h⟩

theorem State.ComesTo.trans (h : s.ComesTo limit t) (h' : t.ComesTo limit u) : s.ComesTo limit u := by
  refine ⟨h.toReturns.trans h'.toReturns, h'.allTokens.trans h.allTokens, Nat.le_trans h.position h'.position,
    Nat.le_trans h.peak h'.peak, fun hdepth hpeak => ?_⟩
  exact h'.within (h.depth ▸ Nat.le_trans hdepth h.peak) (h.within hdepth hpeak)

@[simp] theorem State.comesTo_next (limit : Nat) (s : State) : s.ComesTo limit s.next := by
  unfold State.next
  cases hl : s.later with
  | nil => exact .refl limit s
  | cons k ks =>
    refine ⟨⟨rfl, rfl⟩, ?_, Nat.le_succ _, Nat.le_refl _, fun _ h => h⟩
    simp [State.allTokens, State.tokens, hl]

theorem State.Ended.of_allTokens (hs : s.Ended) (h : t.allTokens = s.allTokens) : t.Ended := by
  unfold State.Ended at hs ⊢
  rwa [← State.getLast?_allTokens, h, State.getLast?_allTokens]

theorem State.Ended.comesTo (hs : s.Ended) (h : s.ComesTo limit t) : t.Ended := hs.of_allTokens h.allTokens

theorem State.ComesTo.later_lt (h : s.ComesTo limit t) (hlt : s.position < t.position) :
    t.later.length < s.later.length := by
  have hlength := congrArg List.length h.allTokens
  rw [State.length_allTokens, State.length_allTokens] at hlength
  omega

theorem State.Ended.position_lt_next (hs : s.Ended) (hk : s.current.kind ≠ .eof) :
    s.position < s.next.position := by
  have hlt := (hs.passes_next hk).length_lt (List.cons_ne_nil _ _)
  unfold State.next at hlt ⊢
  cases hl : s.later with
  | nil => simp [hl] at hlt
  | cons k ks => exact Nat.lt_succ_self _

end States

section Restoring

variable {α β : Type} {c : Setting} {x : Rule α} {f : α → Rule β}

def stateBehind : EStateM.Result Error State α → State
  | .ok _ t => t
  | .error _ t => t

theorem stateBehind_finish (g : α → State → β) (k : State → State) (r : EStateM.Result Error State α) :
    stateBehind (finish g k r) = k (stateBehind r) := by
  cases r with
  | ok a t => rfl
  | error e t => rfl

/-- Whether the rule succeeds or fails, what it changes for a while is as before. -/
def Restores (c : Setting) (x : Rule α) : Prop := ∀ s : State, s.ComesTo c.limit (stateBehind (x c s))

theorem Restores.comesTo {s t : State} {a : α} (hx : Restores c x) (h : Rule.Runs x c s a t) :
    s.ComesTo c.limit t := by
  have hs := hx s
  rwa [h] at hs

theorem Restores.bind (hx : Restores c x) (hf : ∀ a, Restores c (f a)) : Restores c (x >>= f) := by
  intro s
  have hs := hx s
  rw [bind_apply]
  revert hs
  cases x c s with
  | ok a t => exact fun hs => hs.trans (hf a t)
  | error e t => exact id

theorem restores_reach (levels : Nat) : Restores c (reach levels) := by
  intro s
  rw [reach_apply]
  split
  · exact .refl _ s
  · refine ⟨⟨rfl, rfl⟩, rfl, Nat.le_refl _, Nat.le_max_left _ _, fun _ hpeak => ?_⟩
    exact Nat.max_le.2 ⟨hpeak, by omega⟩

theorem Restores.withStructLiterals (hx : Restores c x) (allowed : Bool) :
    Restores c (withStructLiterals allowed x) := by
  intro s
  obtain ⟨⟨hdepth, -⟩, htokens, hposition, hpeak, hwithin⟩ := hx { s with structLiterals := allowed }
  rw [withStructLiterals_apply, stateBehind_finish]
  exact ⟨⟨hdepth, rfl⟩, htokens, hposition, hpeak, hwithin⟩

theorem Restores.measured (hx : Restores c x) : Restores c (measured x) := by
  intro s
  obtain ⟨⟨hdepth, hflag⟩, htokens, hposition, -, hwithin⟩ := hx { s with peak := s.depth }
  rw [measured_apply, stateBehind_finish]
  refine ⟨⟨hdepth, hflag⟩, htokens, hposition, Nat.le_max_right _ _, fun hdepth hpeak => ?_⟩
  exact Nat.max_le.2 ⟨hwithin (Nat.le_refl _) (Nat.le_trans hdepth hpeak), hpeak⟩

theorem Restores.nested (hx : Restores c x) : Restores c (nested x) := by
  intro s
  by_cases hlimit : c.limit < s.depth + 1
  · rw [nested_eq, bind_apply, reach_apply, if_pos hlimit]
    exact .refl _ s
  · obtain ⟨⟨hdepth, hflag⟩, htokens, hposition, hpeak, hwithin⟩ :=
      hx { s with depth := s.depth + 1, peak := max s.peak (s.depth + 1) }
    rw [nested_apply (Nat.le_of_not_lt hlimit), stateBehind_finish]
    dsimp only at hdepth hpeak hwithin
    refine ⟨⟨?_, hflag⟩, htokens, hposition, ?_, fun _ hs => hwithin ?_ ?_⟩
    · dsimp only
      rw [hdepth, Nat.add_sub_cancel]
    · exact Nat.le_trans (Nat.le_max_left _ _) hpeak
    · exact Nat.le_max_right _ _
    · exact Nat.max_le.2 ⟨hs, by omega⟩

/-- What is put together from basic steps restores what the rules one level down do. -/
theorem Uniform.restores {x : Below → Rule α} {below : Below} (hx : Uniform x)
    (hb : ∀ goal, Restores c (below goal)) : Restores c (x below) := by
  induction hx with
  | pure a => exact fun s => .refl _ s
  | failAt offset cause => exact fun s => .refl _ s
  | bind _ _ ihx ihf => exact ihx.bind ihf
  | look _ _ ih => exact fun s => ih s s
  | consult _ _ ih => exact fun s => ih c s
  | advance => exact fun s => s.comesTo_next _
  | reach levels => exact restores_reach levels
  | measured _ ih => exact ih.measured
  | withStructLiterals allowed _ ih => exact ih.withStructLiterals allowed
  | goal goal => exact hb goal

end Restoring

end MiniGo.Grammar
