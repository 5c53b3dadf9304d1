import MiniGo.Grammar

/-!
Runs of rules. What a building block makes of the rules in it comes first, whether they succeed or not. Then
each gets one lemma that says when it succeeds, with what result and in which state; runs of whole rules are
opened with them.
-/
namespace MiniGo.Grammar

/-- The tokens from the current one on. -/
def State.tokens (s : State) : List Token := s.current :: s.later

/-- The rule succeeds on a state, with a result and a state behind it. -/
def Rule.Runs {α : Type} (x : Rule α) (c : Setting) (s : State) (a : α) (t : State) : Prop :=
  x c s = .ok a t

/-- The tokens end with an end of the input, as those of every state on a list of tokens do. -/
def State.Ended (s : State) : Prop := s.tokens.getLast?.map Token.kind = some .eof

/-- The tokens `w` lie between two states that allow struct literals alike. -/
def Passes (s : State) (w : List Token) (t : State) : Prop :=
  s.tokens = w ++ t.tokens ∧ t.structLiterals = s.structLiterals

theorem Passes.refl (s : State) : Passes s [] s := ⟨rfl, rfl⟩

theorem Passes.trans {s t u : State} {v w : List Token} (h : Passes s v t) (h' : Passes t w u) :
    Passes s (v ++ w) u :=
  ⟨by rw [h.1, h'.1, List.append_assoc], h'.2.trans h.2⟩

theorem Passes.length_lt {s t : State} {w : List Token} (h : Passes s w t) (hw : w ≠ []) :
    t.later.length < s.later.length := by
  have hlen := congrArg List.length h.1
  have hpos := List.length_pos_iff.2 hw
  simp only [State.tokens, List.length_append, List.length_cons] at hlen
  omega

theorem getLast?_append_tokens (w : List Token) (t : State) :
    (w ++ t.tokens).getLast? = t.tokens.getLast? := by
  rw [List.getLast?_append, State.tokens, List.getLast?_cons]
  rfl

theorem State.Ended.of_passes {s t : State} {w : List Token} (hs : s.Ended) (h : Passes s w t) :
    t.Ended := by
  unfold State.Ended at hs ⊢
  rwa [h.1, getLast?_append_tokens] at hs

theorem State.Ended.passes_next {s : State} (hs : s.Ended) (hk : s.current.kind ≠ .eof) :
    Passes s [s.current] s.next := by
  unfold State.Ended State.tokens at hs
  unfold Passes State.next State.tokens
  cases hl : s.later with
  | nil => simp [hl, hk] at hs
  | cons k ks => exact ⟨rfl, rfl⟩

theorem State.tokens_ofTokens (tokens : List Token) :
    (State.ofTokens tokens).tokens = tokens ∨
      ∃ offset, (State.ofTokens tokens).tokens = tokens ++ [Token.endOfInput offset] := by
  unfold State.ofTokens
  cases tokens with
  | nil => exact .inr ⟨0, rfl⟩
  | cons k ks =>
    rw [List.getLast?_cons]
    by_cases hk : (ks.getLast?.getD k).kind = .eof
    · left
      simp only [hk, if_true]
      rfl
    · right
      refine ⟨(ks.getLast?.getD k).stop, ?_⟩
      simp only [hk, if_false]
      rfl

theorem State.ended_ofTokens (tokens : List Token) : (State.ofTokens tokens).Ended := by
  cases h : tokens.getLast? with
  | none =>
    rw [List.getLast?_eq_none_iff] at h
    subst h
    rfl
  | some last =>
    obtain ⟨init, rfl⟩ := List.getLast?_eq_some_iff.1 h
    unfold State.ofTokens State.Ended
    by_cases hk : last.kind = .eof
    · simp only [h, hk, if_true]
      cases init <;> simp [State.tokens, List.getLast?_cons, hk]
    · simp only [h, hk, if_false]
      cases init <;> simp [State.tokens, List.getLast?_cons, Token.endOfInput]

section Results

variable {α β : Type} {x : Rule α} {f : α → Rule β} {s t : State}

/-- What is made of the result and the state of a rule; the state of an error changes alike. -/
def finish (g : α → State → β) (k : State → State) :
    EStateM.Result Error State α → EStateM.Result Error State β
  | .ok a t => .ok (g a t) (k t)
  | .error e t => .error e (k t)

def deeper (rule : Rule α) : Rule α := fun setting s =>
  match rule setting { s with depth := s.depth + 1 } with
  | .ok a t => .ok a { t with depth := t.depth - 1 }
  | .error e t => .error e { t with depth := t.depth - 1 }

theorem finish_eq_ok {g : α → State → β} {k : State → State} {r : EStateM.Result Error State α} {b : β} :
    finish g k r = .ok b t ↔ ∃ a u, r = .ok a u ∧ b = g a u ∧ t = k u := by
  cases r with
  | ok a u =>
    rw [finish, EStateM.Result.ok.injEq]
    constructor
    · rintro ⟨rfl, rfl⟩
      exact ⟨a, u, rfl, rfl, rfl⟩
    · rintro ⟨_, _, ⟨⟩, rfl, rfl⟩
      exact ⟨rfl, rfl⟩
  | error e u => simp [finish]

theorem bind_apply (setting : Setting) : (x >>= f) setting s =
    match x setting s with
    | .ok a t => f a setting t
    | .error e t => .error e t := by
  simp only [bind, ReaderT.bind, EStateM.bind]
  cases x setting s <;> rfl

@[simp] theorem read_bind_apply (setting : Setting) (f : Setting → Rule β) :
    (read >>= f) setting s = f setting setting s := rfl

@[simp] theorem kind_bind_apply (setting : Setting) (f : TokenKind → Rule β) :
    (kind >>= f) setting s = f s.current.kind setting s := rfl

theorem reach_apply (setting : Setting) (levels : Nat) :
    reach levels setting s = if setting.limit < s.depth + levels then
      fail (.limitExceeded setting.limit) setting s
    else .ok () { s with peak := max s.peak (s.depth + levels) } := by
  change (if setting.limit < s.depth + levels then fail (.limitExceeded setting.limit)
    else set { s with peak := max s.peak (s.depth + levels) } : Rule Unit) setting s = _
  split <;> rfl

theorem withStructLiterals_apply (setting : Setting) (allowed : Bool) :
    withStructLiterals allowed x setting s =
      finish (fun a _ => a) (fun t => { t with structLiterals := s.structLiterals })
        (x setting { s with structLiterals := allowed }) := by
  unfold withStructLiterals
  cases x setting { s with structLiterals := allowed } <;> rfl

theorem measured_apply (setting : Setting) :
    measured x setting s =
      finish (fun a t => (a, t.peak - t.depth)) (fun t => { t with peak := max t.peak s.peak })
        (x setting { s with peak := s.depth }) := by
  unfold measured
  cases x setting { s with peak := s.depth } <;> rfl

theorem deeper_apply (setting : Setting) :
    deeper x setting s = finish (fun a _ => a) (fun t => { t with depth := t.depth - 1 })
      (x setting { s with depth := s.depth + 1 }) := by
  unfold deeper
  cases x setting { s with depth := s.depth + 1 } <;> rfl

theorem nested_eq (x : Rule α) : nested x = reach 1 >>= fun _ => deeper x := rfl

theorem nested_apply {setting : Setting} (h : s.depth < setting.limit) :
    nested x setting s = finish (fun a _ => a) (fun t => { t with depth := t.depth - 1 })
      (x setting { s with depth := s.depth + 1, peak := max s.peak (s.depth + 1) }) := by
  rw [nested_eq, bind_apply, reach_apply, if_neg (Nat.not_lt_of_le h)]
  exact deeper_apply setting

end Results

section Blocks

variable {α β : Type} {c : Setting} {s t : State} {a : α} {b : β}

theorem runs_bind {x : Rule α} {f : α → Rule β} :
    Rule.Runs (x >>= f) c s b t ↔ ∃ a u, Rule.Runs x c s a u ∧ Rule.Runs (f a) c u b t := by
  simp only [Rule.Runs, bind, ReaderT.bind, EStateM.bind]
  cases x c s with
  | ok a u =>
    simp only [EStateM.Result.ok.injEq]
    exact ⟨fun h => ⟨a, u, ⟨rfl, rfl⟩, h⟩, fun ⟨_, _, ⟨ha, hu⟩, h⟩ => ha ▸ hu ▸ h⟩
  | error e u => simp

@[simp] theorem runs_pure {a' : α} : Rule.Runs (pure a') c s a t ↔ a = a' ∧ t = s := by
  change EStateM.Result.ok a' s = .ok a t ↔ _
  simp [eq_comm]

@[simp] theorem runs_map {x : Rule α} {f : α → β} :
    Rule.Runs (f <$> x) c s b t ↔ ∃ a, Rule.Runs x c s a t ∧ b = f a := by
  change Rule.Runs (x >>= fun a => pure (f a)) c s b t ↔ _
  simp only [runs_bind, runs_pure]
  exact ⟨fun ⟨a, _, hx, hb, ht⟩ => ⟨a, ht ▸ hx, hb⟩, fun ⟨a, hx, hb⟩ => ⟨a, t, hx, hb, rfl⟩⟩

theorem runs_ite {p : Prop} [Decidable p] {x y : Rule α} :
    Rule.Runs (if p then x else y) c s a t ↔
      (p ∧ Rule.Runs x c s a t) ∨ (¬ p ∧ Rule.Runs y c s a t) := by
  split <;> simp [*]

@[simp] theorem runs_set {u : State} {i : Unit} : Rule.Runs (set u) c s i t ↔ t = u := by
  change EStateM.Result.ok () u = .ok i t ↔ _
  simp [eq_comm]

@[simp] theorem runs_advance {k : Token} : Rule.Runs advance c s k t ↔ k = s.current ∧ t = s.next := by
  change EStateM.Result.ok s.current s.next = .ok k t ↔ _
  simp [eq_comm]

@[simp] theorem not_runs_failAt {offset : Text.Offset} {cause : Cause} :
    ¬ Rule.Runs (failAt offset cause) c s a t := nofun

@[simp] theorem not_runs_fail {cause : Cause} : ¬ Rule.Runs (fail cause) c s a t := nofun

@[simp] theorem not_runs_unexpected {message : String} :
    ¬ Rule.Runs (unexpected message) c s a t := nofun

/-! Rules that start with a step of which the result is known go on from there. -/

@[simp] theorem runs_get_bind {f : State → Rule β} :
    Rule.Runs (get >>= f) c s b t ↔ Rule.Runs (f s) c s b t := Iff.rfl

@[simp] theorem runs_read_bind {f : Setting → Rule β} :
    Rule.Runs (read >>= f) c s b t ↔ Rule.Runs (f c) c s b t := Iff.rfl

@[simp] theorem runs_current_bind {f : Token → Rule β} :
    Rule.Runs (current >>= f) c s b t ↔ Rule.Runs (f s.current) c s b t := Iff.rfl

@[simp] theorem runs_kind_bind {f : TokenKind → Rule β} :
    Rule.Runs (kind >>= f) c s b t ↔ Rule.Runs (f s.current.kind) c s b t := Iff.rfl

@[simp] theorem runs_kindAhead_bind {n : Nat} {f : TokenKind → Rule β} :
    Rule.Runs (kindAhead n >>= f) c s b t ↔ Rule.Runs (f (s.kindAhead n)) c s b t := Iff.rfl

@[simp] theorem runs_advance_bind {f : Token → Rule β} :
    Rule.Runs (advance >>= f) c s b t ↔ Rule.Runs (f s.current) c s.next b t := Iff.rfl

theorem runs_expect {k : TokenKind} {x : Token} :
    Rule.Runs (expect k) c s x t ↔ s.current.kind = k ∧ x = s.current ∧ t = s.next := by
  simp only [expect, runs_kind_bind, runs_current_bind, runs_ite, runs_advance, not_runs_fail,
    and_false, or_false]

theorem runs_expectOr {k : TokenKind} {message : String} {x : Token} :
    Rule.Runs (expectOr k message) c s x t ↔ s.current.kind = k ∧ x = s.current ∧ t = s.next := by
  simp only [expectOr, runs_kind_bind, runs_ite, runs_advance, not_runs_unexpected, and_false,
    or_false]

@[simp] theorem runs_expect_bind {k : TokenKind} {f : Token → Rule β} :
    Rule.Runs (expect k >>= f) c s b t ↔
      s.current.kind = k ∧ Rule.Runs (f s.current) c s.next b t := by
  simp only [runs_bind, runs_expect, and_assoc, exists_and_left, exists_eq_left]

@[simp] theorem runs_expectOr_bind {k : TokenKind} {message : String} {f : Token → Rule β} :
    Rule.Runs (expectOr k message >>= f) c s b t ↔
      s.current.kind = k ∧ Rule.Runs (f s.current) c s.next b t := by
  simp only [runs_bind, runs_expectOr, and_assoc, exists_and_left, exists_eq_left]

theorem runs_reach {levels : Nat} {i : Unit} :
    Rule.Runs (reach levels) c s i t ↔
      s.depth + levels ≤ c.limit ∧ t = { s with peak := max s.peak (s.depth + levels) } := by
  simp only [reach, runs_get_bind, runs_read_bind, runs_ite, runs_set, not_runs_fail, and_false,
    false_or, Nat.not_lt]

theorem runs_withStructLiterals {allowed : Bool} {x : Rule α} :
    Rule.Runs (withStructLiterals allowed x) c s a t ↔
      ∃ u, Rule.Runs x c { s with structLiterals := allowed } a u ∧
        t = { u with structLiterals := s.structLiterals } := by
  unfold Rule.Runs
  rw [withStructLiterals_apply, finish_eq_ok]
  exact ⟨fun ⟨_, u, hx, ha, ht⟩ => ⟨u, ha ▸ hx, ht⟩, fun ⟨u, hx, ht⟩ => ⟨a, u, hx, rfl, ht⟩⟩

theorem runs_measured {x : Rule α} {n : Nat} :
    Rule.Runs (measured x) c s (a, n) t ↔
      ∃ u, Rule.Runs x c { s with peak := s.depth } a u ∧ n = u.peak - u.depth ∧
        t = { u with peak := max u.peak s.peak } := by
  unfold Rule.Runs
  rw [measured_apply, finish_eq_ok]
  simp only [Prod.mk.injEq]
  exact ⟨fun ⟨_, u, hx, ⟨ha, hn⟩, ht⟩ => ⟨u, ha ▸ hx, hn, ht⟩,
    fun ⟨u, hx, hn, ht⟩ => ⟨a, u, hx, ⟨rfl, hn⟩, ht⟩⟩

theorem runs_deeper {x : Rule α} :
    Rule.Runs (deeper x) c s a t ↔
      ∃ u, Rule.Runs x c { s with depth := s.depth + 1 } a u ∧ t = { u with depth := u.depth - 1 } := by
  unfold Rule.Runs
  rw [deeper_apply, finish_eq_ok]
  exact ⟨fun ⟨_, u, hx, ha, ht⟩ => ⟨u, ha ▸ hx, ht⟩, fun ⟨u, hx, ht⟩ => ⟨a, u, hx, rfl, ht⟩⟩

theorem runs_nested {x : Rule α} :
    Rule.Runs (nested x) c s a t ↔
      s.depth + 1 ≤ c.limit ∧
        ∃ u, Rule.Runs x c { s with depth := s.depth + 1, peak := max s.peak (s.depth + 1) } a u ∧
          t = { u with depth := u.depth - 1 } := by
  rw [nested_eq, runs_bind]
  simp only [runs_reach, runs_deeper]
  constructor
  · rintro ⟨_, _, ⟨hlimit, rfl⟩, h⟩
    exact ⟨hlimit, h⟩
  · rintro ⟨hlimit, h⟩
    exact ⟨(), _, ⟨hlimit, rfl⟩, h⟩

end Blocks

section Loops

variable {α : Type} {c : Setting} {s t : State} {a b : α} {turn : α → Rule (Turn α)}

theorem runs_loopFrom_nil :
    Rule.Runs (loopFrom turn [] a) c s b t ↔
      Rule.Runs (turn a) c s (.more b) t ∨ Rule.Runs (turn a) c s (.done b) t := by
  simp only [loopFrom, runs_bind]
  constructor
  · rintro ⟨x, u, hx, h⟩
    cases x with
    | more d =>
      obtain ⟨rfl, rfl⟩ := runs_pure.1 h
      exact .inl hx
    | done d =>
      obtain ⟨rfl, rfl⟩ := runs_pure.1 h
      exact .inr hx
  · rintro (hx | hx)
    · exact ⟨_, _, hx, runs_pure.2 ⟨rfl, rfl⟩⟩
    · exact ⟨_, _, hx, runs_pure.2 ⟨rfl, rfl⟩⟩

theorem runs_loopFrom_cons {k : Token} {turns : List Token} :
    Rule.Runs (loopFrom turn (k :: turns) a) c s b t ↔
      (∃ d u, Rule.Runs (turn a) c s (.more d) u ∧ Rule.Runs (loopFrom turn turns d) c u b t) ∨
        Rule.Runs (turn a) c s (.done b) t := by
  simp only [loopFrom, runs_bind]
  constructor
  · rintro ⟨x, u, hx, h⟩
    cases x with
    | more d => exact .inl ⟨d, u, hx, h⟩
    | done d =>
      obtain ⟨rfl, rfl⟩ := runs_pure.1 h
      exact .inr hx
  · rintro (⟨d, u, hx, h⟩ | hx)
    · exact ⟨_, _, hx, h⟩
    · exact ⟨_, _, hx, runs_pure.2 ⟨rfl, rfl⟩⟩

theorem runs_loop :
    Rule.Runs (loop a turn) c s b t ↔ Rule.Runs (loopFrom turn s.later a) c s b t := by
  simp only [loop, runs_get_bind]

/-- Turns one behind the other, each of which passes a token, and a last one. -/
inductive Turns (turn : α → Rule (Turn α)) (c : Setting) : State → α → α → State → Prop where
  | done {s t : State} {a b : α} (h : Rule.Runs (turn a) c s (.done b) t) : Turns turn c s a b t
  | more {s t u : State} {a b d : α} (h : Rule.Runs (turn a) c s (.more d) t)
      (hlt : t.later.length < s.later.length) (hrest : Turns turn c t d b u) : Turns turn c s a b u

theorem Turns.loop_runs (h : Turns turn c s a b t) : Rule.Runs (loop a turn) c s b t := by
  have key : ∀ turns, s.later.length ≤ turns.length →
      Rule.Runs (loopFrom turn turns a) c s b t := by
    induction h with
    | done h =>
      intro turns _
      cases turns with
      | nil => exact runs_loopFrom_nil.2 (.inr h)
      | cons k turns => exact runs_loopFrom_cons.2 (.inr h)
    | more h hlt _ ih =>
      intro turns hlen
      cases turns with
      | nil =>
        rw [List.length_nil] at hlen
        omega
      | cons k turns =>
        rw [List.length_cons] at hlen
        exact runs_loopFrom_cons.2 (.inl ⟨_, _, h, ih turns (by omega)⟩)
  exact runs_loop.2 (key s.later (Nat.le_refl _))

theorem loop_invariant {I : α → State → Prop}
    (hmore : ∀ a s b t, I a s → Rule.Runs (turn a) c s (.more b) t → I b t)
    (hdone : ∀ a s b t, I a s → Rule.Runs (turn a) c s (.done b) t → I b t)
    (h : Rule.Runs (loop a turn) c s b t) (hI : I a s) : I b t := by
  have key : ∀ turns a s, I a s → Rule.Runs (loopFrom turn turns a) c s b t → I b t := by
    intro turns
    induction turns with
    | nil =>
      intro a s hI h
      rcases runs_loopFrom_nil.1 h with h | h
      · exact hmore a s b t hI h
      · exact hdone a s b t hI h
    | cons k turns ih =>
      intro a s hI h
      rcases runs_loopFrom_cons.1 h with ⟨d, u, hd, h⟩ | h
      · exact ih d u (hmore a s d u hI hd) h
      · exact hdone a s b t hI h
  exact key s.later a s hI (runs_loop.1 h)

/-- When every turn but the last passes a token, the loop ends in a last turn: the tokens at the start
bound the number of turns. -/
theorem loop_induction {I Q : α → State → Prop}
    (hmore : ∀ a s b t, I a s → Rule.Runs (turn a) c s (.more b) t →
      I b t ∧ t.later.length < s.later.length)
    (hdone : ∀ a s b t, I a s → Rule.Runs (turn a) c s (.done b) t → Q b t)
    (h : Rule.Runs (loop a turn) c s b t) (hI : I a s) : Q b t := by
  have key : ∀ turns a s, s.later.length ≤ turns.length → I a s →
      Rule.Runs (loopFrom turn turns a) c s b t → Q b t := by
    intro turns
    induction turns with
    | nil =>
      intro a s hlen hI h
      rcases runs_loopFrom_nil.1 h with h | h
      · have hlt := (hmore a s b t hI h).2
        rw [List.length_nil] at hlen
        omega
      · exact hdone a s b t hI h
    | cons k turns ih =>
      intro a s hlen hI h
      rcases runs_loopFrom_cons.1 h with ⟨d, u, hd, h⟩ | h
      · obtain ⟨hIu, hlt⟩ := hmore a s d u hI hd
        rw [List.length_cons] at hlen
        exact ih d u (by omega) hIu h
      · exact hdone a s b t hI h
  exact key s.later a s (Nat.le_refl _) hI (runs_loop.1 h)

end Loops

section Repetition

variable {α : Type} {c : Setting} {s t : State} {rule : Rule (Option α)}

/-- Runs of a rule one behind the other, each of which passes a token and yields something, and a last
one that yields nothing. -/
inductive Repeats (rule : Rule (Option α)) (c : Setting) : State → List α → State → Prop where
  | done {s t : State} (h : Rule.Runs rule c s none t) : Repeats rule c s [] t
  | more {s t u : State} {a : α} {as : List α} (h : Rule.Runs rule c s (some a) t)
      (hlt : t.later.length < s.later.length) (hrest : Repeats rule c t as u) :
      Repeats rule c s (a :: as) u

def manyTurn (rule : Rule (Option α)) (found : List α) : Rule (Turn (List α)) := do
  match ← rule with
  | some a => return .more (found ++ [a])
  | none => return .done found

theorem many_eq (rule : Rule (Option α)) : many rule = loop [] (manyTurn rule) := rfl

theorem runs_manyTurn {found : List α} {x : Turn (List α)} :
    Rule.Runs (manyTurn rule found) c s x t ↔
      (∃ a, Rule.Runs rule c s (some a) t ∧ x = .more (found ++ [a])) ∨
        Rule.Runs rule c s none t ∧ x = .done found := by
  simp only [manyTurn, runs_bind]
  constructor
  · rintro ⟨o, u, ho, h⟩
    cases o with
    | none =>
      obtain ⟨hx, rfl⟩ := runs_pure.1 h
      exact .inr ⟨ho, hx⟩
    | some a =>
      obtain ⟨hx, rfl⟩ := runs_pure.1 h
      exact .inl ⟨a, ho, hx⟩
  · rintro (⟨a, ho, hx⟩ | ⟨ho, hx⟩)
    · exact ⟨some a, t, ho, runs_pure.2 ⟨hx, rfl⟩⟩
    · exact ⟨none, t, ho, runs_pure.2 ⟨hx, rfl⟩⟩

theorem repeats_of_many {I : State → Prop}
    (hprogress : ∀ s a t, I s → Rule.Runs rule c s (some a) t →
      I t ∧ t.later.length < s.later.length) (hI : I s) {as : List α}
    (h : Rule.Runs (many rule) c s as t) : Repeats rule c s as t := by
  have key : ∀ turns found s, s.later.length ≤ turns.length → I s →
      Rule.Runs (loopFrom (manyTurn rule) turns found) c s as t →
        ∃ bs, as = found ++ bs ∧ Repeats rule c s bs t := by
    intro turns
    induction turns with
    | nil =>
      intro found s hlen hI h
      simp only [runs_loopFrom_nil, runs_manyTurn, reduceCtorEq, and_false, or_false, false_or,
        exists_false] at h
      rcases h with ⟨a, ha, -⟩ | ⟨hnone, hfound⟩
      · have hlt := (hprogress s a t hI ha).2
        rw [List.length_nil] at hlen
        omega
      · cases hfound
        exact ⟨[], (List.append_nil _).symm, .done hnone⟩
    | cons k turns ih =>
      intro found s hlen hI h
      simp only [runs_loopFrom_cons, runs_manyTurn, reduceCtorEq, and_false, or_false, false_or,
        exists_false] at h
      rcases h with ⟨_, u, ⟨a, ha, hd⟩, h⟩ | ⟨hnone, hfound⟩
      · cases hd
        obtain ⟨hIu, hlt⟩ := hprogress s a u hI ha
        rw [List.length_cons] at hlen
        obtain ⟨bs, rfl, hbs⟩ := ih (found ++ [a]) u (by omega) hIu h
        exact ⟨a :: bs, by simp, .more ha hlt hbs⟩
      · cases hfound
        exact ⟨[], (List.append_nil _).symm, .done hnone⟩
  rw [many_eq, runs_loop] at h
  obtain ⟨bs, rfl, hbs⟩ := key s.later [] s (Nat.le_refl _) hI h
  exact hbs

theorem Repeats.turns {as : List α} (h : Repeats rule c s as t) (found : List α) :
    Turns (manyTurn rule) c s found (found ++ as) t := by
  induction h generalizing found with
  | done h =>
    rw [List.append_nil]
    exact .done (runs_manyTurn.2 (.inr ⟨h, rfl⟩))
  | @more s t u a as ha hlt hrest ih =>
    have hturns := ih (found ++ [a])
    rw [List.append_assoc] at hturns
    exact .more (runs_manyTurn.2 (.inl ⟨a, ha, rfl⟩)) hlt hturns

theorem Repeats.runs_many {as : List α} (h : Repeats rule c s as t) :
    Rule.Runs (many rule) c s as t := by
  rw [many_eq]
  exact (h.turns []).loop_runs

def separatedItem (close : TokenKind) (message : String) (item : Rule α) : Rule (Option α) := do
  if (← kind) = close then return none
  else
    let a ← item
    if (← kind) = close then return some a
    else
      let _ ← expectOr .comma message
      return some a

theorem separated_eq (close : TokenKind) (message : String) (item : Rule α) :
    separated close message item = many (separatedItem close message item) := rfl

theorem runs_separatedItem_none {close : TokenKind} {message : String} {item : Rule α} :
    Rule.Runs (separatedItem close message item) c s none t ↔ s.current.kind = close ∧ t = s := by
  simp only [separatedItem, runs_kind_bind, runs_ite, runs_pure, true_and]
  rw [runs_bind]
  simp only [runs_kind_bind, runs_ite, runs_pure, runs_expectOr_bind, reduceCtorEq, false_and,
    and_false, or_false, exists_false]

theorem runs_separatedItem_some {close : TokenKind} {message : String} {item : Rule α} {a : α} :
    Rule.Runs (separatedItem close message item) c s (some a) t ↔
      s.current.kind ≠ close ∧ ∃ u, Rule.Runs item c s a u ∧
        (u.current.kind = close ∧ t = u ∨
          u.current.kind ≠ close ∧ u.current.kind = .comma ∧ t = u.next) := by
  simp only [separatedItem, runs_kind_bind, runs_ite, runs_pure, reduceCtorEq, false_and, and_false,
    false_or]
  rw [runs_bind]
  simp only [runs_kind_bind, runs_ite, runs_pure, runs_expectOr_bind, Option.some.injEq]
  constructor
  · rintro ⟨hk, b, u, hb, ⟨hu, rfl, ht⟩ | ⟨hu, hcomma, rfl, ht⟩⟩
    · exact ⟨hk, u, hb, .inl ⟨hu, ht⟩⟩
    · exact ⟨hk, u, hb, .inr ⟨hu, hcomma, ht⟩⟩
  · rintro ⟨hk, u, hb, ⟨hu, ht⟩ | ⟨hu, hcomma, ht⟩⟩
    · exact ⟨hk, a, u, hb, .inl ⟨hu, rfl, ht⟩⟩
    · exact ⟨hk, a, u, hb, .inr ⟨hu, hcomma, rfl, ht⟩⟩

end Repetition

section Statements

variable {c : Setting} {s t : State} {n : Node}

theorem runs_terminator {i : Unit} :
    Rule.Runs terminator c s i t ↔
      s.current.kind = .semicolon ∧ t = s.next ∨
        s.current.kind ∈ [TokenKind.closeCurly, .closeParen, .eof] ∧ t = s := by
  unfold terminator
  rw [runs_kind_bind]
  cases hk : s.current.kind
  case semicolon =>
    change Rule.Runs (advance >>= fun _ => pure ()) c s i t ↔ _
    rw [runs_advance_bind, runs_pure]
    simp
  all_goals simp

theorem runs_terminated {rule : Rule Node} :
    Rule.Runs (terminated rule) c s n t ↔
      ∃ u, Rule.Runs rule c s n u ∧ Rule.Runs terminator c u () t := by
  unfold terminated
  simp only [runs_bind, runs_pure]
  constructor
  · rintro ⟨_, u, hrule, _, _, hend, rfl, rfl⟩
    exact ⟨u, hrule, hend⟩
  · rintro ⟨u, hrule, hend⟩
    exact ⟨n, u, hrule, (), t, hend, rfl, rfl⟩

end Statements

def nameEnd (found : List Node × List String) : Rule (Turn (List Node × List String)) := do
  if (← kind) = .comma then
    let _ ← advance
    return .more found
  else return .done found

end MiniGo.Grammar
