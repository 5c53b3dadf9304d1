import MiniGo.Proofs.Grammar.Run

/-!
Reading known tokens, whatever the limit. A rule reads a list of tokens up to a rest with a result, or
it fails by the limit; what the limit has to be is not said here. States do not show either: the tokens
in front of the end of the input stand for them.
-/
namespace MiniGo.Grammar

def headKind : List Token → TokenKind
  | [] => .eof
  | t :: _ => t.kind

structure Reader where
  setting : Setting
  last : Token
  standard : setting.table = .standard
  ended : last.kind = .eof

/-- On the tokens `w` and the end of the input behind them, with struct literals allowed if `flag` says
so, the rule yields `a` and leaves `rest`, or fails by the limit. -/
def Recovers {α : Type} (c : Reader) (flag : Bool) (x : Rule α) (w : List Token) (a : α)
    (rest : List Token) : Prop :=
  ∀ s : State, s.tokens = w ++ [c.last] → s.structLiterals = flag →
    (∃ t, Rule.Runs x c.setting s a t ∧ t.tokens = rest ++ [c.last] ∧ t.structLiterals = flag) ∨
      ∃ k place t, x c.setting s = .error ⟨.limitExceeded k, place⟩ t

section Blocks

variable {α β : Type} {c : Reader} {flag : Bool} {x : Rule α} {f : α → Rule β}
  {w v rest : List Token} {a : α} {b : β}

theorem recovers_pure : Recovers c flag (pure a) w a w := by
  intro s hs hflag
  exact .inl ⟨s, runs_pure.2 ⟨rfl, rfl⟩, hs, hflag⟩

private theorem bind_eq_error {s t : State} {e : Error} (h : x c.setting s = .error e t) :
    (x >>= f) c.setting s = .error e t := by
  rw [bind_apply, h]

private theorem bind_eq_of_runs {s t : State} (h : Rule.Runs x c.setting s a t) :
    (x >>= f) c.setting s = f a c.setting t := by
  unfold Rule.Runs at h
  rw [bind_apply, h]

theorem Recovers.bind (hx : Recovers c flag x w a v) (hf : Recovers c flag (f a) v b rest) :
    Recovers c flag (x >>= f) w b rest := by
  intro s hs hflag
  rcases hx s hs hflag with ⟨t, hrun, ht, htflag⟩ | ⟨k, place, t, herror⟩
  · rcases hf t ht htflag with ⟨u, hrun', hu, huflag⟩ | ⟨k, place, u, herror⟩
    · exact .inl ⟨u, runs_bind.2 ⟨a, t, hrun, hrun'⟩, hu, huflag⟩
    · exact .inr ⟨k, place, u, (bind_eq_of_runs hrun).trans herror⟩
  · exact .inr ⟨k, place, t, bind_eq_error herror⟩

theorem recovers_bind_assoc {γ : Type} {g : β → Rule γ} {d : γ}
    (h : Recovers c flag (x >>= fun a => f a >>= g) w d rest) :
    Recovers c flag (x >>= f >>= g) w d rest := by
  rwa [bind_assoc]

theorem Recovers.map {g : α → β} (hx : Recovers c flag x w a rest) :
    Recovers c flag (g <$> x) w (g a) rest :=
  hx.bind (f := fun a => pure (g a)) recovers_pure

theorem recovers_if_pos {p : Prop} [Decidable p] {y : Rule α} (hp : p)
    (h : Recovers c flag x w a rest) : Recovers c flag (if p then x else y) w a rest := by
  rwa [if_pos hp]

theorem recovers_if_neg {p : Prop} [Decidable p] {y : Rule α} (hp : ¬ p)
    (h : Recovers c flag y w a rest) : Recovers c flag (if p then x else y) w a rest := by
  rwa [if_neg hp]

theorem recovers_read_bind {f : Setting → Rule β} (h : Recovers c flag (f c.setting) w b rest) :
    Recovers c flag (read >>= f) w b rest := h

theorem recovers_get_bind {f : State → Rule β}
    (h : ∀ s : State, s.structLiterals = flag → Recovers c flag (f s) w b rest) :
    Recovers c flag (get >>= f) w b rest :=
  fun s hs hflag => h s hflag s hs hflag

theorem recovers_current_bind {f : Token → Rule β} (h : ∀ k, Recovers c flag (f k) w b rest) :
    Recovers c flag (current >>= f) w b rest :=
  fun s hs hflag => h s.current s hs hflag

private theorem headKind_eq {s : State} (hs : s.tokens = w ++ [c.last]) :
    s.current.kind = headKind w := by
  cases w with
  | nil =>
    rw [(List.cons.inj hs).1]
    exact c.ended
  | cons t w =>
    rw [(List.cons.inj hs).1]
    rfl

theorem recovers_kind_bind {f : TokenKind → Rule β}
    (h : Recovers c flag (f (headKind w)) w b rest) : Recovers c flag (kind >>= f) w b rest := by
  intro s hs hflag
  rw [← headKind_eq hs] at h
  exact h s hs hflag

private theorem next_tokens {s : State} {k : Token} (hs : s.tokens = k :: w ++ [c.last]) :
    s.current = k ∧ s.next.tokens = w ++ [c.last] ∧ s.next.structLiterals = s.structLiterals := by
  obtain ⟨hcurrent, hlater⟩ := List.cons.inj hs
  unfold State.next State.tokens
  cases hl : s.later with
  | nil => simp [hl] at hlater
  | cons t ts =>
    rw [hl] at hlater
    exact ⟨hcurrent, hlater, rfl⟩

theorem recovers_kindAhead_bind {f : TokenKind → Rule β} {k : Token}
    (h : Recovers c flag (f (headKind w)) (k :: w) b rest) :
    Recovers c flag (kindAhead 1 >>= f) (k :: w) b rest := by
  intro s hs hflag
  have hahead : s.kindAhead 1 = headKind w := by
    obtain ⟨-, hlater⟩ := List.cons.inj hs
    unfold State.kindAhead
    rw [List.getElem?_cons_succ, hlater]
    cases w with
    | nil => exact c.ended
    | cons t w => rfl
  rw [← hahead] at h
  exact h s hs hflag

theorem recovers_advance {k : Token} : Recovers c flag advance (k :: w) k w := by
  intro s hs hflag
  obtain ⟨hcurrent, htokens, hflag'⟩ := next_tokens hs
  exact .inl ⟨s.next, runs_advance.2 ⟨hcurrent.symm, rfl⟩, htokens, hflag'.trans hflag⟩

theorem recovers_advance_bind {f : Token → Rule β} {k : Token}
    (h : Recovers c flag (f k) w b rest) : Recovers c flag (advance >>= f) (k :: w) b rest :=
  recovers_advance.bind h

theorem recovers_expect_bind {f : Token → Rule β} {k : Token} {wanted : TokenKind}
    (hk : k.kind = wanted) (h : Recovers c flag (f k) w b rest) :
    Recovers c flag (expect wanted >>= f) (k :: w) b rest :=
  Recovers.bind (recovers_kind_bind (recovers_if_pos hk recovers_advance)) h

theorem recovers_expectOr_bind {f : Token → Rule β} {k : Token} {wanted : TokenKind} {message : String}
    (hk : k.kind = wanted) (h : Recovers c flag (f k) w b rest) :
    Recovers c flag (expectOr wanted message >>= f) (k :: w) b rest :=
  Recovers.bind (recovers_kind_bind (recovers_if_pos hk recovers_advance)) h

theorem recovers_withStructLiterals {allowed : Bool} (h : Recovers c allowed x w a rest) :
    Recovers c flag (withStructLiterals allowed x) w a rest := by
  intro s hs hflag
  rcases h { s with structLiterals := allowed } hs rfl with ⟨t, hrun, ht, -⟩ | ⟨k, place, t, herror⟩
  · exact .inl ⟨_, runs_withStructLiterals.2 ⟨t, hrun, rfl⟩, ht, hflag⟩
  · exact .inr ⟨k, place, { t with structLiterals := s.structLiterals }, by
      rw [withStructLiterals_apply, herror]
      rfl⟩

theorem recovers_measured_bind {f : α × Nat → Rule β} (hx : Recovers c flag x w a v)
    (hf : ∀ n, Recovers c flag (f (a, n)) v b rest) :
    Recovers c flag (measured x >>= f) w b rest := by
  intro s hs hflag
  rcases hx { s with peak := s.depth } hs hflag with ⟨t, hrun, ht, htflag⟩ | ⟨k, place, t, herror⟩
  · have hmeasured : Rule.Runs (measured x) c.setting s (a, t.peak - t.depth)
        { t with peak := max t.peak s.peak } := runs_measured.2 ⟨t, hrun, rfl, rfl⟩
    unfold Rule.Runs
    rw [bind_eq_of_runs hmeasured]
    exact hf (t.peak - t.depth) { t with peak := max t.peak s.peak } ht htflag
  · refine .inr ⟨k, place, { t with peak := max t.peak s.peak }, bind_eq_error ?_⟩
    rw [measured_apply, herror]
    rfl

theorem recovers_reach {levels : Nat} : Recovers c flag (reach levels) w () w := by
  intro s hs hflag
  by_cases h : s.depth + levels ≤ c.setting.limit
  · exact .inl ⟨_, runs_reach.2 ⟨h, rfl⟩, hs, hflag⟩
  · refine .inr ⟨c.setting.limit, ⟨s.current.start, c.setting.file⟩, s, ?_⟩
    rw [reach_apply, if_pos (Nat.lt_of_not_le h)]
    rfl

theorem recovers_nested (h : Recovers c flag x w a rest) :
    Recovers c flag (nested x) w a rest := by
  refine recovers_reach.bind ?_
  intro s hs hflag
  rcases h { s with depth := s.depth + 1 } hs hflag with ⟨t, hrun, ht, htflag⟩ | ⟨k, place, t, herror⟩
  · refine .inl ⟨{ t with depth := t.depth - 1 }, ?_, ht, htflag⟩
    unfold Rule.Runs at hrun ⊢
    simp only [hrun]
  · exact .inr ⟨k, place, { t with depth := t.depth - 1 }, by simp only [herror]⟩

end Blocks

section Loops

variable {α : Type} {c : Reader} {flag : Bool} {w v rest : List Token}

/-- The loop goes on from `a` while there are tokens, however many turns it has left for them. -/
def RecoversLoop (c : Reader) (flag : Bool) (turn : α → Rule (Turn α))
    (w : List Token) (a b : α) (rest : List Token) : Prop :=
  ∀ turns : List Token, w.length ≤ turns.length → Recovers c flag (loopFrom turn turns a) w b rest

theorem RecoversLoop.done {turn : α → Rule (Turn α)} {a b : α}
    (h : Recovers c flag (turn a) w (.done b) rest) : RecoversLoop c flag turn w a b rest := by
  intro turns _
  cases turns with
  | nil => exact h.bind recovers_pure
  | cons k turns => exact h.bind recovers_pure

theorem RecoversLoop.more {turn : α → Rule (Turn α)} {a b d : α}
    (h : Recovers c flag (turn a) w (.more d) v) (hlt : v.length < w.length)
    (hrest : RecoversLoop c flag turn v d b rest) : RecoversLoop c flag turn w a b rest := by
  intro turns hturns
  cases turns with
  | nil =>
    rw [List.length_nil] at hturns
    omega
  | cons k turns =>
    rw [List.length_cons] at hturns
    exact h.bind (hrest turns (by omega))

theorem length_later {s : State} (hs : s.tokens = w ++ [c.last]) : w.length = s.later.length := by
  have hlength := congrArg List.length hs
  simp only [State.tokens, List.length_cons, List.length_append, List.length_nil] at hlength
  omega

theorem recovers_loop {turn : α → Rule (Turn α)} {a b : α}
    (h : RecoversLoop c flag turn w a b rest) : Recovers c flag (loop a turn) w b rest := by
  intro s hs hflag
  exact h s.later (Nat.le_of_eq (length_later hs)) s hs hflag

/-- The rule yields the elements of a list one by one, and nothing more. -/
def RecoversMany (c : Reader) (flag : Bool) (rule : Rule (Option α))
    (w : List Token) (as : List α) (rest : List Token) : Prop :=
  ∀ found, RecoversLoop c flag (manyTurn rule) w found (found ++ as) rest

theorem RecoversMany.nil {rule : Rule (Option α)} (h : Recovers c flag rule w none rest) :
    RecoversMany c flag rule w [] rest := by
  intro found
  rw [List.append_nil]
  exact .done (h.bind recovers_pure)

theorem RecoversMany.cons {rule : Rule (Option α)} {a : α} {as : List α}
    (h : Recovers c flag rule w (some a) v) (hlt : v.length < w.length)
    (hrest : RecoversMany c flag rule v as rest) :
    RecoversMany c flag rule w (a :: as) rest := by
  intro found
  have hmore := hrest (found ++ [a])
  rw [List.append_assoc] at hmore
  exact .more (h.bind recovers_pure) hlt hmore

theorem recovers_many {rule : Rule (Option α)} {as : List α}
    (h : RecoversMany c flag rule w as rest) : Recovers c flag (many rule) w as rest := by
  rw [many_eq]
  exact recovers_loop (h [])

/-- Texts one behind the other, where each may be followed by whatever may follow the last. -/
theorem recovers_many_map {β : Type} {rule : Rule (Option α)} {bs : List β} {g : β → α}
    {text : β → List Token} {more : List Token} (Follows : List Token → Prop) (hmore : Follows more)
    (hend : Recovers c flag rule more none rest)
    (hitem : ∀ b ∈ bs, ∀ more, Follows more → Follows (text b ++ more) ∧ text b ≠ [] ∧
      Recovers c flag rule (text b ++ more) (some (g b)) more) :
    Recovers c flag (many rule) (bs.flatMap text ++ more) (bs.map g) rest := by
  have key : Follows (bs.flatMap text ++ more) ∧
      RecoversMany c flag rule (bs.flatMap text ++ more) (bs.map g) rest := by
    induction bs with
    | nil => exact ⟨hmore, .nil hend⟩
    | cons b bs ih =>
      obtain ⟨hb, hbs⟩ := List.forall_mem_cons.1 hitem
      obtain ⟨hfollows, hrest⟩ := ih hbs
      obtain ⟨hfollows', hne, hread⟩ := hb _ hfollows
      rw [List.flatMap_cons, List.append_assoc]
      refine ⟨hfollows', .cons hread ?_ hrest⟩
      have := List.length_pos_iff.2 hne
      simp only [List.length_append]
      omega
  exact recovers_many key.2

theorem recovers_many_flatMap {rule : Rule (Option α)} {as : List α} {text : α → List Token}
    {more : List Token} (Follows : List Token → Prop) (hmore : Follows more)
    (hend : Recovers c flag rule more none rest)
    (hitem : ∀ a ∈ as, ∀ more, Follows more → Follows (text a ++ more) ∧ text a ≠ [] ∧
      Recovers c flag rule (text a ++ more) (some a) more) :
    Recovers c flag (many rule) (as.flatMap text ++ more) as rest := by
  have h := recovers_many_map (g := id) Follows hmore hend hitem
  rwa [List.map_id] at h

theorem recovers_skipSemicolons_bind {β : Type} {f : Unit → Rule β} {b : β}
    (hw : headKind w ≠ .semicolon) (h : Recovers c flag (f ()) w b rest) :
    Recovers c flag (skipSemicolons >>= f) w b rest := by
  have hskip : Recovers c flag skipSemicolons w () w :=
    recovers_loop (.done (recovers_kind_bind (recovers_if_neg hw recovers_pure)))
  exact hskip.bind h

end Loops

end MiniGo.Grammar
