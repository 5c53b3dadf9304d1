import MiniGo.Proofs.Grammar.Precedence.Soundness

/-!
The expression rule reads everything that the precedence grammar derives, if the token behind it does
not continue it. An expression never reaches more levels down than it has tokens, so a limit that
leaves room for those is large enough.
-/
namespace MiniGo.Grammar

namespace Level

/-- The tightest power at which expressions of a level are still read as a whole. -/
def within : Level → Power
  | .or => .lowest
  | .and => .logicalOr
  | .relational => .logicalAnd
  | .additive => .relational
  | .multiplicative => .additive
  | .unary | .suffixed | .primary => .unary

/-- The tightest power of an operator that may follow an expression of a level. -/
def power : Level → Power
  | .or => .logicalOr
  | .and => .logicalAnd
  | .relational => .relational
  | .additive => .additive
  | .multiplicative => .multiplicative
  | .unary => .unary
  | .suffixed | .primary => .member

private theorem within_rank_le {ℓ m : Level} (h : ℓ.rank ≤ m.rank) : ℓ.within.rank ≤ m.within.rank := by
  revert h
  cases ℓ <;> cases m <;> decide

private theorem power_rank_le {ℓ m : Level} (h : ℓ.rank ≤ m.rank) : ℓ.power.rank ≤ m.power.rank := by
  revert h
  cases ℓ <;> cases m <;> decide

private theorem within_rank_le_power (ℓ : Level) : ℓ.within.rank ≤ ℓ.power.rank := by
  cases ℓ <;> decide

private theorem operator_of_mem {ℓ : Level} {k : TokenKind} (h : k ∈ ℓ.operators) :
    Table.standard.operator k = some (ℓ.power, .binary) ∧ ℓ.within.rank < ℓ.power.rank ∧
      ℓ.power.rank ≤ ℓ.tighter.within.rank := by
  cases ℓ <;> simp only [operators, List.mem_cons, List.not_mem_nil, or_false] at h
  case or => exact h ▸ ⟨rfl, by decide, by decide⟩
  case and => exact h ▸ ⟨rfl, by decide, by decide⟩
  case relational =>
    rcases h with rfl | rfl | rfl | rfl | rfl | rfl <;> exact ⟨rfl, by decide, by decide⟩
  case additive => rcases h with rfl | rfl <;> exact ⟨rfl, by decide, by decide⟩
  case multiplicative => rcases h with rfl | rfl | rfl <;> exact ⟨rfl, by decide, by decide⟩

end Level

/-- The next token is no operator above a power. A brace is one only where struct literals are
allowed. -/
def Follows (f : Bool) (p : Power) (rest : List Token) : Prop :=
  ∃ k ks, rest = k :: ks ∧ ∀ q form, Table.standard.operator k.kind = some (q, form) →
    (k.kind = .openCurly → f = true) → q.rank ≤ p.rank

theorem Follows.mono {f : Bool} {p q : Power} {rest : List Token} (h : Follows f p rest)
    (hle : p.rank ≤ q.rank) : Follows f q rest := by
  obtain ⟨k, ks, rfl, hk⟩ := h
  exact ⟨k, ks, rfl, fun q' form hop hcurly => Nat.le_trans (hk q' form hop hcurly) hle⟩

theorem Follows.ne_nil {f : Bool} {p : Power} {rest : List Token} (h : Follows f p rest) : rest ≠ [] := by
  obtain ⟨k, ks, rfl, -⟩ := h
  exact List.cons_ne_nil k ks

theorem Follows.of_none {f : Bool} {p : Power} {k : Token} {ks : List Token} {kind : TokenKind}
    (hk : k.kind = kind) (h : Table.standard.operator kind = none) : Follows f p (k :: ks) := by
  refine ⟨k, ks, rfl, ?_⟩
  intro q form hop
  rw [hk, h] at hop
  cases hop

structure Lands (n : Nat) (s : State) (rest : List Token) (t : State) : Prop where
  tokens : t.tokens = rest
  flag : t.structLiterals = s.structLiterals
  depth : t.depth = s.depth
  peak : t.peak ≤ max s.peak (s.depth + n)

section Lands

variable {n m : Nat} {s t u : State} {rest rest' : List Token}

theorem Lands.mono (h : Lands n s rest t) (hle : n ≤ m) : Lands m s rest t := by
  refine ⟨h.tokens, h.flag, h.depth, ?_⟩
  have hpeak := h.peak
  omega

theorem Lands.trans (h : Lands n s rest t) (h' : Lands n t rest' u) : Lands n s rest' u := by
  refine ⟨h'.tokens, h'.flag.trans h.flag, h'.depth.trans h.depth, ?_⟩
  have hpeak := h.peak
  have hpeak' := h'.peak
  rw [h.depth] at hpeak'
  omega

theorem Lands.later_length (h : Lands n s rest t) : t.later.length + 1 = rest.length := by
  rw [← h.tokens, State.tokens, List.length_cons]

theorem lands_next (n : Nat) {k : Token} (h : s.tokens = k :: rest) (hrest : rest ≠ []) :
    s.current = k ∧ Lands n s rest s.next := by
  unfold State.tokens at h
  obtain ⟨hk, hlater⟩ := List.cons.inj h
  refine ⟨hk, ?_⟩
  cases rest with
  | nil => exact absurd rfl hrest
  | cons l ls =>
    have hnext : s.next = { s with behind := s.current :: s.behind, current := l, later := ls } := by
      unfold State.next
      rw [hlater]
    rw [hnext]
    exact ⟨rfl, rfl, rfl, Nat.le_max_left _ _⟩

theorem Lands.restoreFlag {f : Bool} (h : Lands n { s with structLiterals := f } rest t) :
    Lands n s rest { t with structLiterals := s.structLiterals } :=
  ⟨h.tokens, rfl, h.depth, h.peak⟩

end Lands

section Loop

variable {c : Setting} {below : Below} {p : Power}

/-- What the expression rule has read so far, whether or not it stops there: an operand, or one more
operator behind what it had. -/
inductive Reaches (c : Setting) (below : Below) (p : Power) (s : State) : Node → Nat → State → Prop where
  | operand {form : OperandForm} {left : Node} {h : Nat} {t : State}
      (hform : Table.standard.operand s.current.kind = some form)
      (hrun : Rule.Runs (measured (operandOf below form)) c s (left, h) t) :
      Reaches c below p s left h t
  | operator {left e : Node} {h h' : Nat} {t u : State} (hleft : Reaches c below p s left h t)
      (hturn : Rule.Runs (tailTurn below p (left, h)) c t (.more (e, h')) u)
      (hlt : u.later.length < t.later.length) : Reaches c below p s e h' u

theorem Reaches.runs (hc : c.table = .standard) {s t : State} {e : Node} {h : Nat}
    (hr : Reaches c below p s e h t) (hstop : Stops p e t) :
    Rule.Runs (expressionBody below p) c s e t := by
  -- Whatever the turns from here on yield, the rule yields.
  have key : ∀ {e h t}, Reaches c below p s e h t → ∀ b u,
      Turns (tailTurn below p) c t (e, h) b u → Rule.Runs (expressionBody below p) c s b.1 u := by
    intro e h t hr
    induction hr with
    | @operand form left h t hform hrun =>
      intro b u hturns
      simp only [expressionBody, runs_read_bind, runs_kind_bind, hc, hform]
      refine runs_bind.2 ⟨(left, h), t, hrun, ?_⟩
      exact runs_bind.2 ⟨b, u, hturns.loop_runs, runs_pure.2 ⟨rfl, rfl⟩⟩
    | operator hleft hturn hlt ih =>
      intro b u hturns
      exact ih b u (.more hturn hlt hturns)
  exact key hr (e, h) t (.done ((runs_tailTurn hc).2 (.inl ⟨rfl, rfl, hstop⟩)))

theorem reaches_operand {s t : State} {form : OperandForm} {e : Node} {n : Nat} {rest : List Token}
    (hform : Table.standard.operand s.current.kind = some form)
    (hrun : Rule.Runs (operandOf below form) c { s with peak := s.depth } e t)
    (hland : Lands n { s with peak := s.depth } rest t) :
    ∃ h u, Reaches c below p s e h u ∧ h ≤ n ∧ Lands n s rest u := by
  have hpeak := hland.peak
  have hdepth := hland.depth
  dsimp only at hpeak hdepth
  refine ⟨t.peak - t.depth, _, .operand hform (runs_measured.2 ⟨t, hrun, rfl, rfl⟩), by omega,
    hland.tokens, hland.flag, hdepth, ?_⟩
  dsimp only
  omega

/-- An operator above the power of the loop is folded, if the limit leaves room for one more level
above the left side. -/
theorem Reaches.extend (hc : c.table = .standard) {s t u : State} {left e : Node} {h n : Nat}
    {q : Power} {form : OperatorForm} {rest : List Token} (hleft : Reaches c below p s left h t)
    (hcont : Continues t left q form) (hlt : p.rank < q.rank)
    (hrun : Rule.Runs (operatorOf below left q form) c { t with peak := t.depth } e u)
    (hland : Lands n { t with peak := t.depth } rest u) (hrest : rest.length < t.tokens.length)
    (hlimit : t.depth + max n (h + 1) ≤ c.limit) :
    ∃ h' v, Reaches c below p s e h' v ∧ h' ≤ max n (h + 1) ∧ Lands (max n (h + 1)) t rest v := by
  have hpeak := hland.peak
  have hdepth := hland.depth
  dsimp only at hpeak hdepth
  have hreached : u.peak - u.depth ≤ n := by omega
  have hlimit' : u.depth + max (u.peak - u.depth) (h + 1) ≤ c.limit := by omega
  have hturn := (runs_tailTurn hc).2 (.inr ⟨q, form, e, u.peak - u.depth, _, hcont, hlt,
    runs_measured.2 ⟨u, hrun, rfl, rfl⟩, runs_reach.2 ⟨hlimit', rfl⟩, rfl⟩)
  have hlater := hland.later_length
  rw [State.tokens, List.length_cons] at hrest
  refine ⟨_, _, .operator hleft hturn (by dsimp only; omega), by omega, hland.tokens, hland.flag,
    hdepth, ?_⟩
  dsimp only
  omega

end Loop

section Lists

variable {c : Setting} {close : TokenKind} {item : Rule Node} {n d : Nat}

/-- The rule reads an item in front of a comma or the end of the list, on a level and where struct
literals are allowed. -/
def ReadsItem (c : Setting) (close : TokenKind) (item : Rule Node) (n d : Nat)
    (q : List Token × Node) : Prop :=
  ∀ s k ks, s.structLiterals = true → s.depth = d → (k.kind = .comma ∨ k.kind = close) →
    s.tokens = q.1 ++ k :: ks → ∃ t, Rule.Runs item c s q.2 t ∧ Lands n s (k :: ks) t

theorem ReadsItem.runs {q : List Token × Node} (h : ReadsItem c close item n d q) {s : State}
    {k : Token} {ks : List Token} (hf : s.structLiterals = true) (hd : s.depth = d)
    (hk : k.kind = .comma ∨ k.kind = close) (hs : s.tokens = q.1 ++ k :: ks)
    (hq : ∃ first more, q.1 = first :: more ∧ first.kind ≠ close) :
    s.current.kind ≠ close ∧ ∃ t, Rule.Runs item c s q.2 t ∧ Lands n s (k :: ks) t ∧
      t.current = k ∧ t.later.length < s.later.length := by
  obtain ⟨first, more, hfirst, hne⟩ := hq
  obtain ⟨t, hrun, hland⟩ := h s k ks hf hd hk hs
  have htokens := hland.tokens
  have hlater := hland.later_length
  rw [hfirst, List.cons_append] at hs
  unfold State.tokens at hs htokens
  obtain ⟨hcurrent, hrest⟩ := List.cons.inj hs
  refine ⟨hcurrent ▸ hne, t, hrun, hland, (List.cons.inj htokens).1, ?_⟩
  rw [hrest, List.length_append]
  rw [List.length_cons] at hlater ⊢
  omega

theorem separated_complete {parts : List (List Token × Node)} {v rest : List Token} {closing : Token}
    (message : String) (hclosing : closing.kind = close) (hcomma : TokenKind.comma ≠ close)
    (hitem : ∀ q ∈ parts, ReadsItem c close item n d q)
    (hfirst : ∀ q ∈ parts, ∃ k ks, q.1 = k :: ks ∧ k.kind ≠ close)
    (hv : Separated (parts.map Prod.fst) v) {s : State} (hf : s.structLiterals = true)
    (hd : s.depth = d) (hs : s.tokens = v ++ closing :: rest) :
    ∃ t, Rule.Runs (separated close message item) c s (parts.map Prod.snd) t ∧
      Lands n s (closing :: rest) t := by
  rw [separated_eq]
  have hstop : ∀ {t : State}, t.current = closing →
      Repeats (separatedItem close message item) c t [] t := by
    intro t ht
    exact .done (runs_separatedItem_none.2 ⟨ht ▸ hclosing, rfl⟩)
  suffices h : ∃ t, Repeats (separatedItem close message item) c s (parts.map Prod.snd) t ∧
      Lands n s (closing :: rest) t by
    obtain ⟨t, hrepeats, hland⟩ := h
    exact ⟨t, hrepeats.runs_many, hland⟩
  generalize hws : parts.map Prod.fst = ws at hv
  induction hv generalizing parts s with
  | nil =>
    rw [List.map_eq_nil_iff] at hws
    subst hws
    exact ⟨s, hstop (List.cons.inj hs).1, hs, rfl, rfl, Nat.le_max_left _ _⟩
  | @last w =>
    obtain ⟨q, rfl, hq⟩ := List.map_eq_singleton_iff.1 hws
    subst hq
    obtain ⟨hne, t, hrun, hland, ht, hlt⟩ := (hitem q List.mem_cons_self).runs hf hd
      (.inr hclosing) hs (hfirst q List.mem_cons_self)
    have hsome : Rule.Runs (separatedItem close message item) c s (some q.2) t :=
      runs_separatedItem_some.2 ⟨hne, t, hrun, .inl ⟨ht ▸ hclosing, rfl⟩⟩
    exact ⟨t, .more hsome hlt (hstop ht), hland⟩
  | @cons w v ws comma hk _ ih =>
    obtain ⟨q, parts, rfl, hq, rfl⟩ := List.map_eq_cons_iff.1 hws
    subst hq
    rw [List.append_assoc, List.cons_append] at hs
    obtain ⟨hne, t, hrun, hland, ht, hlt⟩ := (hitem q List.mem_cons_self).runs hf hd
      (.inl hk) hs (hfirst q List.mem_cons_self)
    obtain ⟨-, hnext⟩ := lands_next n hland.tokens (List.append_ne_nil_of_right_ne_nil _ (by simp))
    obtain ⟨u, hrepeats, hu⟩ := ih (fun q hq => hitem q (List.mem_cons_of_mem _ hq))
      (fun q hq => hfirst q (List.mem_cons_of_mem _ hq)) (hnext.flag.trans (hland.flag.trans hf))
      (hnext.depth.trans (hland.depth.trans hd)) hnext.tokens rfl
    have hkind : t.current.kind = .comma := ht ▸ hk
    have hsome : Rule.Runs (separatedItem close message item) c s (some q.2) t.next :=
      runs_separatedItem_some.2 ⟨hne, t, hrun, .inr ⟨hkind ▸ hcomma, hkind, rfl⟩⟩
    have hlt' : t.next.later.length < s.later.length := by
      have h₁ := hland.later_length
      have h₂ := hnext.later_length
      rw [List.length_cons] at h₁
      omega
    exact ⟨u, .more hsome hlt' hrepeats, (hland.trans hnext).trans hu⟩

end Lists

/-- The expression rule reads `w` as the expression `e` of a level, where there is room for it. -/
def Complete (c : Setting) (f : Bool) (ℓ : Level) (w : List Token) (e : Node) : Prop :=
  ∀ p s rest levels, p.rank ≤ ℓ.within.rank → s.structLiterals = f → s.tokens = w ++ rest →
    Follows f ℓ.power rest → s.depth + w.length ≤ c.limit → w.length ≤ levels →
      ∃ h t, Reaches c (produce levels) p s e h t ∧ h ≤ w.length ∧ Lands w.length s rest t

section Parts

variable {c : Setting} {f : Bool} {ℓ : Level} {w rest : List Token} {e left : Node} {s : State}
  {levels : Nat}

/-- An expression that is not continued is what the rule one level down yields. -/
theorem Complete.runs (hc : c.table = .standard) (h : Complete c f ℓ w e) {p : Power}
    (hp : p.rank ≤ ℓ.within.rank) (hf : s.structLiterals = f) (hs : s.tokens = w ++ rest)
    (hfollow : Follows f p rest) (hlimit : s.depth + (w.length + 1) ≤ c.limit)
    (hlevels : w.length + 1 ≤ levels) :
    ∃ t, Rule.Runs (produce levels (.expression p)) c s e t ∧ Lands (w.length + 1) s rest t := by
  obtain ⟨levels, rfl⟩ := Nat.exists_eq_add_of_le' hlevels
  have hfollow' : Follows f ℓ.power rest :=
    hfollow.mono (Nat.le_trans hp ℓ.within_rank_le_power)
  obtain ⟨n, t, hreach, -, hland⟩ :=
    h p { s with depth := s.depth + 1, peak := max s.peak (s.depth + 1) } rest (levels + w.length)
      hp hf hs hfollow' (by dsimp only; omega) (by omega)
  have hstop : Stops p e t := by
    obtain ⟨k, ks, rfl, hk⟩ := hfollow
    have hcurrent : t.current = k := (List.cons.inj hland.tokens).1
    intro q form hcont
    rw [Continues, hcurrent] at hcont
    apply hk q form hcont.1
    intro hcurly
    rw [← hf, ← (hcont.2 hcurly).1]
    exact hland.flag.symm
  refine ⟨_, runs_nested.2 ⟨by omega, t, hreach.runs hc hstop, rfl⟩, hland.tokens, hland.flag, ?_, ?_⟩
  · have hdepth := hland.depth
    dsimp only at hdepth ⊢
    omega
  · have hpeak := hland.peak
    dsimp only at hpeak ⊢
    omega

theorem Complete.bracketed (hc : c.table = .standard) (h : Complete c true .or w e) (levels : Nat)
    {k : Token} {ks : List Token} (hs : s.tokens = w ++ k :: ks) {closing : TokenKind} (hk : k.kind = closing)
    (hnone : Table.standard.operator closing = none)
    (hlimit : s.depth + (w.length + 1) ≤ c.limit) (hlevels : w.length + 1 ≤ levels) :
    ∃ t, Rule.Runs (withStructLiterals true (produce levels (.expression .lowest))) c s e t ∧
      Lands (w.length + 1) s (k :: ks) t := by
  obtain ⟨t, hrun, hland⟩ := h.runs hc (s := { s with structLiterals := true }) (p := .lowest)
    (by decide) rfl hs (.of_none hk hnone) hlimit hlevels
  exact ⟨_, runs_withStructLiterals.2 ⟨t, hrun, rfl⟩, hland.restoreFlag⟩

/-- A rule for a part of an expression reads the tokens `w` as the part `e`, in front of what does not
continue it. -/
def Reads (c : Setting) (f : Bool) (p : Power) (w : List Token) (rule : Below → Rule Node)
    (e : Node) : Prop :=
  ∀ levels s rest, s.structLiterals = f → s.tokens = w ++ rest → Follows f p rest →
    s.depth + w.length ≤ c.limit → w.length ≤ levels →
      ∃ t, Rule.Runs (rule (produce levels)) c s e t ∧ Lands w.length s rest t

theorem Complete.operand {form : OperandForm} {first : Token}
    (hform : Table.standard.operand first.kind = some form)
    (h : Reads c f ℓ.power (first :: w) (fun below => operandOf below form) e) :
    Complete c f ℓ (first :: w) e := by
  intro p s rest levels _ hf hs hfollow hlimit hlevels
  have hcurrent : s.current = first := (List.cons.inj hs).1
  obtain ⟨t, hrun, hland⟩ := h levels { s with peak := s.depth } rest hf hs hfollow hlimit hlevels
  exact reaches_operand (hcurrent ▸ hform) hrun hland

theorem Complete.operator (hc : c.table = .standard) (hleft : Complete c f ℓ w left) {op : Token}
    {v : List Token} {q : Power} {form : OperatorForm}
    (hop : Table.standard.operator op.kind = some (q, form))
    (hcurly : op.kind = .openCurly → f = true ∧ isIdentifier left = true)
    (hwithin : ℓ.within.rank < q.rank) (hpower : q.rank ≤ ℓ.power.rank)
    (h : Reads c f ℓ.power (op :: v) (fun below => operatorOf below left q form) e) :
    Complete c f ℓ (w ++ op :: v) e := by
  intro p s rest levels hp hf hs hfollow hlimit hlevels
  rw [List.append_assoc] at hs
  rw [List.length_append, List.length_cons] at hlimit hlevels
  have hnext : Follows f ℓ.power (op :: v ++ rest) := by
    refine ⟨op, v ++ rest, rfl, ?_⟩
    intro q' form' hop' _
    rw [hop] at hop'
    cases hop'
    exact hpower
  obtain ⟨n, t, hreach, hn, hland⟩ :=
    hleft p s (op :: v ++ rest) levels hp hf hs hnext (by omega) (by omega)
  have hcurrent : t.current = op := (List.cons.inj hland.tokens).1
  have hflag : t.structLiterals = f := hland.flag.trans hf
  have hdepth := hland.depth
  obtain ⟨u, hrun, hu⟩ := h levels { t with peak := t.depth } rest hflag hland.tokens hfollow
    (by rw [List.length_cons]; dsimp only; omega) (by rw [List.length_cons]; omega)
  have hcont : Continues t left q form := by
    rw [Continues, hcurrent, hflag]
    exact ⟨hop, hcurly⟩
  have hrest : rest.length < t.tokens.length := by
    rw [hland.tokens, List.length_append, List.length_cons]
    omega
  obtain ⟨n', v', hreach', hn', hland'⟩ := hreach.extend hc hcont (Nat.lt_of_le_of_lt hp hwithin)
    hrun hu hrest (by rw [List.length_cons]; omega)
  rw [List.length_cons] at hn' hland'
  refine ⟨n', v', hreach', ?_, ?_⟩
  · rw [List.length_append, List.length_cons]
    omega
  · apply Lands.trans (hland.mono _) (hland'.mono _)
    · rw [List.length_append]
      omega
    · rw [List.length_append, List.length_cons]
      omega

theorem reads_binary (hc : c.table = .standard) (h : Complete c f ℓ.tighter w e) {op : Token}
    (hop : op.kind ∈ ℓ.operators) :
    Reads c f ℓ.power (op :: w) (fun below => operatorOf below left ℓ.power .binary)
      (.binary left op.value e) := by
  intro levels s rest hf hs hfollow hlimit hlevels
  obtain ⟨-, -, hright⟩ := ℓ.operator_of_mem hop
  obtain ⟨rfl, hnext⟩ := lands_next (w.length + 1) hs
    (List.append_ne_nil_of_right_ne_nil w hfollow.ne_nil)
  obtain ⟨t, hrun, hland⟩ := h.runs hc hright (hnext.flag.trans hf) hnext.tokens hfollow
    (hnext.depth ▸ hlimit) hlevels
  refine ⟨t, ?_, hnext.trans hland⟩
  simp only [operatorOf, binary, runs_advance_bind]
  exact runs_bind.2 ⟨e, t, hrun, runs_pure.2 ⟨rfl, rfl⟩⟩

theorem Complete.runs_behind (hc : c.table = .standard) (h : Complete c f .unary w e) {op : Token}
    (hf : s.structLiterals = f) (hs : s.tokens = op :: w ++ rest) (hfollow : Follows f .unary rest)
    (hlimit : s.depth + (op :: w).length ≤ c.limit) (hlevels : (op :: w).length ≤ levels) :
    s.current = op ∧ ∃ t, Rule.Runs (produce levels (.expression .unary)) c s.next e t ∧
      Lands (op :: w).length s rest t := by
  obtain ⟨hop, hnext⟩ := lands_next (op :: w).length hs
    (List.append_ne_nil_of_right_ne_nil w hfollow.ne_nil)
  obtain ⟨t, hrun, hland⟩ := h.runs hc (by decide) (hnext.flag.trans hf) hnext.tokens hfollow
    (hnext.depth ▸ hlimit) hlevels
  exact ⟨hop, t, hrun, hnext.trans hland⟩

theorem reads_unary (hc : c.table = .standard) (h : Complete c f .unary w e) {op : Token} :
    Reads c f .unary (op :: w) (fun below => operandOf below .unary) (.unary op.value e) := by
  intro levels s rest hf hs hfollow hlimit hlevels
  obtain ⟨rfl, t, hrun, hland⟩ := h.runs_behind hc hf hs hfollow hlimit hlevels
  refine ⟨t, ?_, hland⟩
  simp only [operandOf, unary, runs_advance_bind]
  exact runs_bind.2 ⟨e, t, hrun, runs_pure.2 ⟨rfl, rfl⟩⟩

theorem reads_receive (hc : c.table = .standard) (h : Complete c f .unary w e) {op : Token}
    (hop : op.kind = .arrow) :
    Reads c f .unary (op :: w) (fun below => operandOf below .receive) (.receive e false) := by
  intro levels s rest hf hs hfollow hlimit hlevels
  obtain ⟨rfl, t, hrun, hland⟩ := h.runs_behind hc hf hs hfollow hlimit hlevels
  refine ⟨t, ?_, hland⟩
  simp only [operandOf, receive, runs_expect_bind]
  exact ⟨hop, runs_bind.2 ⟨e, t, hrun, runs_pure.2 ⟨rfl, rfl⟩⟩⟩

theorem Complete.runs_between (hc : c.table = .standard) (h : Complete c true .or w e)
    {opening closing : Token} {k : TokenKind} (hk : closing.kind = k)
    (hnone : Table.standard.operator k = none)
    (hs : s.tokens = opening :: (w ++ [closing]) ++ rest) (hrest : rest ≠ [])
    (hlimit : s.depth + (opening :: (w ++ [closing])).length ≤ c.limit)
    (hlevels : (opening :: (w ++ [closing])).length ≤ levels) :
    s.current = opening ∧ ∃ t,
      Rule.Runs (withStructLiterals true (produce levels (.expression .lowest))) c s.next e t ∧
        t.current.kind = k ∧ Lands (opening :: (w ++ [closing])).length s rest t.next := by
  have hlength : w.length + 1 ≤ (opening :: (w ++ [closing])).length := by simp
  rw [List.cons_append, List.append_assoc] at hs
  obtain ⟨hopening, hnext⟩ := lands_next (opening :: (w ++ [closing])).length hs (by simp)
  have hdepth := hnext.depth
  obtain ⟨t, hrun, hland⟩ := h.bracketed hc levels hnext.tokens hk hnone (by omega) (by omega)
  obtain ⟨hclosing, hlast⟩ := lands_next (opening :: (w ++ [closing])).length hland.tokens hrest
  exact ⟨hopening, t, hrun, hclosing ▸ hk, (hnext.trans (hland.mono hlength)).trans hlast⟩

theorem reads_grouping (hc : c.table = .standard) (h : Complete c true .or w e) {p : Power}
    {opening closing : Token} (hopening : opening.kind = .openParen)
    (hclosing : closing.kind = .closeParen) :
    Reads c f p (opening :: (w ++ [closing])) (fun below => operandOf below .grouping) e := by
  intro levels s rest _ hs hfollow hlimit hlevels
  obtain ⟨rfl, t, hrun, hk, hland⟩ :=
    h.runs_between hc hclosing rfl hs hfollow.ne_nil hlimit hlevels
  refine ⟨t.next, ?_, hland⟩
  simp only [operandOf, grouping, runs_expect_bind]
  refine ⟨hopening, runs_bind.2 ⟨e, t, hrun, ?_⟩⟩
  exact runs_expectOr_bind.2 ⟨hk, runs_pure.2 ⟨rfl, rfl⟩⟩

theorem reads_index (hc : c.table = .standard) (h : Complete c true .or w e) {p q : Power}
    {opening closing : Token} (hopening : opening.kind = .openBracket)
    (hclosing : closing.kind = .closeBracket) :
    Reads c f p (opening :: (w ++ [closing])) (fun below => operatorOf below left q .index)
      (.index left e) := by
  intro levels s rest _ hs hfollow hlimit hlevels
  obtain ⟨rfl, t, hrun, hk, hland⟩ :=
    h.runs_between hc hclosing rfl hs hfollow.ne_nil hlimit hlevels
  refine ⟨t.next, ?_, hland⟩
  simp only [operatorOf, index, runs_expect_bind]
  refine ⟨hopening, runs_bind.2 ⟨e, t, hrun, ?_⟩⟩
  exact runs_expectOr_bind.2 ⟨hk, runs_pure.2 ⟨rfl, rfl⟩⟩

theorem reads_member {p q : Power} {dot field : Token} (hdot : dot.kind = .dot)
    (hfield : field.kind = .identifier) :
    Reads c f p [dot, field] (fun below => operatorOf below left q .member)
      (.member left (.name field.value)) := by
  intro levels s rest _ hs hfollow _ _
  obtain ⟨rfl, hnext⟩ := lands_next 2 hs (List.cons_ne_nil _ _)
  obtain ⟨rfl, hlast⟩ := lands_next 2 hnext.tokens hfollow.ne_nil
  refine ⟨_, ?_, hnext.trans hlast⟩
  simp only [operatorOf, member, runs_expect_bind, runs_expectOr_bind]
  exact ⟨hdot, hfield, runs_pure.2 ⟨rfl, rfl⟩⟩

theorem Separated.length_le {ws : List (List Token)} {v u : List Token} (h : Separated ws v)
    (hu : u ∈ ws) : u.length ≤ v.length := by
  induction h with
  | nil => exact absurd hu List.not_mem_nil
  | last =>
    rw [List.mem_singleton] at hu
    exact Nat.le_of_eq (congrArg List.length hu)
  | cons _ _ ih =>
    rw [List.length_append, List.length_cons]
    rcases List.mem_cons.1 hu with rfl | hu
    · omega
    · have hle := ih hu
      omega

theorem separated_between {item : Rule Node} {parts : List (List Token × Node)} {v : List Token}
    {opening closing : Token} {close : TokenKind} {message : String} {n : Nat}
    (hclosing : closing.kind = close) (hcomma : TokenKind.comma ≠ close)
    (hitem : ∀ q ∈ parts, ReadsItem c close item n s.depth q)
    (hfirst : ∀ q ∈ parts, ∃ k ks, q.1 = k :: ks ∧ k.kind ≠ close)
    (hv : Separated (parts.map Prod.fst) v)
    (hs : s.tokens = opening :: (v ++ [closing]) ++ rest) (hrest : rest ≠ []) :
    s.current = opening ∧ ∃ t,
      Rule.Runs (withStructLiterals true (separated close message item)) c s.next
        (parts.map Prod.snd) t ∧ t.current.kind = close ∧ Lands n s rest t.next := by
  rw [List.cons_append, List.append_assoc] at hs
  obtain ⟨hopening, hnext⟩ := lands_next n hs (by simp)
  obtain ⟨t, hrun, hland⟩ := separated_complete message hclosing hcomma hitem hfirst hv
    (s := { s.next with structLiterals := true }) rfl hnext.depth hnext.tokens
  have hland' := hland.restoreFlag
  obtain ⟨hcurrent, hlast⟩ := lands_next n hland'.tokens hrest
  exact ⟨hopening, _, runs_withStructLiterals.2 ⟨t, hrun, rfl⟩, hcurrent ▸ hclosing,
    (hnext.trans hland').trans hlast⟩

theorem Complete.readsItem (hc : c.table = .standard) (h : Complete c true .or w e) {n d : Nat}
    {close : TokenKind} (hclose : Table.standard.operator close = none) (hn : w.length + 1 ≤ n)
    (hlimit : d + n ≤ c.limit) (hlevels : n ≤ levels) :
    ReadsItem c close (produce levels (.expression .lowest)) n d (w, e) := by
  intro s k ks hf hd hk hs
  have hfollow : Follows true .lowest (k :: ks) := by
    rcases hk with hk | hk
    · exact .of_none hk rfl
    · exact .of_none hk hclose
  obtain ⟨t, hrun, hland⟩ :=
    h.runs hc (by decide) hf hs hfollow (by rw [hd]; omega) (Nat.le_trans hn hlevels)
  exact ⟨t, hrun, hland.mono hn⟩

theorem Complete.readsField (hc : c.table = .standard) {p : Field}
    (h : Complete c true .or p.value p.tree) {n d : Nat} (hn : p.tokens.length ≤ n)
    (hlimit : d + n ≤ c.limit) (hlevels : n ≤ levels) :
    ReadsItem c .closeCurly (fieldValue (produce levels)) n d (p.tokens, p.node) := by
  intro s k ks hf hd hk hs
  obtain ⟨hname, hnext⟩ := lands_next n hs (by simp)
  obtain ⟨hcolon, hnext'⟩ := lands_next n hnext.tokens (by simp)
  have hpass := hnext.trans hnext'
  unfold Field.tokens at hn
  rw [List.length_cons, List.length_cons] at hn
  have hvalue : ReadsItem c .closeCurly (produce levels (.expression .lowest)) n d
      (p.value, p.tree) := h.readsItem hc rfl (by omega) hlimit hlevels
  obtain ⟨t, hrun, hland⟩ :=
    hvalue s.next.next k ks (hpass.flag.trans hf) (hpass.depth.trans hd) hk hnext'.tokens
  refine ⟨t, ?_, hpass.trans hland⟩
  simp only [fieldValue, runs_expectOr_bind]
  refine ⟨hname ▸ p.name_kind, hcolon ▸ p.colon_kind, ?_⟩
  refine runs_bind.2 ⟨p.tree, t, hrun, runs_pure.2 ⟨?_, rfl⟩⟩
  rw [hname]
  rfl

theorem reads_call (hc : c.table = .standard) {p q : Power} {v : List Token}
    {args : List (List Token × Node)} {opening closing : Token}
    (hopening : opening.kind = .openParen) (hclosing : closing.kind = .closeParen)
    (hargs : ∀ q ∈ args, Complete c true .or q.1 q.2)
    (hfirst : ∀ q ∈ args, ∃ k ks, q.1 = k :: ks ∧ k.kind ≠ .closeParen)
    (hv : Separated (args.map Prod.fst) v) :
    Reads c f p (opening :: (v ++ [closing])) (fun below => operatorOf below left q .call)
      (.application left (args.map Prod.snd)) := by
  intro levels s rest _ hs hfollow hlimit hlevels
  have hitem : ∀ q ∈ args, ReadsItem c .closeParen (produce levels (.expression .lowest))
      (opening :: (v ++ [closing])).length s.depth q := by
    intro q hq
    have hle := hv.length_le (List.mem_map_of_mem hq)
    refine (hargs q hq).readsItem hc rfl ?_ hlimit hlevels
    rw [List.length_cons, List.length_append]
    omega
  obtain ⟨rfl, t, hrun, hk, hland⟩ :=
    separated_between hclosing (by decide) hitem hfirst hv hs hfollow.ne_nil
  refine ⟨t.next, ?_, hland⟩
  simp only [operatorOf, call, runs_expect_bind]
  refine ⟨hopening, runs_bind.2 ⟨_, t, hrun, ?_⟩⟩
  exact runs_expect_bind.2 ⟨hk, runs_pure.2 ⟨rfl, rfl⟩⟩

theorem reads_structLiteral (hc : c.table = .standard) {p q : Power} {v : List Token} {name : String}
    {type : Option Node} {fields : List Field} {opening closing : Token}
    (hopening : opening.kind = .openCurly) (hclosing : closing.kind = .closeCurly)
    (hfields : ∀ p ∈ fields, Complete c true .or p.value p.tree)
    (hv : Separated (fields.map Field.tokens) v) :
    Reads c f p (opening :: (v ++ [closing]))
      (fun below => operatorOf below (.identifier name type) q .structLiteral)
      (.structLiteral (.customType name) (fields.map Field.node)) := by
  intro levels s rest _ hs hfollow hlimit hlevels
  have htokens : fields.map Field.tokens =
      (fields.map fun p => (p.tokens, p.node)).map Prod.fst := by rw [List.map_map]; rfl
  have hnodes : fields.map Field.node =
      (fields.map fun p => (p.tokens, p.node)).map Prod.snd := by rw [List.map_map]; rfl
  have hitem : ∀ q ∈ fields.map fun p => (p.tokens, p.node), ReadsItem c .closeCurly
      (fieldValue (produce levels)) (opening :: (v ++ [closing])).length s.depth q := by
    refine List.forall_mem_map.2 fun p hp => ?_
    have hle := hv.length_le (List.mem_map_of_mem hp)
    refine (hfields p hp).readsField hc ?_ hlimit hlevels
    rw [List.length_cons, List.length_append]
    omega
  have hfirst : ∀ q ∈ fields.map fun p => (p.tokens, p.node),
      ∃ k ks, q.1 = k :: ks ∧ k.kind ≠ .closeCurly := by
    refine List.forall_mem_map.2 fun p _ => ⟨p.name, _, rfl, ?_⟩
    rw [p.name_kind]
    decide
  rw [htokens] at hv
  obtain ⟨rfl, t, hrun, hk, hland⟩ :=
    separated_between hclosing (by decide) hitem hfirst hv hs hfollow.ne_nil
  refine ⟨t.next, ?_, hland⟩
  simp only [operatorOf, structLiteral, runs_expect_bind]
  refine ⟨hopening, runs_bind.2 ⟨_, t, hrun, ?_⟩⟩
  rw [hnodes]
  exact runs_expect_bind.2 ⟨hk, runs_pure.2 ⟨rfl, rfl⟩⟩

theorem complete_primary {t : Token} (hform : Table.standard.operand t.kind = some .primary)
    (h : ∀ s : State, s.current = t → Rule.Runs primary c s e s.next) : Complete c f ℓ [t] e := by
  refine Complete.operand hform ?_
  intro levels s rest _ hs hfollow _ _
  obtain ⟨hcurrent, hnext⟩ := lands_next 1 hs hfollow.ne_nil
  exact ⟨s.next, h s hcurrent, hnext⟩

end Parts

section Derivations

variable {c : Setting} {f : Bool} {ℓ : Level} {w : List Token} {e : Node}

theorem Derives.exists_first (h : Derives f ℓ w e) :
    ∃ k ks, w = k :: ks ∧ (Table.standard.operand k.kind).isSome := by
  induction h with
  | number ht hx => exact ⟨_, _, rfl, by rw [ht]; rfl⟩
  | string ht => exact ⟨_, _, rfl, by rw [ht]; rfl⟩
  | boolean ht => exact ⟨_, _, rfl, by rw [ht]; rfl⟩
  | identifier ht => exact ⟨_, _, rfl, by rw [ht]; rfl⟩
  | grouping hopening _ _ _ => exact ⟨_, _, rfl, by rw [hopening]; rfl⟩
  | call _ _ _ _ _ ih _ =>
    obtain ⟨k, ks, rfl, hk⟩ := ih
    exact ⟨k, _, rfl, hk⟩
  | index _ _ _ _ ih _ =>
    obtain ⟨k, ks, rfl, hk⟩ := ih
    exact ⟨k, _, rfl, hk⟩
  | member _ _ _ ih =>
    obtain ⟨k, ks, rfl, hk⟩ := ih
    exact ⟨k, _, rfl, hk⟩
  | structLiteral _ _ _ _ _ ih _ =>
    obtain ⟨k, ks, rfl, hk⟩ := ih
    exact ⟨k, _, rfl, hk⟩
  | unary hop _ _ =>
    exact ⟨_, _, rfl, by rw [operand_unary_iff.2 hop]; rfl⟩
  | receive hop _ _ => exact ⟨_, _, rfl, by rw [hop]; rfl⟩
  | binary _ _ _ ih _ =>
    obtain ⟨k, ks, rfl, hk⟩ := ih
    exact ⟨k, _, rfl, hk⟩
  | looser _ _ ih => exact ih

/-- Everything that the grammar derives is read. -/
theorem Derives.complete (hc : c.table = .standard) (h : Derives f ℓ w e) : Complete c f ℓ w e := by
  induction h with
  | @number f t x ht hx =>
    refine complete_primary (by rw [ht]; rfl) ?_
    rintro s rfl
    simp only [primary, runs_advance_bind, ht, hx]
    exact runs_pure.2 ⟨rfl, rfl⟩
  | string ht =>
    refine complete_primary (by rw [ht]; rfl) ?_
    rintro s rfl
    simp only [primary, runs_advance_bind, ht]
    exact runs_pure.2 ⟨rfl, rfl⟩
  | boolean ht =>
    refine complete_primary (by rw [ht]; rfl) ?_
    rintro s rfl
    simp only [primary, runs_advance_bind, ht]
    exact runs_pure.2 ⟨rfl, rfl⟩
  | identifier ht =>
    refine complete_primary (by rw [ht]; rfl) ?_
    rintro s rfl
    simp only [primary, runs_advance_bind, ht]
    exact runs_pure.2 ⟨rfl, rfl⟩
  | grouping hopening hclosing _ ih =>
    exact .operand (by rw [hopening]; rfl) (reads_grouping hc ih hopening hclosing)
  | @call f opening closing w v left args hopening hclosing _ hargs hv ihleft ihargs =>
    have hfirst : ∀ q ∈ args, ∃ k ks, q.1 = k :: ks ∧ k.kind ≠ .closeParen := by
      intro q hq
      obtain ⟨k, ks, hks, hk⟩ := (hargs q hq).exists_first
      refine ⟨k, ks, hks, ?_⟩
      intro hkind
      rw [hkind] at hk
      exact absurd hk (by decide)
    refine ihleft.operator hc (by rw [hopening]; rfl) ?_ (by decide) (by decide)
      (reads_call hc hopening hclosing ihargs hfirst hv)
    intro hk
    rw [hopening] at hk
    cases hk
  | index hopening hclosing _ _ ihleft ihindex =>
    refine ihleft.operator hc (by rw [hopening]; rfl) ?_ (by decide) (by decide)
      (reads_index hc ihindex hopening hclosing)
    intro hk
    rw [hopening] at hk
    cases hk
  | member hdot hfield _ ihleft =>
    refine ihleft.operator hc (by rw [hdot]; rfl) ?_ (by decide) (by decide)
      (reads_member hdot hfield)
    intro hk
    rw [hdot] at hk
    cases hk
  | structLiteral hopening hclosing _ _ hv ihleft ihfields =>
    exact ihleft.operator hc (by rw [hopening]; rfl) (fun _ => ⟨rfl, rfl⟩) (by decide) (by decide)
      (reads_structLiteral hc hopening hclosing ihfields hv)
  | unary hop _ ih => exact .operand (operand_unary_iff.2 hop) (reads_unary hc ih)
  | receive hop _ ih => exact .operand (by rw [hop]; rfl) (reads_receive hc ih hop)
  | @binary f ℓ op u w l r hop _ _ ihleft ihright =>
    obtain ⟨hoperator, hwithin, -⟩ := ℓ.operator_of_mem hop
    refine ihleft.operator hc hoperator ?_ hwithin (Nat.le_refl _) (reads_binary hc ihright hop)
    intro hk
    rw [hk] at hoperator
    cases ℓ <;> cases hoperator
  | looser hle _ ih =>
    intro p s rest levels hp hf hs hfollow hlimit hlevels
    exact ih p s rest levels (Nat.le_trans hp (Level.within_rank_le hle)) hf hs
      (hfollow.mono (Level.power_rank_le hle)) hlimit hlevels

end Derivations

section Expression

def expressionEnds : List TokenKind :=
  [.semicolon, .comma, .closeParen, .closeBracket, .closeCurly, .colon, .assign, .define, .arrow, .eof]

theorem Follows.of_ends {f : Bool} {k : Token} {ks : List Token}
    (h : k.kind ∈ expressionEnds ∨ k.kind = .openCurly ∧ f = false) : Follows f .lowest (k :: ks) := by
  rcases h with h | ⟨hk, rfl⟩
  · have hnone : ∀ kind ∈ expressionEnds, Table.standard.operator kind = none := by decide
    exact .of_none rfl (hnone k.kind h)
  · exact ⟨k, ks, rfl, fun _ _ _ hcurly => absurd (hcurly hk) nofun⟩

theorem expression_complete {c : Setting} (hc : c.table = .standard) {s : State} {w rest : List Token}
    {e : Node} (h : Derives s.structLiterals .or w e) (hs : s.tokens = w ++ rest)
    (hfollow : Follows s.structLiterals .lowest rest) (hlimit : s.depth + (w.length + 1) ≤ c.limit) :
    ∃ t, Rule.Runs (expression .lowest) c s e t ∧ t.tokens = rest := by
  obtain ⟨t, hrun, hland⟩ := (h.complete hc).runs hc (p := .lowest) (by decide) rfl hs hfollow hlimit
    (Nat.le_sub_of_add_le' hlimit)
  exact ⟨t, hrun, hland.tokens⟩

/-- On tokens without function literals, from any of them on and whether or not struct literals are
allowed, the expression rule implements the precedence grammar: what it reads is derived, and what is
derived in front of a token that ends expressions is read, up to that token, under every limit that
leaves a level for each token and one for the expression. -/
theorem expression_reads_exactly_derived (tokens : List Token)
    (hfunc : ∀ k ∈ tokens, k.kind ≠ .funcWord) (passed : List Token) (s : State)
    (hs : (State.ofTokens tokens).tokens = passed ++ s.tokens) (file : String) :
    (∀ limit e t, expression .lowest ⟨file, limit, .standard⟩ s = .ok e t →
      ∃ w, s.tokens = w ++ t.tokens ∧ Derives s.structLiterals .or w e) ∧
    ∀ w next rest e, s.tokens = w ++ next :: rest → Derives s.structLiterals .or w e →
      (next.kind ∈ expressionEnds ∨ next.kind = .openCurly ∧ s.structLiterals = false) →
        ∀ limit, s.depth + (w.length + 1) ≤ limit →
          ∃ t, expression .lowest ⟨file, limit, .standard⟩ s = .ok e t ∧ t.tokens = next :: rest := by
  have hplain : Plain s := by
    constructor
    · have hended := State.ended_ofTokens tokens
      unfold State.Ended at hended ⊢
      rwa [hs, getLast?_append_tokens] at hended
    · intro k hk
      have hmem : k ∈ (State.ofTokens tokens).tokens := hs ▸ List.mem_append_right passed hk
      rcases State.tokens_ofTokens tokens with heq | ⟨offset, heq⟩
      · exact hfunc k (heq ▸ hmem)
      · rw [heq, List.mem_append, List.mem_singleton] at hmem
        rcases hmem with hmem | rfl
        · exact hfunc k hmem
        · exact TokenKind.noConfusion
  refine ⟨?_, ?_⟩
  · intro limit e t h
    obtain ⟨w, hp, hd⟩ := expression_sound rfl hplain h
    exact ⟨w, hp.1, hd⟩
  · intro w next rest e hw hd hends limit hlimit
    exact expression_complete rfl hd hw (.of_ends hends) hlimit

def sumHeader : List Token :=
  [⟨.identifier, "x", 0, 1⟩, ⟨.plus, "+", 2, 3⟩, ⟨.identifier, "y", 4, 5⟩, ⟨.star, "*", 6, 7⟩,
    ⟨.identifier, "z", 8, 9⟩, ⟨.openCurly, "\x7b", 10, 11⟩]

theorem sumHeader_read :
    (∀ k ∈ sumHeader, k.kind ≠ .funcWord) ∧
      ∃ t, expression .lowest ⟨"", 6, .standard⟩
        { State.ofTokens sumHeader with structLiterals := false } =
          .ok (.binary (.name "x") "+" (.binary (.name "y") "*" (.name "z"))) t ∧
        t.tokens = [⟨.openCurly, "\x7b", 10, 11⟩, Token.endOfInput 11] := by
  have hfunc : ∀ k ∈ sumHeader, k.kind ≠ .funcWord := by decide
  have hx : Derives false .additive [⟨.identifier, "x", 0, 1⟩] (.name "x") :=
    .looser (by decide) (.identifier rfl)
  have hy : Derives false .multiplicative [⟨.identifier, "y", 4, 5⟩] (.name "y") :=
    .looser (by decide) (.identifier rfl)
  have hz : Derives false .unary [⟨.identifier, "z", 8, 9⟩] (.name "z") :=
    .looser (by decide) (.identifier rfl)
  have hproduct : Derives false .multiplicative
      ([⟨.identifier, "y", 4, 5⟩] ++ ⟨.star, "*", 6, 7⟩ :: [⟨.identifier, "z", 8, 9⟩])
      (.binary (.name "y") "*" (.name "z")) := .binary (by decide) hy hz
  have hsum : Derives false .additive ([⟨.identifier, "x", 0, 1⟩] ++ ⟨.plus, "+", 2, 3⟩ ::
      ([⟨.identifier, "y", 4, 5⟩] ++ ⟨.star, "*", 6, 7⟩ :: [⟨.identifier, "z", 8, 9⟩]))
      (.binary (.name "x") "+" (.binary (.name "y") "*" (.name "z"))) :=
    .binary (by decide) hx hproduct
  refine ⟨hfunc, ?_⟩
  exact (expression_reads_exactly_derived sumHeader hfunc []
    { State.ofTokens sumHeader with structLiterals := false } rfl "").2 _ _ _ _ rfl
      (.looser (by decide) hsum) (.inr ⟨rfl, rfl⟩) 6 (by decide)

end Expression

end MiniGo.Grammar
