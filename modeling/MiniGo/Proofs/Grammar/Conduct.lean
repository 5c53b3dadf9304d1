import MiniGo.Proofs.Grammar.Tracking

/-!
What any run of a rule does, whether it succeeds or fails. It passes tokens and leaves everything else as
it was but for the levels reached; if it succeeds the brackets among these tokens come in pairs, and if it
fails one of the tokens is refused. Runs go beside runs that look for a statement only where one may
start: what succeeds at all succeeds there too.
-/
namespace MiniGo

def TokenKind.closer? : TokenKind → Option TokenKind
  | .openParen => some .closeParen
  | .openBracket => some .closeBracket
  | .openCurly => some .closeCurly
  | _ => none

def TokenKind.isPlain : TokenKind → Bool
  | .openParen | .openBracket | .openCurly | .closeParen | .closeBracket | .closeCurly => false
  | .eof => false
  | _ => true

/-- Tokens in front of the end of the input of which the brackets are nested properly. -/
inductive Bracketed : List Token → Prop where
  | nil : Bracketed []
  | plain {k : Token} {w : List Token} (hk : k.kind.isPlain = true) (hw : Bracketed w) :
      Bracketed (k :: w)
  | pair {o c : Token} {w v : List Token} (h : o.kind.closer? = some c.kind) (hw : Bracketed w)
      (hv : Bracketed v) : Bracketed (o :: (w ++ c :: v))

section Brackets

variable {k o c : Token} {w v : List Token}

theorem Bracketed.append (hw : Bracketed w) (hv : Bracketed v) : Bracketed (w ++ v) := by
  induction hw with
  | nil => exact hv
  | plain hk _ ih => exact .plain hk ih
  | pair h hw _ _ ih =>
    rw [List.cons_append, List.append_assoc, List.cons_append]
    exact .pair h hw ih

theorem Bracketed.ne_eof (h : Bracketed w) : ∀ k ∈ w, k.kind ≠ .eof := by
  induction h with
  | nil => exact List.forall_mem_nil _
  | @plain k w hk _ ih =>
    refine List.forall_mem_cons.2 ⟨fun heof => ?_, ih⟩
    rw [heof] at hk
    cases hk
  | @pair o c w v h _ _ ihw ihv =>
    refine List.forall_mem_cons.2 ⟨fun heof => ?_, List.forall_mem_append.2 ⟨ihw, ?_⟩⟩
    · rw [heof] at h
      cases h
    · refine List.forall_mem_cons.2 ⟨fun heof => ?_, ihv⟩
      rw [heof] at h
      cases ho : o.kind <;> rw [ho] at h <;> cases h

theorem Bracketed.head_isPlain (h : Bracketed (k :: w)) :
    k.kind.isPlain = true ∨ k.kind.closer?.isSome = true := by
  cases h with
  | plain hk => exact .inl hk
  | pair h =>
    rw [h]
    exact .inr rfl

end Brackets

/-- What a rule may say against a token. -/
def Token.Refused (k : Token) : Cause → Prop
  | .unexpectedTokenDetailed token _ | .invalidArraySize token => token = k.describe
  | .numberParseError token => token = k.value ∧ k.kind = .number ∧ Decimal.parse? k.value = none
  | .missingType _ | .limitExceeded _ => True
  | _ => False

namespace Grammar

/-- What runs are about: a setting and tokens. -/
structure Course where
  setting : Setting
  standard : setting.table = .standard
  tokens : List Token

structure State.Within (v : Course) (s : State) : Prop where
  ended : s.Ended
  tokens : ∀ k ∈ s.tokens, k ∈ v.tokens

/-- A run has come from `s` to `t` over the tokens `w`, back to the same level. The levels that it has
reached are within the limit. -/
structure Course.Advances (v : Course) (s : State) (w : List Token) (t : State) : Prop
    extends s.Returns t where
  tokens : s.tokens = w ++ t.tokens
  behind : t.behind = w.reverse ++ s.behind
  peak : s.peak ≤ t.peak
  limit : s.depth ≤ s.peak → s.peak ≤ v.setting.limit → t.peak ≤ v.setting.limit

def Course.Refuses (v : Course) (e : Error) : Prop :=
  ∃ k ∈ v.tokens, e.position = ⟨k.start, v.setting.file⟩ ∧ k.Refused e.cause

/-- How a run goes from `s` on, and another one beside it. -/
inductive Conduct {α : Type} (v : Course) (s : State) (Q : α → List Token → State → Prop) :
    EStateM.Result Error State α → EStateM.Result Error State α → Prop where
  | ok {a : α} {w : List Token} {t : State} (h : v.Advances s w t) (hQ : Q a w t) :
      Conduct v s Q (.ok a t) (.ok a t)
  | error {e : Error} {w : List Token} {t : State} {r : EStateM.Result Error State α}
      (h : v.Advances s w t) (he : v.Refuses e) : Conduct v s Q (.error e t) r

/-- From `s` on the rule runs as it should, and `x'` does what it does if it succeeds. Of its result, the
tokens that it passes and the state behind them `Q` is true. -/
def Behaves {α : Type} (v : Course) (s : State) (x x' : Rule α) (Q : α → List Token → State → Prop) :
    Prop :=
  s.Within v → Conduct v s Q (x v.setting s) (x' v.setting s)

section States

variable {v : Course} {s t u : State} {w w' : List Token}

theorem Course.Advances.refl (v : Course) (s : State) : v.Advances s [] s :=
  ⟨⟨rfl, rfl⟩, rfl, rfl, Nat.le_refl _, fun _ h => h⟩

theorem Course.Advances.trans (h : v.Advances s w t) (h' : v.Advances t w' u) :
    v.Advances s (w ++ w') u := by
  refine ⟨h.toReturns.trans h'.toReturns, ?_, ?_, Nat.le_trans h.peak h'.peak, fun hs hlimit => ?_⟩
  · rw [h.tokens, h'.tokens, List.append_assoc]
  · rw [h'.behind, h.behind, List.reverse_append, List.append_assoc]
  · exact h'.limit (h.depth ▸ Nat.le_trans hs h.peak) (h.limit hs hlimit)

theorem Course.Advances.passes (h : v.Advances s w t) : Passes s w t := ⟨h.tokens, h.structLiterals⟩

theorem Course.Advances.within (h : v.Advances s w t) (hs : s.Within v) : t.Within v := by
  refine ⟨hs.ended.of_passes h.passes, fun k hk => hs.tokens k ?_⟩
  rw [h.tokens]
  exact List.mem_append_right w hk

theorem State.Within.current (hs : s.Within v) : s.current ∈ v.tokens :=
  hs.tokens _ List.mem_cons_self

theorem State.Within.advances_next (hs : s.Within v) (hk : s.current.kind ≠ .eof) :
    v.Advances s [s.current] s.next := by
  have htokens := (hs.ended.passes_next hk).1
  unfold State.next at htokens ⊢
  cases hl : s.later with
  | nil =>
    simp only [hl, State.tokens, List.cons_append, List.nil_append] at htokens
    cases htokens
  | cons k ks => exact ⟨⟨rfl, rfl⟩, congrArg (s.current :: ·) hl, rfl, Nat.le_refl _, fun _ h => h⟩

theorem Course.advances_next (v : Course) (s : State) : ∃ w, v.Advances s w s.next := by
  unfold State.next
  cases hl : s.later with
  | nil => exact ⟨[], .refl v s⟩
  | cons k ks =>
    exact ⟨[s.current], ⟨rfl, rfl⟩, congrArg (s.current :: ·) hl, rfl, Nat.le_refl _, fun _ h => h⟩

end States

section Blocks

variable {α β : Type} {v : Course} {s : State} {x x' : Rule α} {f f' : α → Rule β}
  {P Q : α → List Token → State → Prop} {R : β → List Token → State → Prop}

theorem behaves_of_within (h : s.Within v → Behaves v s x x' Q) : Behaves v s x x' Q :=
  fun hs => h hs hs

theorem Behaves.mono (h : Behaves v s x x' P)
    (hPQ : ∀ a w t, v.Advances s w t → P a w t → Q a w t) : Behaves v s x x' Q := by
  intro hs
  have hconduct := h hs
  revert hconduct
  generalize x v.setting s = r, x' v.setting s = r'
  rintro (⟨hst, hP⟩ | ⟨hst, he⟩)
  · exact .ok hst (hPQ _ _ _ hst hP)
  · exact .error hst he

theorem Behaves.advances {a : α} {t : State} (h : Behaves v s x x' Q) (hs : s.Within v)
    (hrun : Rule.Runs x v.setting s a t) : ∃ w, v.Advances s w t ∧ Q a w t := by
  have hconduct := h hs
  rw [hrun] at hconduct
  revert hconduct
  generalize x' v.setting s = r
  rintro ⟨hst, hQ⟩
  exact ⟨_, hst, hQ⟩

theorem behaves_pure {a : α} (h : Q a [] s) : Behaves v s (pure a) (pure a) Q :=
  fun _ => .ok (.refl v s) h

theorem behaves_failAt {k : Token} {cause : Cause} (hk : k ∈ v.tokens) (h : k.Refused cause) :
    Behaves v s (failAt k.start cause) x' Q :=
  fun _ => .error (.refl v s) ⟨k, hk, rfl, h⟩

theorem behaves_refuse {k : Token} {message : String} (hk : k ∈ v.tokens) :
    Behaves v s (refuse k message) x' Q := behaves_failAt hk rfl

theorem behaves_fail {cause : Cause} (h : s.current.Refused cause) : Behaves v s (fail cause) x' Q :=
  fun hs => .error (.refl v s) ⟨s.current, hs.current, rfl, h⟩

theorem behaves_unexpected {message : String} : Behaves v s (unexpected message) x' Q :=
  fun hs => .error (.refl v s) ⟨s.current, hs.current, rfl, rfl⟩

theorem Behaves.bind (hx : Behaves v s x x' P)
    (hf : ∀ a w t, v.Advances s w t → P a w t →
      Behaves v t (f a) (f' a) fun b w' u => R b (w ++ w') u) :
    Behaves v s (x >>= f) (x' >>= f') R := by
  intro hs
  have hconduct := hx hs
  rw [bind_apply, bind_apply]
  revert hconduct
  generalize x v.setting s = r, x' v.setting s = r'
  rintro (@⟨a, w, t, hst, hP⟩ | ⟨hst, he⟩)
  · have hrest := hf a w t hst hP (hst.within hs)
    dsimp only
    revert hrest
    generalize f a v.setting t = q, f' a v.setting t = q'
    rintro (⟨htu, hR⟩ | ⟨htu, he⟩)
    · exact .ok (hst.trans htu) hR
    · exact .error (hst.trans htu) he
  · exact .error hst he

theorem Behaves.map {g : α → β} (hx : Behaves v s x x' fun a w t => R (g a) w t) :
    Behaves v s (g <$> x) (g <$> x') R := by
  have hbind : Behaves v s (x >>= fun a => pure (g a)) (x' >>= fun a => pure (g a)) R :=
    hx.bind fun a w t _ h => behaves_pure (by rwa [List.append_nil])
  exact hbind

theorem behaves_ite {p : Prop} [Decidable p] {y y' : Rule α} (hx : p → Behaves v s x x' Q)
    (hy : ¬ p → Behaves v s y y' Q) : Behaves v s (if p then x else y) (if p then x' else y') Q := by
  by_cases hp : p
  · rw [if_pos hp, if_pos hp]
    exact hx hp
  · rw [if_neg hp, if_neg hp]
    exact hy hp

/-! Rules that start with a step of which the result is known go on from there. -/

theorem behaves_kind_bind {f f' : TokenKind → Rule β}
    (h : Behaves v s (f s.current.kind) (f' s.current.kind) R) :
    Behaves v s (kind >>= f) (kind >>= f') R := h

theorem behaves_current_bind {f f' : Token → Rule β}
    (h : Behaves v s (f s.current) (f' s.current) R) :
    Behaves v s (current >>= f) (current >>= f') R := h

theorem behaves_kindAhead_bind {n : Nat} {f f' : TokenKind → Rule β}
    (h : Behaves v s (f (s.kindAhead n)) (f' (s.kindAhead n)) R) :
    Behaves v s (kindAhead n >>= f) (kindAhead n >>= f') R := h

theorem behaves_get_bind {f f' : State → Rule β} (h : Behaves v s (f s) (f' s) R) :
    Behaves v s (get >>= f) (get >>= f') R := h

theorem behaves_read_bind {f f' : Setting → Rule β} (h : Behaves v s (f v.setting) (f' v.setting) R) :
    Behaves v s (read >>= f) (read >>= f') R := h

theorem behaves_advance_bind {f f' : Token → Rule β} (hk : s.current.kind ≠ .eof)
    (h : Behaves v s.next (f s.current) (f' s.current) fun b w t => R b (s.current :: w) t) :
    Behaves v s (advance >>= f) (advance >>= f') R := by
  have hadvance : Behaves v s advance advance
      fun k w t => k = s.current ∧ w = [s.current] ∧ t = s.next := by
    intro hs
    exact .ok (hs.advances_next hk) ⟨rfl, rfl, rfl⟩
  refine hadvance.bind ?_
  rintro _ _ _ - ⟨rfl, rfl, rfl⟩
  exact h

theorem behaves_advance_failAt {f : Token → Rule β} {cause : Cause}
    (hf : f s.current = failAt s.current.start cause) (h : s.current.Refused cause) {y : Rule β} :
    Behaves v s (advance >>= f) y R := by
  intro hs
  obtain ⟨w, hst⟩ := v.advances_next s
  have hrun : (advance >>= f) v.setting s = f s.current v.setting s.next := rfl
  rw [hrun, hf]
  exact .error hst ⟨s.current, hs.current, rfl, h⟩

theorem behaves_expect_bind {k : TokenKind} {f f' : Token → Rule β} (hk : s.current.kind = k)
    (hne : k ≠ .eof)
    (h : Behaves v s.next (f s.current) (f' s.current) fun b w t => R b (s.current :: w) t) :
    Behaves v s (expect k >>= f) (expect k >>= f') R := by
  have hrun : ∀ g : Token → Rule β, (expect k >>= g) v.setting s = (advance >>= g) v.setting s := by
    intro g
    have hexpect : expect k v.setting s = advance v.setting s := by
      change (if s.current.kind = k then advance else _) v.setting s = _
      rw [if_pos hk]
    rw [bind_apply, bind_apply, hexpect]
  unfold Behaves
  rw [hrun, hrun]
  exact behaves_advance_bind (hk ▸ hne) h

theorem behaves_expectOr_bind {k : TokenKind} {message : String} {f f' : Token → Rule β}
    (hne : k ≠ .eof)
    (h : s.current.kind = k →
      Behaves v s.next (f s.current) (f' s.current) fun b w t => R b (s.current :: w) t) :
    Behaves v s (expectOr k message >>= f) (expectOr k message >>= f') R := by
  have hexpect : Behaves v s (expectOr k message) (expectOr k message)
      fun x w t => s.current.kind = k ∧ x = s.current ∧ w = [s.current] ∧ t = s.next := by
    refine behaves_kind_bind (behaves_ite (fun hk hs => ?_) fun _ => behaves_unexpected)
    exact .ok (hs.advances_next (hk ▸ hne)) ⟨hk, rfl, rfl, rfl⟩
  refine hexpect.bind ?_
  rintro _ _ _ - ⟨hk, rfl, rfl, rfl⟩
  exact h hk

/-! Steps that change the rest of the state. -/

/-- A rule around another one, which runs it on the state `u` instead and changes the state behind it
back. -/
theorem Behaves.around {wrap : Rule α → Rule β} {u : State} {g : α → State → β} {k : State → State}
    (hx : Behaves v u x x' P) (hu : s.Within v → u.Within v)
    (hwrap : ∀ z, wrap z v.setting s = finish g k (z v.setting u))
    (hk : ∀ w t, v.Advances u w t → v.Advances s w (k t))
    (hR : ∀ a w t, P a w t → R (g a t) w (k t)) : Behaves v s (wrap x) (wrap x') R := by
  intro hs
  have hconduct := hx (hu hs)
  rw [hwrap, hwrap]
  revert hconduct
  generalize x v.setting u = r, x' v.setting u = r'
  rintro (⟨hut, hP⟩ | ⟨hut, he⟩)
  · exact .ok (hk _ _ hut) (hR _ _ _ hP)
  · exact .error (hk _ _ hut) he

theorem behaves_withStructLiterals {allowed : Bool}
    (h : Behaves v { s with structLiterals := allowed } x x' Q)
    (hQ : ∀ a w t flag, Q a w t → Q a w { t with structLiterals := flag }) :
    Behaves v s (withStructLiterals allowed x) (withStructLiterals allowed x') Q := by
  refine h.around ?_ (fun _ => withStructLiterals_apply _ _) ?_ fun a w t => hQ a w t _
  · rintro ⟨hended, htokens⟩
    exact ⟨hended, htokens⟩
  · rintro w t ⟨⟨hdepth, -⟩, htokens, hbehind, hpeak, hlimit⟩
    exact ⟨⟨hdepth, rfl⟩, htokens, hbehind, hpeak, hlimit⟩

theorem behaves_measured (h : Behaves v { s with peak := s.depth } x x' Q)
    (hQ : ∀ a w t peak, Q a w t → Q a w { t with peak := peak }) :
    Behaves v s (measured x) (measured x') fun p => Q p.1 := by
  refine h.around ?_ (fun _ => measured_apply _) ?_ fun a w t => hQ a w t _
  · rintro ⟨hended, htokens⟩
    exact ⟨hended, htokens⟩
  · rintro w t ⟨⟨hdepth, hflag⟩, htokens, hbehind, -, hlimit⟩
    refine ⟨⟨hdepth, hflag⟩, htokens, hbehind, Nat.le_max_right _ _, fun hdepth hpeak => ?_⟩
    exact Nat.max_le.2 ⟨hlimit (Nat.le_refl _) (Nat.le_trans hdepth hpeak), hpeak⟩

theorem behaves_reach {levels : Nat} : Behaves v s (reach levels) (reach levels) fun _ w _ => w = [] := by
  intro hs
  rw [reach_apply]
  split
  · exact behaves_fail trivial hs
  · refine .ok ⟨⟨rfl, rfl⟩, rfl, rfl, Nat.le_max_left _ _, fun _ hpeak => ?_⟩ rfl
    exact Nat.max_le.2 ⟨hpeak, by omega⟩

theorem behaves_nested
    (h : Behaves v { s with depth := s.depth + 1, peak := max s.peak (s.depth + 1) } x x' Q)
    (hQ : ∀ a w t depth, Q a w t → Q a w { t with depth := depth }) :
    Behaves v s (nested x) (nested x') Q := by
  by_cases hlimit : v.setting.limit < s.depth + 1
  · intro hs
    rw [nested_eq, nested_eq, bind_apply, bind_apply, reach_apply, if_pos hlimit]
    exact .error (.refl v s) ⟨s.current, hs.current, rfl, trivial⟩
  · refine h.around ?_ (fun _ => nested_apply (Nat.le_of_not_lt hlimit)) ?_ fun a w t => hQ a w t _
    · rintro ⟨hended, htokens⟩
      exact ⟨hended, htokens⟩
    · rintro w t ⟨⟨hdepth, hflag⟩, htokens, hbehind, hpeak, hbound⟩
      dsimp only at hdepth hpeak hbound
      refine ⟨⟨?_, hflag⟩, htokens, hbehind, ?_, fun _ hs => hbound ?_ ?_⟩
      · rw [hdepth, Nat.add_sub_cancel]
      · exact Nat.le_trans (Nat.le_max_left _ _) hpeak
      · exact Nat.le_max_right _ _
      · exact Nat.max_le.2 ⟨hs, by omega⟩

end Blocks

section Loops

variable {α : Type} {v : Course} {s : State}

/-- What a turn behind the tokens `w` of the turns before it keeps for the next one, if it passes a token,
and for the end. -/
def Turned (I Q : α → List Token → State → Prop) (w : List Token) :
    Turn α → List Token → State → Prop
  | .more b, w', t => w' ≠ [] ∧ I b (w ++ w') t
  | .done b, w', t => Q b (w ++ w') t

theorem behaves_loop {turn turn' : α → Rule (Turn α)} {a : α} {I Q : α → List Token → State → Prop}
    (hturn : ∀ a w t, I a w t → Behaves v t (turn a) (turn' a) (Turned I Q w)) (ha : I a [] s) :
    Behaves v s (loop a turn) (loop a turn') Q := by
  have key : ∀ turns a w t, t.later.length ≤ turns.length → I a w t →
      Behaves v t (loopFrom turn turns a) (loopFrom turn' turns a) fun b w' => Q b (w ++ w') := by
    intro turns
    induction turns with
    | nil =>
      intro a w t hlength ha
      refine (hturn a w t ha).bind ?_
      rintro (b | b) w' u htu hb
      · have hlt := htu.passes.length_lt hb.1
        rw [List.length_nil] at hlength
        omega
      · exact behaves_pure (by rwa [List.append_nil])
    | cons k turns ih =>
      intro a w t hlength ha
      refine (hturn a w t ha).bind ?_
      rintro (b | b) w' u htu hb
      · have hlt := htu.passes.length_lt hb.1
        rw [List.length_cons] at hlength
        refine (ih b (w ++ w') u (by omega) hb.2).mono fun b w'' z _ h => ?_
        rwa [← List.append_assoc]
      · exact behaves_pure (by rwa [List.append_nil])
  exact behaves_get_bind (key s.later a [] s (Nat.le_refl _) ha)

structure Passage (w : List Token) : Prop where
  bracketed : Bracketed w
  ne_nil : w ≠ []

theorem Passage.plain {k : Token} {w : List Token} (hk : k.kind.isPlain = true) (hw : Bracketed w) :
    Passage (k :: w) := ⟨.plain hk hw, List.cons_ne_nil _ _⟩

theorem Passage.pair {o c : Token} {w w' : List Token} (h : o.kind.closer? = some c.kind)
    (hw : Bracketed w) (hw' : Bracketed w') : Passage (o :: (w ++ c :: w')) :=
  ⟨.pair h hw hw', List.cons_ne_nil _ _⟩

theorem Passage.append {w w' : List Token} (hw : Passage w) (hw' : Bracketed w') : Passage (w ++ w') :=
  ⟨hw.bracketed.append hw', List.append_ne_nil_of_left_ne_nil hw.ne_nil _⟩

theorem Passage.prepend {w w' : List Token} (hw' : Passage w') (hw : Bracketed w) : Passage (w ++ w') :=
  ⟨hw.append hw'.bracketed, List.append_ne_nil_of_right_ne_nil _ hw'.ne_nil⟩

/-- What a rule that is repeated passes: something for every result, and then there is the next one to
come, while at the end there is something else. -/
def Repeated (I D : State → Prop) : Option α → List Token → State → Prop
  | some _, w, t => Passage w ∧ I t
  | none, w, t => Bracketed w ∧ D t

theorem behaves_many {rule rule' : Rule (Option α)} {I D : State → Prop}
    (h : ∀ t, I t → Behaves v t rule rule' (Repeated I D)) (hs : I s) :
    Behaves v s (many rule) (many rule') fun _ w t => Bracketed w ∧ D t := by
  rw [many_eq, many_eq]
  refine behaves_loop (I := fun _ w t => Bracketed w ∧ I t) ?_ ⟨.nil, hs⟩
  rintro found w t ⟨hw, ht⟩
  refine (h t ht).bind ?_
  rintro (_ | a) w' u - hu
  · refine behaves_pure ?_
    rw [List.append_nil]
    exact ⟨hw.append hu.1, hu.2⟩
  · refine behaves_pure ?_
    rw [List.append_nil]
    exact ⟨hu.1.ne_nil, hw.append hu.1.bracketed, hu.2⟩

theorem behaves_separated {close : TokenKind} {message : String} {item item' : Rule α}
    (h : ∀ t, Behaves v t item item' fun _ w _ => Passage w) :
    Behaves v s (separated close message item) (separated close message item') fun _ w t =>
      Bracketed w ∧ t.current.kind = close := by
  refine behaves_many (I := fun _ => True) (fun t _ => ?_) trivial
  refine behaves_kind_bind (behaves_ite (fun hclose => behaves_pure ⟨.nil, hclose⟩) fun _ => ?_)
  refine (h t).bind fun a w u _ hw => behaves_kind_bind (behaves_ite (fun _ => ?_) fun _ => ?_)
  · exact behaves_pure ⟨hw.append .nil, trivial⟩
  · refine behaves_expectOr_bind nofun fun hcomma => behaves_pure ⟨hw.append ?_, trivial⟩
    exact .plain (by rw [hcomma]; rfl) .nil

end Loops

/-! Where statements start. -/

/-- The token behind is one that stands in front of a statement, or there is none. -/
def State.Separated (s : State) : Prop :=
  ∀ k ∈ s.behind.head?, k.kind ∈ [.semicolon, .openCurly, .colon]

instance : DecidablePred State.Separated := fun s =>
  inferInstanceAs (Decidable (∀ k ∈ s.behind.head?, k.kind ∈ [.semicolon, .openCurly, .colon]))

/-- A statement may start here, or nothing can but the end of more than a statement. -/
def State.AtStart (s : State) : Prop :=
  s.Separated ∨ s.current.kind = .closeCurly ∨ s.current.kind = .closeParen ∨ s.current.kind = .eof

section Starts

variable {v : Course} {s : State}

theorem State.Within.separated_next (hs : s.Within v)
    (hk : s.current.kind ∈ [TokenKind.semicolon, .openCurly, .colon]) : s.next.Separated := by
  have hne : s.current.kind ≠ .eof := by
    intro heof
    rw [heof] at hk
    exact absurd hk (by decide)
  intro k hbehind
  rw [(hs.advances_next hne).behind] at hbehind
  cases hbehind
  exact hk

theorem State.AtStart.separated {t : State} {w : List Token} (hs : s.AtStart) (h : v.Advances s w t)
    (hw : Passage w) : s.Separated := by
  cases w with
  | nil => exact absurd rfl hw.ne_nil
  | cons k w =>
    have hk : s.current = k := (List.cons.inj h.tokens).1
    have hplain := hw.bracketed.head_isPlain
    rw [← hk] at hplain
    rcases hs with hs | hs | hs | hs
    · exact hs
    all_goals
      rw [hs] at hplain
      exact absurd hplain (by decide)

theorem behaves_skipSemicolons : Behaves v s skipSemicolons skipSemicolons fun _ w t =>
    Bracketed w ∧ (s.AtStart → t.AtStart) := by
  refine behaves_loop (I := fun _ w t => Bracketed w ∧ (s.AtStart → t.AtStart)) ?_ ⟨.nil, id⟩
  rintro _ w t ⟨hw, hstart⟩
  refine behaves_kind_bind (behaves_ite (fun hsemi => ?_) fun _ => ?_)
  · refine behaves_of_within fun ht => behaves_advance_bind (by rw [hsemi]; decide) (behaves_pure ?_)
    refine ⟨List.cons_ne_nil _ _, hw.append (.plain (by rw [hsemi]; rfl) .nil), fun _ => .inl ?_⟩
    exact ht.separated_next (by rw [hsemi]; decide)
  · exact behaves_pure ⟨by rwa [List.append_nil], hstart⟩

end Starts

def Goal.Ready : Goal → State → Prop
  | .statement, s => s.AtStart
  | .elseIf, s => s.current.kind = .ifWord
  | .expression _, _ | .type, _ => True

/-- What a goal leaves: behind a statement the next one may start. -/
def Goal.Leaves : Goal → List Token → State → Prop
  | .statement, w, t => Passage w ∧ t.AtStart
  | .expression _, w, _ | .type, w, _ | .elseIf, w, _ => Passage w

def BelowBehaves (v : Course) (below below' : Below) : Prop :=
  ∀ goal s, goal.Ready s → Behaves v s (below goal) (below' goal) fun _ w t => goal.Leaves w t

section Below

variable {v : Course} {below below' : Below} (hb : BelowBehaves v below below')
include hb

theorem BelowBehaves.type (s : State) :
    Behaves v s (below .type) (below' .type) fun _ w _ => Passage w := hb .type s trivial

theorem BelowBehaves.expression (power : Power) (s : State) :
    Behaves v s (below (.expression power)) (below' (.expression power)) fun _ w _ => Passage w :=
  hb (.expression power) s trivial

theorem BelowBehaves.elseIf {s : State} (hs : s.current.kind = .ifWord) :
    Behaves v s (below .elseIf) (below' .elseIf) fun _ w _ => Passage w := hb .elseIf s hs

theorem BelowBehaves.statement {s : State} (hs : s.AtStart) :
    Behaves v s (below .statement) (below' .statement) fun _ w t => Passage w ∧ t.AtStart :=
  hb .statement s hs

end Below

end Grammar

end MiniGo
