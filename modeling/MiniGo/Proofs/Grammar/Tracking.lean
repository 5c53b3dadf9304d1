import MiniGo.Proofs.Grammar.Run

/-!
Two runs of the rules side by side. The tokens agree in kind and value, up to the end of both or up to a
seam: there the first run comes to the end of the input and the second to a semicolon, with more tokens
behind it. A rule tracks if the second run does what the first does, for as long as the first can still
succeed.
-/
namespace MiniGo

structure Token.Alike (t t' : Token) : Prop where
  kind : t'.kind = t.kind
  value : t'.value = t.value

def Token.content (t : Token) : TokenKind × String := (t.kind, t.value)

theorem Token.alike_of_content {t t' : Token} (h : t'.content = t.content) : t.Alike t' :=
  ⟨congrArg Prod.fst h, congrArg Prod.snd h⟩

theorem Token.Alike.refl (t : Token) : t.Alike t := ⟨rfl, rfl⟩

theorem Token.Alike.describe {t t' : Token} (h : t.Alike t') : t'.describe = t.describe := by
  simp only [Token.describe, h.kind, h.value]

namespace Grammar

/-- What two runs have in common. Behind the seam, if there is one, the second goes on with the given
tokens. The second run has also reached `floor` levels before. -/
structure View where
  setting : Setting
  standard : setting.table = .standard
  seam : Option (List Token)
  floor : Nat

def View.above (v : View) (floor : Nat) : View := { v with floor := floor }

/-- The tokens of both runs. -/
inductive TokensBeside (seam : Option (List Token)) : List Token → List Token → Prop where
  | last {k k' : Token} (hseam : seam = none) (hk : k.kind = .eof) (h : k.Alike k') :
      TokensBeside seam [k] [k']
  | seam {k k' : Token} {ks : List Token} (hseam : seam = some ks) (hk : k.kind = .eof)
      (hk' : k'.kind = .semicolon) : TokensBeside seam [k] (k' :: ks)
  | cons {k k' : Token} {ks ks' : List Token} (hk : k.kind ≠ .eof) (h : k.Alike k')
      (hrest : TokensBeside seam ks ks') : TokensBeside seam (k :: ks) (k' :: ks')

theorem TokensBeside.append {seam : Option (List Token)} {init init' ks ks' : List Token}
    (hinit : ∀ k ∈ init, k.kind ≠ .eof) (h : init'.map Token.content = init.map Token.content)
    (hrest : TokensBeside seam ks ks') : TokensBeside seam (init ++ ks) (init' ++ ks') := by
  induction init generalizing init' with
  | nil =>
    obtain rfl := List.map_eq_nil_iff.1 h
    exact hrest
  | cons k init ih =>
    cases init' with
    | nil => cases h
    | cons k' init' =>
      rw [List.map_cons, List.map_cons, List.cons.injEq] at h
      rw [List.forall_mem_cons] at hinit
      exact .cons hinit.1 (Token.alike_of_content h.1) (ih hinit.2 h.2)

/-- The second state is on the same level as the first. -/
structure View.Level (v : View) (s s' : State) : Prop where
  depth : s'.depth = s.depth
  peak : s'.peak = max s.peak v.floor
  structLiterals : s'.structLiterals = s.structLiterals

structure View.Beside (v : View) (s s' : State) : Prop extends v.Level s s' where
  tokens : TokensBeside v.seam s.tokens s'.tokens

/-- The first run has come to its end, the second may be behind the seam. -/
structure View.Lost (v : View) (s : State) : Prop where
  seam : v.seam ≠ none
  kind : s.current.kind = .eof
  later : s.later = []

section States

variable {v : View} {s s' : State}

/-- Both runs are at tokens that agree, and stay side by side when they pass them. -/
structure View.InStep (v : View) (s s' : State) : Prop where
  current : s.current.Alike s'.current
  next : v.Beside s.next s'.next
  lt : s.current.kind ≠ .eof → s.next.later.length < s.later.length
  last : s.current.kind = .eof → v.seam = none

/-- The first run is at its end and the second at the semicolon of the seam. -/
structure View.AtSeam (v : View) (s s' : State) : Prop extends v.Lost s where
  kind' : s'.current.kind = .semicolon
  behind : v.seam = some s'.later

theorem View.Beside.inStep_or_atSeam (h : v.Beside s s') : v.InStep s s' ∨ v.AtSeam s s' := by
  have htokens := h.tokens
  have hlevel := h.toLevel
  obtain ⟨behind, k, ks, depth, peak, flag⟩ := s
  obtain ⟨behind', k', ks', depth', peak', flag'⟩ := s'
  simp only [State.tokens] at htokens
  cases htokens with
  | last hseam hk halike => exact .inl ⟨halike, h, fun hne => absurd hk hne, fun _ => hseam⟩
  | seam hseam hk hk' => exact .inr ⟨⟨by simp [hseam], hk, rfl⟩, hk', hseam⟩
  | cons hk halike hrest =>
    cases ks with
    | nil => cases hrest
    | cons l ls =>
      cases ks' with
      | nil => cases hrest
      | cons l' ls' =>
        refine .inl ⟨halike, ⟨⟨hlevel.depth, hlevel.peak, hlevel.structLiterals⟩, hrest⟩, ?_, ?_⟩
        · simp [State.next]
        · exact fun heof => absurd heof hk

theorem TokensBeside.right {tokens tokens' : List Token} (h : TokensBeside none tokens tokens') :
    TokensBeside none tokens' tokens' := by
  induction h with
  | last hseam hk halike => exact .last hseam (halike.kind.trans hk) (.refl _)
  | seam hsome => cases hsome
  | cons hk halike _ ih => exact .cons (halike.kind ▸ hk) (.refl _) ih

theorem TokensBeside.length_eq {tokens tokens' : List Token} (h : TokensBeside none tokens tokens') :
    tokens'.length = tokens.length := by
  induction h with
  | last => rfl
  | seam hsome => cases hsome
  | cons _ _ _ ih => exact congrArg (· + 1) ih

theorem State.ofTokens_of_beside {tokens tokens' : List Token} (h : TokensBeside none tokens tokens') :
    (State.ofTokens tokens).tokens = tokens ∧ (State.ofTokens tokens).depth = 0 ∧
      (State.ofTokens tokens).peak = 0 ∧ (State.ofTokens tokens).structLiterals = true := by
  have hlast : ∃ init e, tokens = init ++ [e] ∧ e.kind = .eof := by
    induction h with
    | last _ hk => exact ⟨[], _, rfl, hk⟩
    | seam hsome => cases hsome
    | cons _ _ _ ih =>
      obtain ⟨init, e, rfl, he⟩ := ih
      exact ⟨_ :: init, e, rfl, he⟩
  obtain ⟨init, e, rfl, he⟩ := hlast
  unfold State.ofTokens
  rw [List.getLast?_concat]
  simp only [he, if_true]
  cases init with
  | nil => exact ⟨rfl, rfl, rfl, rfl⟩
  | cons k init => exact ⟨rfl, rfl, rfl, rfl⟩

theorem View.beside_ofTokens (v : View) {tokens tokens' : List Token} (hfloor : v.floor = 0)
    (h : TokensBeside none tokens tokens) (h' : TokensBeside none tokens' tokens')
    (hbeside : TokensBeside v.seam tokens tokens') :
    v.Beside (.ofTokens tokens) (.ofTokens tokens') := by
  obtain ⟨htokens, hdepth, hpeak, hflag⟩ := State.ofTokens_of_beside h
  obtain ⟨htokens', hdepth', hpeak', hflag'⟩ := State.ofTokens_of_beside h'
  refine ⟨⟨by rw [hdepth, hdepth'], ?_, by rw [hflag, hflag']⟩, by rwa [htokens, htokens']⟩
  rw [hpeak, hpeak', hfloor]
  rfl

theorem View.Lost.next (h : v.Lost s) : s.next = s := by
  rw [State.next, h.later]

theorem View.Beside.current_alike (h : v.Beside s s') (hseam : v.seam = none) :
    s.current.Alike s'.current := by
  rcases h.inStep_or_atSeam with hstep | hat
  · exact hstep.current
  · exact absurd hseam hat.seam

theorem View.Beside.later_length_le (h : v.Beside s s') : s.later.length ≤ s'.later.length := by
  have key : ∀ {ks ks' : List Token}, TokensBeside v.seam ks ks' → ks.length ≤ ks'.length := by
    intro ks ks' hks
    induction hks with
    | last => simp
    | seam => simp
    | cons _ _ _ ih => simpa using ih
  have hlength := key h.tokens
  simpa [State.tokens] using hlength

end States

structure State.Returns (s t : State) : Prop where
  depth : t.depth = s.depth
  structLiterals : t.structLiterals = s.structLiterals

theorem State.Returns.trans {s t u : State} (h : s.Returns t) (h' : t.Returns u) : s.Returns u :=
  ⟨h'.depth.trans h.depth, h'.structLiterals.trans h.structLiterals⟩

@[simp] theorem State.returns_next (s : State) : s.Returns s.next := by
  unfold State.next
  split
  · exact ⟨rfl, rfl⟩
  · exact ⟨rfl, rfl⟩

/-- How the results of both runs from `s` on agree. Only where the tokens agree to their end are errors
compared, and only a lax comparison forgives the first run for having come to its end. -/
inductive Matched {α : Type} (v : View) (lax : Bool) (s : State) (Q : α → Nat → Prop) :
    EStateM.Result Error State α → EStateM.Result Error State α → Prop where
  | ok {a : α} {t t' : State} (h : v.Beside t t') (hst : s.Returns t) (hQ : Q a t.later.length) :
      Matched v lax s Q (.ok a t) (.ok a t')
  | lost {a : α} {t : State} {r : EStateM.Result Error State α} (hlax : lax = true) (h : v.Lost t)
      (hQ : Q a 0) : Matched v lax s Q (.ok a t) r
  | error {e : Error} {t : State} {r : EStateM.Result Error State α}
      (h : v.seam = none → ∃ e' t', r = .error e' t' ∧ e'.cause = e.cause) :
      Matched v lax s Q (.error e t) r

/-- The runs of two rules on two states agree, and the result of the first and the number of tokens that
it leaves have a property. A run that starts at its end stays there. -/
structure Tracks {α : Type} (v : View) (lax : Bool) (s s' : State) (x x' : Rule α)
    (Q : α → Nat → Prop) : Prop where
  beside : v.Beside s s' → Matched v lax s Q (x v.setting s) (x' v.setting s')
  lost : v.Lost s → ∀ a t, Rule.Runs x v.setting s a t → v.Lost t ∧ Q a 0

/-- The rule cannot succeed at the end of the input. -/
def Stuck {α : Type} (v : View) (x : Rule α) : Prop :=
  ∀ s a t, v.Lost s → ¬ Rule.Runs x v.setting s a t

abbrev Fewer {α : Type} (s : State) (_ : α) (left : Nat) : Prop := left < s.later.length

abbrev NoMore {α : Type} (s : State) (_ : α) (left : Nat) : Prop := left ≤ s.later.length

section Blocks

variable {α β : Type} {v : View} {lax : Bool} {s s' : State} {x x' : Rule α} {f f' : α → Rule β}
  {P Q : α → Nat → Prop} {R : β → Nat → Prop}

theorem Matched.of_returns {t : State} {r r' : EStateM.Result Error State α} (hst : s.Returns t)
    (h : Matched v lax t Q r r') : Matched v lax s Q r r' := by
  cases h with
  | ok hu htu hQ => exact .ok hu (hst.trans htu) hQ
  | lost hlax hu hQ => exact .lost hlax hu hQ
  | error he => exact .error he

theorem Matched.mono {r r' : EStateM.Result Error State α} (h : Matched v lax s P r r')
    (hPQ : ∀ a n, P a n → Q a n) : Matched v lax s Q r r' := by
  cases h with
  | ok ht hst hP => exact .ok ht hst (hPQ _ _ hP)
  | lost hlax ht hP => exact .lost hlax ht (hPQ _ _ hP)
  | error he => exact .error he

theorem Tracks.mono (h : Tracks v lax s s' x x' P) (hPQ : ∀ a n, P a n → Q a n) :
    Tracks v lax s s' x x' Q := by
  refine ⟨fun hs => (h.beside hs).mono hPQ, fun hs a t hrun => ?_⟩
  have hlost := h.lost hs a t hrun
  exact ⟨hlost.1, hPQ _ _ hlost.2⟩

theorem tracks_pure {a : α} (h : Q a s.later.length) :
    Tracks v lax s s' (pure a) (pure a) Q := by
  constructor
  · intro hs
    exact .ok hs ⟨rfl, rfl⟩ h
  · intro hs b t hrun
    obtain ⟨rfl, rfl⟩ := runs_pure.1 hrun
    rw [hs.later] at h
    exact ⟨hs, h⟩

theorem tracks_failAt {offset offset' : Text.Offset} {cause cause' : Cause}
    (h : v.Beside s s' → v.seam = none → cause' = cause) :
    Tracks v lax s s' (failAt offset cause) (failAt offset' cause') Q := by
  refine ⟨fun hs => .error fun hseam => ?_, fun _ _ _ hrun => absurd hrun not_runs_failAt⟩
  exact ⟨_, _, rfl, h hs hseam⟩

theorem tracks_fail {cause : Cause} : Tracks v lax s s' (fail cause) (fail cause) Q := by
  refine ⟨fun _ => .error fun _ => ⟨_, _, rfl, rfl⟩, fun _ _ _ hrun => absurd hrun not_runs_fail⟩

theorem tracks_refuse {k k' : Token} {message : String} (h : k.Alike k') :
    Tracks v lax s s' (refuse k message) (refuse k' message) Q :=
  tracks_failAt fun _ _ => by rw [h.describe]

theorem tracks_unexpected {message : String} :
    Tracks v lax s s' (unexpected message) (unexpected message) Q := by
  refine ⟨fun hs => .error fun hseam => ?_, fun _ _ _ hrun => absurd hrun not_runs_unexpected⟩
  exact ⟨_, _, rfl, by simp only [(hs.current_alike hseam).describe]⟩

theorem Stuck.tracks (hx : Stuck v x) (hs : v.Lost s) : Tracks v lax s s' x x' Q := by
  constructor
  · intro _
    cases hrun : x v.setting s with
    | ok a t => exact absurd hrun (hx s a t hs)
    | error e t => exact .error fun hseam => absurd hseam hs.seam
  · intro _ a t hrun
    exact absurd hrun (hx s a t hs)

theorem Tracks.of_lost (h : Tracks v true s s x x Q) (hs : v.Lost s) :
    Tracks v true s s' x x' Q := by
  refine ⟨fun _ => ?_, h.lost⟩
  cases hrun : x v.setting s with
  | ok a t =>
    have hlost := h.lost hs a t hrun
    exact .lost rfl hlost.1 hlost.2
  | error e t => exact .error fun hseam => absurd hseam hs.seam

theorem stuck_bind (hx : Stuck v x) : Stuck v (x >>= f) := by
  intro s b t hs hrun
  obtain ⟨a, u, ha, -⟩ := runs_bind.1 hrun
  exact hx s a u hs ha

theorem stuck_of_fewer (lax : Bool) (h : ∀ s, Tracks v lax s s x x' (Fewer s)) : Stuck v x := by
  intro s a t hs hrun
  have hlt := ((h s).lost hs a t hrun).2
  rw [Fewer, hs.later] at hlt
  exact Nat.not_lt_zero 0 hlt

/-- The parts of the runs agree one after the other. In a lax part the first run may come to its end if
it cannot succeed from there, or if the whole is lax. -/
theorem Tracks.bind_closed {inner : Bool} (hx : Tracks v inner s s' x x' P)
    (hf : ∀ a t t', P a t.later.length → Tracks v lax t t' (f a) (f' a) R)
    (hstuck : inner = true → lax = false → ∀ a, Stuck v (f a)) :
    Tracks v lax s s' (x >>= f) (x' >>= f') R := by
  constructor
  · intro hs
    have hmatched := hx.beside hs
    rw [bind_apply, bind_apply]
    revert hmatched
    generalize x v.setting s = r, x' v.setting s' = r'
    intro hmatched
    cases hmatched with
    | ok ht hst hP => exact .of_returns hst ((hf _ _ _ hP).beside ht)
    | @lost a t r hinner ht hP =>
      dsimp only
      cases hrun : f a v.setting t with
      | error e u => exact .error fun hseam => absurd hseam ht.seam
      | ok b u =>
        cases hlax : lax with
        | false => exact absurd hrun (hstuck hinner hlax a t b u ht)
        | true =>
          have hrest := (hf a t t (ht.later ▸ hP)).lost ht b u hrun
          exact .lost rfl hrest.1 hrest.2
    | @error e t r he =>
      refine .error fun hseam => ?_
      obtain ⟨e', t', hr, hcause⟩ := he hseam
      exact ⟨e', t', by rw [hr], hcause⟩
  · intro hs b t hrun
    obtain ⟨a, u, ha, hb⟩ := runs_bind.1 hrun
    obtain ⟨hu, hP⟩ := hx.lost hs a u ha
    exact (hf a u u (hu.later ▸ hP)).lost hu b t hb

theorem Tracks.bind (hx : Tracks v lax s s' x x' P)
    (hf : ∀ a t t', P a t.later.length → Tracks v lax t t' (f a) (f' a) R) :
    Tracks v lax s s' (x >>= f) (x' >>= f') R :=
  hx.bind_closed hf fun h h' => by rw [h] at h'; cases h'

theorem Tracks.bind_stuck (hx : Tracks v true s s' x x' P)
    (hf : ∀ a t t', P a t.later.length → Tracks v lax t t' (f a) (f' a) R)
    (hstuck : ∀ a, Stuck v (f a)) : Tracks v lax s s' (x >>= f) (x' >>= f') R :=
  hx.bind_closed hf fun _ _ => hstuck

theorem Tracks.map {g : α → β} (hx : Tracks v lax s s' x x' fun a n => R (g a) n) :
    Tracks v lax s s' (g <$> x) (g <$> x') R := by
  have h : Tracks v lax s s' (x >>= fun a => pure (g a)) (x' >>= fun a => pure (g a)) R :=
    hx.bind fun _ _ _ h => tracks_pure h
  exact h

theorem tracks_ite {p : Prop} [Decidable p] {y y' : Rule α} (hx : p → Tracks v lax s s' x x' Q)
    (hy : ¬ p → Tracks v lax s s' y y' Q) :
    Tracks v lax s s' (if p then x else y) (if p then x' else y') Q := by
  by_cases hp : p
  · rw [if_pos hp, if_pos hp]
    exact hx hp
  · rw [if_neg hp, if_neg hp]
    exact hy hp

/-! Steps that look at the tokens. At the seam the first run sees the end and the second a semicolon. -/

theorem tracks_read_bind {f f' : Setting → Rule β}
    (h : Tracks v lax s s' (f v.setting) (f' v.setting) R) :
    Tracks v lax s s' (read >>= f) (read >>= f') R := ⟨h.beside, h.lost⟩

theorem tracks_kind_bind {f f' : TokenKind → Rule β}
    (h : ∀ k, s.current.kind = k → Tracks v lax s s' (f k) (f' k) R)
    (hseam : v.AtSeam s s' → Tracks v lax s s' (f .eof) (f' .semicolon) R) :
    Tracks v lax s s' (kind >>= f) (kind >>= f') R := by
  refine ⟨fun hs => ?_, (h _ rfl).lost⟩
  change Matched v lax s R (f s.current.kind v.setting s) (f' s'.current.kind v.setting s')
  rcases hs.inStep_or_atSeam with hstep | hat
  · rw [hstep.current.kind]
    exact (h _ rfl).beside hs
  · rw [hat.kind, hat.kind']
    exact (hseam hat).beside hs

theorem tracks_kind_bind_lax {f : TokenKind → Rule β}
    (h : ∀ k s', s.current.kind = k → Tracks v true s s' (f k) (f k) R) :
    Tracks v true s s' (kind >>= f) (kind >>= f) R :=
  tracks_kind_bind (fun k hk => h k s' hk) fun hat => (h .eof s hat.kind).of_lost hat.toLost

theorem tracks_flag_bind (f f' : Bool → Rule β)
    (h : Tracks v lax s s' (f s.structLiterals) (f' s.structLiterals) R) :
    Tracks v lax s s' (get >>= fun u => f u.structLiterals) (get >>= fun u => f' u.structLiterals)
      R := by
  refine ⟨fun hs => ?_, h.lost⟩
  change Matched v lax s R (f s.structLiterals v.setting s) (f' s'.structLiterals v.setting s')
  rw [hs.structLiterals]
  exact h.beside hs

theorem tracks_current_bind {f f' : Token → Rule β}
    (h : ∀ k k', k.Alike k' → Tracks v lax s s' (f k) (f' k') R) (hstuck : ∀ k, Stuck v (f k)) :
    Tracks v lax s s' (current >>= f) (current >>= f') R := by
  refine ⟨fun hs => ?_, (h _ _ (.refl s.current)).lost⟩
  rcases hs.inStep_or_atSeam with hstep | hat
  · exact (h _ _ hstep.current).beside hs
  · exact ((hstuck s.current).tracks hat.toLost).beside hs

theorem tracks_advance_bind {f f' : Token → Rule β}
    (h : s.current.Alike s'.current → (s.current.kind ≠ .eof → s.next.later.length < s.later.length) →
      Tracks v lax s.next s'.next (f s.current) (f' s'.current) R)
    (hstuck : s.current.kind = .eof → Stuck v (f s.current)) :
    Tracks v lax s s' (advance >>= f) (advance >>= f') R := by
  constructor
  · intro hs
    change Matched v lax s R (f s.current v.setting s.next) (f' s'.current v.setting s'.next)
    rcases hs.inStep_or_atSeam with hstep | hat
    · exact .of_returns s.returns_next ((h hstep.current hstep.lt).beside hstep.next)
    · rw [hat.next]
      cases hrun : f s.current v.setting s with
      | ok b t => exact absurd hrun (hstuck hat.kind s b t hat.toLost)
      | error e t => exact .error fun hseam => absurd hseam hat.seam
  · intro hs b t hrun
    rw [runs_advance_bind, hs.next] at hrun
    exact absurd hrun (hstuck hs.kind s b t hs)

theorem tracks_advance_bind_of_ne {f f' : Token → Rule β} (hk : s.current.kind ≠ .eof)
    (h : s.current.Alike s'.current → s.next.later.length < s.later.length →
      Tracks v lax s.next s'.next (f s.current) (f' s'.current) R) :
    Tracks v lax s s' (advance >>= f) (advance >>= f') R :=
  tracks_advance_bind (fun halike hlt => h halike (hlt hk)) fun heof => absurd heof hk

theorem tracks_wanted_bind {k : TokenKind} {y : Rule Token} {f f' : Token → Rule β} (hk : k ≠ .eof)
    (hy : ∀ t t', Tracks v lax t t' (y >>= f) (y >>= f') R) (hstuck : Stuck v (y >>= f))
    (h : s.current.kind = k → s.current.Alike s'.current → s.next.later.length < s.later.length →
      Tracks v lax s.next s'.next (f s.current) (f' s'.current) R) :
    Tracks v lax s s' ((do if (← kind) = k then advance else y) >>= f)
      ((do if (← kind) = k then advance else y) >>= f') R := by
  have hassoc : ∀ g : Token → Rule β, ((do if (← kind) = k then advance else y) >>= g) =
      kind >>= fun x => if x = k then advance >>= g else y >>= g := by
    intro g
    rw [bind_assoc]
    congr 1
    funext x
    split <;> rfl
  rw [hassoc, hassoc]
  refine tracks_kind_bind (fun x hx => tracks_ite (fun hxk => ?_) fun _ => hy s s') fun hat => ?_
  · have hs := hx.trans hxk
    exact tracks_advance_bind_of_ne (hs ▸ hk) (h hs)
  · rw [if_neg hk.symm]
    exact hstuck.tracks hat.toLost

theorem tracks_expect_bind {k : TokenKind} {f f' : Token → Rule β} (hk : k ≠ .eof)
    (h : s.current.kind = k → s.current.Alike s'.current → s.next.later.length < s.later.length →
      Tracks v lax s.next s'.next (f s.current) (f' s'.current) R) :
    Tracks v lax s s' (expect k >>= f) (expect k >>= f') R := by
  have hstuck : Stuck v ((do fail (.unexpectedToken (← current).describe)) >>= f) :=
    stuck_bind fun _ _ _ _ hrun => not_runs_fail (runs_current_bind.1 hrun)
  refine tracks_wanted_bind hk (fun t t' => ?_) hstuck h
  refine ⟨fun hs => .error fun hseam => ⟨_, _, rfl, ?_⟩, fun hs b u hrun => absurd hrun (hstuck t b u hs)⟩
  simp only [(hs.current_alike hseam).describe]

theorem tracks_expectOr_bind {k : TokenKind} {message : String} {f f' : Token → Rule β}
    (hk : k ≠ .eof)
    (h : s.current.kind = k → s.current.Alike s'.current → s.next.later.length < s.later.length →
      Tracks v lax s.next s'.next (f s.current) (f' s'.current) R) :
    Tracks v lax s s' (expectOr k message >>= f) (expectOr k message >>= f') R := by
  have hstuck : Stuck v (unexpected message >>= f) := stuck_bind fun _ _ _ _ => not_runs_unexpected
  refine tracks_wanted_bind hk (fun t t' => ?_) hstuck h
  refine ⟨fun hs => .error fun hseam => ⟨_, _, rfl, ?_⟩, fun hs b u hrun => absurd hrun (hstuck t b u hs)⟩
  simp only [(hs.current_alike hseam).describe]

theorem stuck_expect_bind {k : TokenKind} {f : Token → Rule β} (hk : k ≠ .eof) :
    Stuck v (expect k >>= f) := by
  intro s b t hs hrun
  exact hk ((runs_expect_bind.1 hrun).1.symm.trans hs.kind)

theorem stuck_expectOr_bind {k : TokenKind} {message : String} {f : Token → Rule β}
    (hk : k ≠ .eof) : Stuck v (expectOr k message >>= f) := by
  intro s b t hs hrun
  exact hk ((runs_expectOr_bind.1 hrun).1.symm.trans hs.kind)

theorem kindAhead_one (h : s.later ≠ []) : s.kindAhead 1 = s.next.current.kind := by
  unfold State.kindAhead State.next
  cases hl : s.later with
  | nil => exact absurd hl h
  | cons k ks => rfl

theorem tracks_kindAhead_bind {f f' : TokenKind → Rule β} (hk : s.current.kind ≠ .eof)
    (h : Tracks v lax s s' (f (s.kindAhead 1)) (f' (s.kindAhead 1)) R)
    (hseam : Tracks v lax s s' (f .eof) (f' .semicolon) R) :
    Tracks v lax s s' (kindAhead 1 >>= f) (kindAhead 1 >>= f') R := by
  refine ⟨fun hs => ?_, fun hs => absurd hs.kind hk⟩
  change Matched v lax s R (f (s.kindAhead 1) v.setting s) (f' (s'.kindAhead 1) v.setting s')
  rcases hs.inStep_or_atSeam with hstep | hat
  · have hlater : s.later ≠ [] := List.ne_nil_of_length_pos (Nat.zero_lt_of_lt (hstep.lt hk))
    have hlater' : s'.later ≠ [] :=
      List.ne_nil_of_length_pos (Nat.lt_of_lt_of_le (List.length_pos_iff.2 hlater) hs.later_length_le)
    rcases hstep.next.inStep_or_atSeam with hstep | hat
    · have hkind : s'.kindAhead 1 = s.kindAhead 1 := by
        rw [kindAhead_one hlater, kindAhead_one hlater', hstep.current.kind]
      rw [hkind]
      exact h.beside hs
    · rw [kindAhead_one hlater, kindAhead_one hlater', hat.kind, hat.kind']
      exact hseam.beside hs
  · exact absurd hat.kind hk

/-! Steps that change the rest of the state. -/

theorem Matched.finish {v' : View} {u : State} {r r' : EStateM.Result Error State α}
    {g g' : α → State → β} {k k' : State → State} (h : Matched v' lax u Q r r')
    (hseam : v'.seam = v.seam)
    (hok : ∀ a t t', v'.Beside t t' → u.Returns t → Q a t.later.length →
      g' a t' = g a t ∧ v.Beside (k t) (k' t') ∧ s.Returns (k t) ∧ R (g a t) (k t).later.length)
    (hlost : ∀ a t, v'.Lost t → Q a 0 → v.Lost (k t) ∧ R (g a t) 0) :
    Matched v lax s R (Grammar.finish g k r) (Grammar.finish g' k' r') := by
  cases h with
  | @ok a t t' ht hst hQ =>
    obtain ⟨hvalue, hbeside, hreturns, hR⟩ := hok a t t' ht hst hQ
    rw [Grammar.finish, Grammar.finish, hvalue]
    exact .ok hbeside hreturns hR
  | @lost a t _ hlax ht hQ =>
    obtain ⟨hlost, hR⟩ := hlost a t ht hQ
    exact .lost hlax hlost hR
  | error he =>
    refine .error fun hnone => ?_
    obtain ⟨e', t', rfl, hcause⟩ := he (hseam.trans hnone)
    exact ⟨e', _, rfl, hcause⟩

theorem tracks_withStructLiterals {allowed : Bool}
    (h : Tracks v lax { s with structLiterals := allowed } { s' with structLiterals := allowed } x x'
      Q) : Tracks v lax s s' (withStructLiterals allowed x) (withStructLiterals allowed x') Q := by
  constructor
  · intro hs
    have hmatched := h.beside ⟨⟨hs.depth, hs.peak, rfl⟩, hs.tokens⟩
    rw [withStructLiterals_apply, withStructLiterals_apply]
    refine hmatched.finish rfl (fun a t t' ht hst hQ => ?_) fun a t ht hQ => ?_
    · exact ⟨rfl, ⟨⟨ht.depth, ht.peak, hs.structLiterals⟩, ht.tokens⟩, ⟨hst.depth, rfl⟩, hQ⟩
    · exact ⟨⟨ht.seam, ht.kind, ht.later⟩, hQ⟩
  · intro hs a t hrun
    obtain ⟨u, hu, rfl⟩ := runs_withStructLiterals.1 hrun
    obtain ⟨hlost, hQ⟩ := h.lost ⟨hs.seam, hs.kind, hs.later⟩ a u hu
    exact ⟨⟨hlost.seam, hlost.kind, hlost.later⟩, hQ⟩

theorem tracks_measured
    (h : Tracks (v.above 0) lax { s with peak := s.depth } { s' with peak := s'.depth } x x' Q) :
    Tracks v lax s s' (measured x) (measured x') fun p n => Q p.1 n := by
  constructor
  · intro hs
    have hpeak : s'.depth = max s.depth 0 := by rw [hs.depth, Nat.max_zero]
    have hmatched := h.beside ⟨⟨hs.depth, hpeak, hs.structLiterals⟩, hs.tokens⟩
    rw [measured_apply, measured_apply]
    refine hmatched.finish rfl (fun a t t' ht hst hQ => ?_) fun a t ht hQ => ?_
    · have htpeak : t'.peak = t.peak := ht.peak.trans (Nat.max_zero _)
      have htop : max t'.peak s'.peak = max (max t.peak s.peak) v.floor := by
        rw [htpeak, hs.peak, Nat.max_assoc]
      refine ⟨?_, ⟨⟨ht.depth, htop, ht.structLiterals⟩, ht.tokens⟩, ⟨hst.depth, hst.structLiterals⟩, hQ⟩
      rw [htpeak, ht.depth]
    · exact ⟨⟨ht.seam, ht.kind, ht.later⟩, hQ⟩
  · rintro hs ⟨a, n⟩ t hrun
    obtain ⟨u, hu, -, rfl⟩ := runs_measured.1 hrun
    obtain ⟨hlost, hQ⟩ := h.lost ⟨hs.seam, hs.kind, hs.later⟩ a u hu
    exact ⟨⟨hlost.seam, hlost.kind, hlost.later⟩, hQ⟩

theorem tracks_reach {levels : Nat} : Tracks v lax s s' (reach levels) (reach levels) (NoMore s) := by
  constructor
  · intro hs
    rw [reach_apply, reach_apply, hs.depth]
    by_cases hlimit : v.setting.limit < s.depth + levels
    · rw [if_pos hlimit, if_pos hlimit]
      exact tracks_fail.beside hs
    · rw [if_neg hlimit, if_neg hlimit]
      have hpeak : max s'.peak (s.depth + levels) = max (max s.peak (s.depth + levels)) v.floor := by
        rw [hs.peak, Nat.max_right_comm]
      exact .ok ⟨⟨rfl, hpeak, hs.structLiterals⟩, hs.tokens⟩ ⟨rfl, rfl⟩ (Nat.le_refl _)
  · intro hs a t hrun
    obtain ⟨-, rfl⟩ := runs_reach.1 hrun
    exact ⟨⟨hs.seam, hs.kind, hs.later⟩, Nat.zero_le _⟩

theorem tracks_deeper
    (h : Tracks v lax { s with depth := s.depth + 1 } { s' with depth := s'.depth + 1 } x x' Q) :
    Tracks v lax s s' (deeper x) (deeper x') Q := by
  constructor
  · intro hs
    have hdepth : s'.depth + 1 = s.depth + 1 := by rw [hs.depth]
    have hmatched := h.beside ⟨⟨hdepth, hs.peak, hs.structLiterals⟩, hs.tokens⟩
    rw [deeper_apply, deeper_apply]
    refine hmatched.finish rfl (fun a t t' ht hst hQ => ?_) fun a t ht hQ => ?_
    · have hup : t'.depth - 1 = t.depth - 1 := by rw [ht.depth]
      have hback : t.depth - 1 = s.depth := by rw [hst.depth, Nat.add_sub_cancel]
      exact ⟨rfl, ⟨⟨hup, ht.peak, ht.structLiterals⟩, ht.tokens⟩, ⟨hback, hst.structLiterals⟩, hQ⟩
    · exact ⟨⟨ht.seam, ht.kind, ht.later⟩, hQ⟩
  · intro hs a t hrun
    obtain ⟨u, hu, rfl⟩ := runs_deeper.1 hrun
    obtain ⟨hlost, hQ⟩ := h.lost ⟨hs.seam, hs.kind, hs.later⟩ a u hu
    exact ⟨⟨hlost.seam, hlost.kind, hlost.later⟩, hQ⟩

theorem tracks_nested (h : ∀ t t', Tracks v lax t t' x x' (Fewer t)) :
    Tracks v lax s s' (nested x) (nested x') (Fewer s) := by
  refine tracks_reach.bind fun _ t t' ht => ?_
  exact (tracks_deeper (h _ _)).mono fun _ n hn => Nat.lt_of_lt_of_le hn ht

end Blocks

section Loops

variable {α : Type} {v : View} {lax : Bool} {s s' : State} {Q : α → Nat → Prop}

/-- What a turn keeps for the turns behind it, each of which passes a token, and for the end. -/
def Keeps (I Q : α → Nat → Prop) (left : Nat) : Turn α → Nat → Prop
  | .more b, n => n < left ∧ I b n
  | .done b, n => Q b n

theorem tracks_loop {turn : α → Rule (Turn α)} {a : α} {I : α → Nat → Prop}
    (hturn : ∀ a s s', I a s.later.length →
      Tracks v lax s s' (turn a) (turn a) (Keeps I Q s.later.length))
    (ha : I a s.later.length) : Tracks v lax s s' (loop a turn) (loop a turn) Q := by
  -- The second run has no fewer turns than the first, and the first does not run out of them.
  have key : ∀ turns turns' a s s', s.later.length ≤ turns.length → turns.length ≤ turns'.length →
      I a s.later.length →
        Tracks v lax s s' (loopFrom turn turns a) (loopFrom turn turns' a) Q := by
    intro turns
    induction turns with
    | nil =>
      intro turns' a s s' hlen _ ha
      have hmore : ∀ b n, ¬ Keeps I Q s.later.length (.more b) n :=
        fun b n h => Nat.not_lt_zero n (Nat.lt_of_lt_of_le h.1 hlen)
      cases turns' with
      | nil =>
        refine (hturn a s s' ha).bind fun x t t' hx => ?_
        cases x with
        | more b => exact absurd hx (hmore b _)
        | done b => exact tracks_pure hx
      | cons k turns' =>
        refine (hturn a s s' ha).bind fun x t t' hx => ?_
        cases x with
        | more b => exact absurd hx (hmore b _)
        | done b => exact tracks_pure hx
    | cons k turns ih =>
      intro turns' a s s' hlen hle ha
      cases turns' with
      | nil => exact absurd hle (Nat.not_succ_le_zero _)
      | cons k' turns' =>
        refine (hturn a s s' ha).bind fun x t t' hx => ?_
        cases x with
        | more b =>
          have hshorter := Nat.lt_of_lt_of_le hx.1 hlen
          exact ih turns' b t t' (Nat.le_of_lt_succ hshorter) (Nat.le_of_succ_le_succ hle) hx.2
        | done b => exact tracks_pure hx
  constructor
  · intro hs
    exact (key s.later s'.later a s s' (Nat.le_refl _) hs.later_length_le ha).beside hs
  · exact (key s.later s.later a s s (Nat.le_refl _) (Nat.le_refl _) ha).lost

def Progress (left : Nat) (o : Option α) (n : Nat) : Prop :=
  n ≤ left ∧ (o.isSome → n < left)

theorem tracks_many {rule : Rule (Option α)}
    (h : ∀ s s', Tracks v lax s s' rule rule (Progress s.later.length)) :
    Tracks v lax s s' (many rule) (many rule) (NoMore s) := by
  rw [many_eq]
  refine tracks_loop (I := NoMore s) (fun found t t' ht => ?_) (Nat.le_refl _)
  refine (h t t').bind fun o u u' ho => ?_
  cases o with
  | none => exact tracks_pure (Nat.le_trans ho.1 ht)
  | some a => exact tracks_pure ⟨ho.2 rfl, Nat.le_trans ho.1 ht⟩

theorem tracks_skipSemicolons : Tracks v true s s' skipSemicolons skipSemicolons (NoMore s) := by
  refine tracks_loop (I := NoMore s) (fun _ t t' ht => ?_) (Nat.le_refl _)
  refine tracks_kind_bind (fun k hk => tracks_ite (fun hsemi => ?_) fun _ => tracks_pure ht) ?_
  · refine tracks_advance_bind_of_ne (by rw [hk, hsemi]; decide) fun _ hlt => ?_
    exact tracks_pure ⟨hlt, Nat.le_trans (Nat.le_of_lt hlt) ht⟩
  · intro hat
    exact Tracks.of_lost (tracks_pure ht) hat.toLost

theorem tracks_separated {close : TokenKind} {message : String} {item : Rule α} (hclose : close ≠ .eof)
    (h : ∀ s s', Tracks v lax s s' item item (Fewer s)) :
    Tracks v lax s s' (separated close message item) (separated close message item) (NoMore s) := by
  have hstuck : Stuck v item := stuck_of_fewer lax fun s => h s s
  refine tracks_many fun t t' => ?_
  refine tracks_kind_bind (fun k _ => tracks_ite (fun _ => tracks_pure ?_) fun _ => ?_) fun hat => ?_
  · exact ⟨Nat.le_refl _, nofun⟩
  · refine (h t t').bind fun a u u' hu => ?_
    have hprogress : Progress t.later.length (some a) u.later.length := ⟨Nat.le_of_lt hu, fun _ => hu⟩
    refine tracks_kind_bind (fun k _ => tracks_ite (fun _ => tracks_pure hprogress) fun _ => ?_)
      fun hat => ?_
    · refine tracks_expectOr_bind (by decide) fun _ _ hlt => tracks_pure ?_
      exact ⟨Nat.le_of_lt (Nat.lt_trans hlt hu), fun _ => Nat.lt_trans hlt hu⟩
    · rw [if_neg hclose.symm]
      exact (stuck_expectOr_bind (by decide)).tracks hat.toLost
  · rw [if_neg hclose.symm]
    exact (stuck_bind hstuck).tracks hat.toLost

end Loops

/-- The rules one level down track, those for statements in a lax comparison. -/
def BelowTracks (v : View) (below : Below) : Prop :=
  ∀ floor goal lax s s', (goal = .statement → lax = true) →
    Tracks (v.above floor) lax s s' (below goal) (below goal) (Fewer s)

section Below

variable {v : View} {below : Below} {lax : Bool}

theorem BelowTracks.above (hb : BelowTracks v below) (floor : Nat) :
    BelowTracks (v.above floor) below := hb

theorem BelowTracks.type (hb : BelowTracks v below) (s s' : State) :
    Tracks v lax s s' (below .type) (below .type) (Fewer s) := hb v.floor .type lax s s' nofun

theorem BelowTracks.expression (hb : BelowTracks v below) (power : Power) (s s' : State) :
    Tracks v lax s s' (below (.expression power)) (below (.expression power)) (Fewer s) :=
  hb v.floor (.expression power) lax s s' nofun

theorem BelowTracks.statement (hb : BelowTracks v below) (s s' : State) :
    Tracks v true s s' (below .statement) (below .statement) (Fewer s) :=
  hb v.floor .statement true s s' fun _ => rfl

theorem BelowTracks.stuck (hb : BelowTracks v below) (goal : Goal) : Stuck v (below goal) :=
  stuck_of_fewer true fun s => hb v.floor goal true s s fun _ => rfl

end Below

end Grammar

end MiniGo
