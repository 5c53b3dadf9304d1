import MiniGo.Proofs.Grammar.Spacing
import MiniGo.Proofs.Token.Joined

/-!
Sources compose. The tokens of two sources with a semicolon on a line of its own between them are those of
the first without its end, the semicolon and those of the second. Up to there the rules do what they do on
the first source, and behind it what they do on the second: the level, struct literals and the levels
reached so far carry nothing over that matters.
-/
namespace MiniGo

open Text

namespace Lexer

section Scans

variable {offset : Nat} {pending : Bool} {text text' : List Char} {tokens tokens' : List Token}

theorem Scan.append (h : Scan offset pending text tokens) (h' : Scan 0 false text' tokens') :
    ∃ init e front semicolon back, tokens = init ++ [e] ∧ e.kind = .eof ∧
      Scan offset pending (text ++ '\n' :: ';' :: '\n' :: text') (front ++ semicolon :: back) ∧
      front.map Token.content = init.map Token.content ∧ semicolon.kind = .semicolon ∧
      back.map Token.content = tokens'.map Token.content := by
  obtain ⟨init, rfl, hjoined⟩ := h.tokensFrom_newline "" (';' :: '\n' :: text')
  generalize hseam : offset + byteLength text + 1 = seam at hjoined
  have hsemicolon : Begins ';' [] ('\n' :: text') .semicolon ";" := rfl
  have hbehind := tokensFrom_shift "" (seam + 2) 0 false text'
  rw [tokensFrom_eq_ok_iff.2 h', Nat.zero_add] at hbehind
  have hnewline : tokensFrom "" (seam + 1) false ('\n' :: text') = tokensFrom "" (seam + 2) false text' := by
    rw [tokensFrom_blank rfl]
    exact map_nil_append _
  have htail : tokensFrom "" seam false (';' :: '\n' :: text') =
      .ok (.covering .semicolon ";" seam [';'] :: tokens'.map (Token.shift (seam + 2))) := by
    refine hsemicolon.tokensFrom.trans ?_
    change (tokensFrom "" (seam + 1) false ('\n' :: text')).map _ = _
    rw [hnewline, hbehind]
    rfl
  rw [htail] at hjoined
  refine ⟨init, _, init, _, _, rfl, rfl, scan_of_tokensFrom hjoined, rfl, rfl, ?_⟩
  rw [List.map_map]
  rfl

end Scans

end Lexer

namespace Grammar

/-- The first run has come to its end and the second is behind the semicolon of the seam. -/
structure View.Past (v : View) (s s' : State) : Prop extends v.Lost s, v.Level s s' where
  behind : v.seam = some s'.tokens

section Runs

variable {v : View} {s s' t : State} {k : Token} {ks : List Token}

theorem State.next_of_later_ne_nil (h : s.later ≠ []) : s.next.tokens = s.later ∧
    s.next.depth = s.depth ∧ s.next.peak = s.peak ∧ s.next.structLiterals = s.structLiterals := by
  unfold State.next
  cases hl : s.later with
  | nil => exact absurd hl h
  | cons k ks => exact ⟨rfl, rfl, rfl, rfl⟩

theorem View.InStep.kind_ne_eof (hstep : v.InStep s s') (hv : v.seam = some (k :: ks)) :
    s.current.kind ≠ .eof := by
  intro heof
  rw [hstep.last heof] at hv
  cases hv

theorem View.AtSeam.later_ne_nil (hat : v.AtSeam s s') (hv : v.seam = some (k :: ks)) :
    s'.later ≠ [] := by
  intro hlater
  rw [hat.behind, hlater] at hv
  cases hv

theorem View.AtSeam.past (hat : v.AtSeam s s') (hs : v.Level s s') (hv : v.seam = some (k :: ks)) :
    v.Past s s'.next := by
  have hlater := hat.later_ne_nil hv
  obtain ⟨htokens, hdepth, hpeak, hflag⟩ := State.next_of_later_ne_nil hlater
  exact ⟨hat.toLost, ⟨by rw [hdepth, hs.depth], by rw [hpeak, hs.peak],
    by rw [hflag, hs.structLiterals]⟩, by rw [htokens, hat.behind]⟩

def semicolonTurn (_ : Unit) : Rule (Turn Unit) := do
  if (← kind) = .semicolon then
    let _ ← advance
    return .more ()
  else return .done ()

private theorem skipSemicolons_apply (c : Setting) :
    skipSemicolons c s = loopFrom semicolonTurn s.later () c s := rfl

@[simp] theorem semicolonTurn_apply (c : Setting) : semicolonTurn () c s =
    if s.current.kind = .semicolon then .ok (.more ()) s.next else .ok (.done ()) s := by
  change (if s.current.kind = .semicolon then (do let _ ← advance; return .more ()) else
    return .done () : Rule (Turn Unit)) c s = _
  split <;> rfl

theorem skipSemicolons_of_ne {c : Setting} (h : s.current.kind ≠ .semicolon) :
    skipSemicolons c s = .ok () s := by
  rw [skipSemicolons_apply]
  cases s.later with
  | nil =>
    rw [loopFrom, bind_apply, semicolonTurn_apply, if_neg h]
    rfl
  | cons k ks =>
    rw [loopFrom, bind_apply, semicolonTurn_apply, if_neg h]
    rfl

theorem skipSemicolons_of_eq {c : Setting} (h : s.current.kind = .semicolon) (hlater : s.later ≠ []) :
    skipSemicolons c s = skipSemicolons c s.next := by
  have htokens := (State.next_of_later_ne_nil hlater).1
  rw [skipSemicolons_apply, ← htokens, State.tokens, loopFrom, bind_apply, semicolonTurn_apply,
    if_pos h]
  rfl

/-- What the second run does behind the semicolons that the first passes: it is beside the first, or
goes on with semicolons behind the seam. -/
theorem skipSemicolons_follows (hv : v.seam = some (k :: ks)) (hs : v.Beside s s') :
    ∃ t t', skipSemicolons v.setting s = .ok () t ∧ s.Returns t ∧
      (v.Beside t t' ∧ t.current.kind ≠ .eof ∧ skipSemicolons v.setting s' = .ok () t' ∨
        v.Past t t' ∧ skipSemicolons v.setting s' = skipSemicolons v.setting t') := by
  induction hlength : s.later.length using Nat.strongRecOn generalizing s s' with
  | _ length ih =>
    rcases hs.inStep_or_atSeam with hstep | hat
    · have hk : s.current.kind ≠ .eof := hstep.kind_ne_eof hv
      by_cases hsemi : s.current.kind = .semicolon
      · have hlt := hstep.lt hk
        have hlater : s.later ≠ [] := List.ne_nil_of_length_pos (Nat.zero_lt_of_lt hlt)
        have hlater' : s'.later ≠ [] := List.ne_nil_of_length_pos
          (Nat.lt_of_lt_of_le (List.length_pos_iff.2 hlater) hs.later_length_le)
        have hsemi' : s'.current.kind = .semicolon := hstep.current.kind.trans hsemi
        obtain ⟨t, t', hskip, hreturns, hrest⟩ := ih _ (hlength ▸ hlt) hstep.next rfl
        rw [skipSemicolons_of_eq hsemi hlater, skipSemicolons_of_eq hsemi' hlater']
        exact ⟨t, t', hskip, s.returns_next.trans hreturns, hrest⟩
      · have hsemi' : s'.current.kind ≠ .semicolon := hstep.current.kind ▸ hsemi
        exact ⟨s, s', skipSemicolons_of_ne hsemi, ⟨rfl, rfl⟩,
          .inl ⟨hs, hk, skipSemicolons_of_ne hsemi'⟩⟩
    · have hlater' := hat.later_ne_nil hv
      refine ⟨s, s'.next, skipSemicolons_of_ne (by rw [hat.kind]; decide), ⟨rfl, rfl⟩, .inr ?_⟩
      exact ⟨hat.past hs.toLevel hv, skipSemicolons_of_eq hat.kind' hlater'⟩

theorem terminator_follows (hv : v.seam = some (k :: ks)) (hs : v.Beside s s')
    (hrun : Rule.Runs terminator v.setting s () t) :
    ∃ t', Rule.Runs terminator v.setting s' () t' ∧ s.Returns t ∧ (v.Beside t t' ∨ v.Past t t') := by
  simp only [terminator, runs_kind_bind] at hrun ⊢
  rcases hs.inStep_or_atSeam with hstep | hat
  · rw [hstep.current.kind]
    split at hrun
    · rw [runs_advance_bind] at hrun
      obtain ⟨-, rfl⟩ := runs_pure.1 hrun
      exact ⟨s'.next, runs_advance_bind.2 (runs_pure.2 ⟨rfl, rfl⟩), s.returns_next, .inl hstep.next⟩
    · obtain ⟨-, rfl⟩ := runs_pure.1 hrun
      exact ⟨s', runs_pure.2 ⟨rfl, rfl⟩, ⟨rfl, rfl⟩, .inl hs⟩
    · obtain ⟨-, rfl⟩ := runs_pure.1 hrun
      exact ⟨s', runs_pure.2 ⟨rfl, rfl⟩, ⟨rfl, rfl⟩, .inl hs⟩
    · rename_i heof
      exact absurd heof (hstep.kind_ne_eof hv)
    · exact absurd hrun not_runs_unexpected
  · rw [hat.kind] at hrun
    rw [hat.kind']
    obtain ⟨-, rfl⟩ := runs_pure.1 hrun
    exact ⟨s'.next, runs_advance_bind.2 (runs_pure.2 ⟨rfl, rfl⟩), ⟨rfl, rfl⟩,
      .inr (hat.past hs.toLevel hv)⟩

theorem Tracks.runs {α : Type} {x x' : Rule α} {Q : α → Nat → Prop} {a : α}
    (h : Tracks v false s s' x x' Q) (hs : v.Beside s s') (hrun : Rule.Runs x v.setting s a t) :
    ∃ t', Rule.Runs x' v.setting s' a t' ∧ v.Beside t t' ∧ s.Returns t := by
  have hmatched := h.beside hs
  rw [hrun] at hmatched
  generalize hrun' : x' v.setting s' = r at hmatched
  cases hmatched with
  | ok ht hst => exact ⟨_, hrun', ht, hst⟩
  | lost hlax => cases hlax

theorem statementBody_follows (hv : v.seam = some (k :: ks)) (hs : v.Beside s s')
    (hk : s.current.kind ≠ .eof) {below : Below} (hb : BelowTracks v below) {n : Node}
    (hrun : Rule.Runs (statementBody below) v.setting s n t) :
    ∃ t', Rule.Runs (statementBody below) v.setting s' n t' ∧ s.Returns t ∧
      (v.Beside t t' ∨ v.Past t t') := by
  have hkind : s'.current.kind = s.current.kind := by
    rcases hs.inStep_or_atSeam with hstep | hat
    · exact hstep.current.kind
    · exact absurd hat.kind hk
  obtain ⟨rule, ⟨core, rfl, hcore⟩, hrule⟩ := statementBody_terminates hb s.current.kind
  rw [Rule.Runs, hrule s rfl] at hrun
  obtain ⟨n', u, hu, hrest⟩ := runs_bind.1 hrun
  obtain ⟨_, _, hterminator, hpure⟩ := runs_bind.1 hrest
  obtain ⟨rfl, rfl⟩ := runs_pure.1 hpure
  have htracks : Tracks v false s s' core core (Fewer s) := hcore v.floor false s s' rfl
  obtain ⟨u', hu', hbeside, hreturns⟩ := htracks.runs hs hu
  obtain ⟨t', ht', hback, hfollows⟩ := terminator_follows hv hbeside hterminator
  refine ⟨t', ?_, hreturns.trans hback, hfollows⟩
  rw [Rule.Runs, hrule s' hkind]
  exact runs_bind.2 ⟨n, u', hu', runs_bind.2 ⟨(), t', ht', runs_pure.2 ⟨rfl, rfl⟩⟩⟩

theorem statement_follows (hv : v.seam = some (k :: ks)) (hs : v.Beside s s')
    (hk : s.current.kind ≠ .eof) {n : Node} (hrun : Rule.Runs statement v.setting s n t) :
    ∃ t', Rule.Runs statement v.setting s' n t' ∧ s.Returns t ∧ (v.Beside t t' ∨ v.Past t t') := by
  change Rule.Runs (produce (v.setting.limit - s.depth) .statement) v.setting s n t at hrun
  change ∃ t', Rule.Runs (produce (v.setting.limit - s'.depth) .statement) v.setting s' n t' ∧ _
  rw [hs.depth]
  cases hlevels : v.setting.limit - s.depth with
  | zero =>
    rw [hlevels] at hrun
    exact absurd hrun not_runs_fail
  | succ levels =>
    rw [hlevels] at hrun
    obtain ⟨hlimit, u, hu, rfl⟩ := runs_nested.1 hrun
    have hpeak : max s'.peak (s'.depth + 1) = max (max s.peak (s.depth + 1)) v.floor := by
      rw [hs.peak, hs.depth, Nat.max_right_comm]
    have hdeeper : v.Beside { s with depth := s.depth + 1, peak := max s.peak (s.depth + 1) }
        { s' with depth := s'.depth + 1, peak := max s'.peak (s'.depth + 1) } :=
      ⟨⟨congrArg (· + 1) hs.depth, hpeak, hs.structLiterals⟩, hs.tokens⟩
    obtain ⟨u', hu', hreturns, hfollows⟩ :=
      statementBody_follows hv hdeeper hk (produce_tracks v levels) hu
    have hback : u.depth - 1 = s.depth := by rw [hreturns.depth, Nat.add_sub_cancel]
    refine ⟨{ u' with depth := u'.depth - 1 }, runs_nested.2 ⟨hs.depth ▸ hlimit, u', hu', rfl⟩,
      ⟨hback, hreturns.structLiterals⟩, ?_⟩
    rcases hfollows with h | h
    · exact .inl ⟨⟨congrArg (· - 1) h.depth, h.peak, h.structLiterals⟩, h.tokens⟩
    · exact .inr ⟨⟨h.seam, h.kind, h.later⟩,
        ⟨congrArg (· - 1) h.depth, h.peak, h.structLiterals⟩, h.behind⟩

/-- What the second run does where the first takes an item: the same, or, if there is none, what it does
behind the seam. -/
theorem item_follows (hv : v.seam = some (k :: ks)) (hs : v.Beside s s')
    {o : Option Node} (hrun : Rule.Runs item v.setting s o t) :
    s.Returns t ∧
      ((∃ n t', o = some n ∧ Rule.Runs item v.setting s' (some n) t' ∧
        (v.Beside t t' ∨ v.Past t t')) ∨
      ∃ t', o = none ∧ v.Past t t' ∧ item v.setting s' = item v.setting t') := by
  obtain ⟨u, u', hskip, hreturns, hfollows⟩ := skipSemicolons_follows hv hs
  obtain ⟨_, w, hw, hrest⟩ := runs_bind.1 hrun
  rw [Rule.Runs, hskip] at hw
  cases hw
  rw [runs_kind_bind] at hrest
  rcases hfollows with ⟨hbeside, hk, hskip'⟩ | ⟨hpast, hskip'⟩
  · rw [if_neg hk] at hrest
    obtain ⟨n, w, hn, hpure⟩ := runs_bind.1 hrest
    obtain ⟨rfl, rfl⟩ := runs_pure.1 hpure
    obtain ⟨t', hn', hback, hfollows⟩ := statement_follows hv hbeside hk hn
    refine ⟨hreturns.trans hback, .inl ⟨n, t', rfl, ?_, hfollows⟩⟩
    have hk' : u'.current.kind ≠ .eof := by
      rcases hbeside.inStep_or_atSeam with hstep | hat
      · rw [hstep.current.kind]
        exact hk
      · exact absurd hat.kind hk
    refine runs_bind.2 ⟨(), u', hskip', ?_⟩
    rw [runs_kind_bind, if_neg hk']
    exact runs_bind.2 ⟨n, t', hn', runs_pure.2 ⟨rfl, rfl⟩⟩
  · rw [if_pos hpast.kind] at hrest
    obtain ⟨rfl, rfl⟩ := runs_pure.1 hrest
    refine ⟨hreturns, .inr ⟨u', rfl, hpast, ?_⟩⟩
    rw [item, bind_apply, bind_apply, hskip']

theorem item_progress {c : Setting} (hc : c.table = .standard)
    (hs : TokensBeside none s.tokens s.tokens) {n : Node} (hrun : Rule.Runs item c s (some n) t) :
    TokensBeside none t.tokens t.tokens ∧ t.later.length < s.later.length := by
  let v : View := ⟨c, hc, none, 0⟩
  have hbeside : v.Beside s s := ⟨⟨rfl, (Nat.max_zero _).symm, rfl⟩, hs⟩
  have hmatched := (item_tracks s s).beside hbeside
  change Matched v true s _ (item c s) (item c s) at hmatched
  rw [hrun] at hmatched
  cases hmatched with
  | ok ht _ hprogress => exact ⟨ht.tokens, hprogress.2 rfl⟩
  | lost _ hlost => exact absurd rfl hlost.seam

theorem Repeats.congr {α : Type} {rule : Rule (Option α)} {c : Setting} {as : List α}
    (h : Repeats rule c s' as t) (heq : rule c s = rule c s')
    (hle : s'.later.length ≤ s.later.length) : Repeats rule c s as t := by
  cases h with
  | done hrun => exact .done (heq.trans hrun)
  | more hrun hlt hrest => exact .more (heq.trans hrun) (Nat.lt_of_lt_of_le hlt hle) hrest

theorem TokensBeside.seam_length_lt {tokens tokens' : List Token}
    (h : TokensBeside (some ks) tokens tokens') : ks.length < tokens'.length := by
  generalize hseam : some ks = seam at h
  induction h with
  | last hnone => cases hseam.trans hnone
  | seam hsome =>
    cases hseam.trans hsome
    exact Nat.lt_succ_self _
  | cons _ _ _ ih => exact Nat.lt_succ_of_lt ih

/-- The items of both sources, one after the other. What comes behind the seam is known for every state
there on the level of the first run. -/
theorem Repeats.append (hv : v.seam = some (k :: ks)) {xs ys : List Node}
    (h : Repeats item v.setting s xs t) (hs : v.Beside s s')
    (hs' : TokensBeside none s'.tokens s'.tokens)
    (hbehind : ∀ u, u.tokens = k :: ks → s.Returns u → ∃ t', Repeats item v.setting u ys t') :
    ∃ t', Repeats item v.setting s' (xs ++ ys) t' := by
  induction h generalizing s' with
  | @done s t hrun =>
    obtain ⟨hreturns, ⟨n, t', hnone, -⟩ | ⟨t', -, hpast, heq⟩⟩ := item_follows hv hs hrun
    · cases hnone
    · have htokens : t'.tokens = k :: ks := Option.some.inj (hpast.behind.symm.trans hv)
      obtain ⟨u, hu⟩ := hbehind t' htokens
        (hreturns.trans ⟨hpast.depth, hpast.structLiterals⟩)
      have hlength := (hv ▸ hs.tokens).seam_length_lt
      rw [← htokens, State.tokens, State.tokens, List.length_cons, List.length_cons] at hlength
      exact ⟨u, hu.congr heq (by omega)⟩
  | @more s t u n xs hrun hlt hrest ih =>
    obtain ⟨hreturns, ⟨_, t', hn, hrun', hfollows⟩ | ⟨t', hnone, -⟩⟩ := item_follows hv hs hrun
    · cases hn
      obtain ⟨ht', hlt'⟩ := item_progress v.standard hs' hrun'
      rcases hfollows with hbeside | hpast
      · obtain ⟨u', hu'⟩ := ih hbeside ht' fun z hz hzreturns => hbehind z hz (hreturns.trans hzreturns)
        exact ⟨u', .more hrun' hlt' hu'⟩
      · have htokens : t'.tokens = k :: ks := Option.some.inj (hpast.behind.symm.trans hv)
        obtain ⟨u', hu'⟩ := hbehind t' htokens (hreturns.trans ⟨hpast.depth, hpast.structLiterals⟩)
        cases hrest with
        | done => exact ⟨u', .more hrun' hlt' hu'⟩
        | more _ hshorter =>
          rw [hpast.later] at hshorter
          exact absurd hshorter (Nat.not_lt_zero _)
    · cases hnone

theorem repeats_of_content {file : String} {limit : Nat} {tokens : List Token} {items : List Node}
    (htokens : TokensBeside none tokens s.tokens) (hdepth : s.depth = 0)
    (hflag : s.structLiterals = true)
    (hrun : Rule.Runs (many item) ⟨file, limit, .standard⟩ (.ofTokens tokens) items t) :
    ∃ t', Repeats item ⟨file, limit, .standard⟩ s items t' := by
  let v : View := ⟨⟨file, limit, .standard⟩, rfl, none, s.peak⟩
  obtain ⟨hofTokens, hdepth', hpeak', hflag'⟩ := State.ofTokens_of_beside htokens
  have hbeside : v.Beside (.ofTokens tokens) s := by
    refine ⟨⟨by rw [hdepth, hdepth'], ?_, by rw [hflag, hflag']⟩, by rwa [hofTokens]⟩
    rw [hpeak', Nat.zero_max]
  have hmatched := (tracks_many item_tracks).beside hbeside
  rw [show many item v.setting _ = _ from hrun] at hmatched
  generalize hrun' : many item v.setting s = r at hmatched
  cases hmatched with
  | lost _ hlost => exact absurd rfl hlost.seam
  | ok ht _ _ =>
    refine ⟨_, repeats_of_many (I := fun s => TokensBeside none s.tokens s.tokens) ?_ htokens.right hrun'⟩
    exact fun s n t hs h => item_progress rfl hs h

end Runs

end Grammar

theorem Node.ofTokens_eq_program {tokens : List Token} {file : String} {limit : Nat} {items : List Node} :
    Node.ofTokens tokens file limit = .ok (.program items) ↔
      ∃ t, Grammar.Rule.Runs (Grammar.many Grammar.item) ⟨file, limit, .standard⟩
        (.ofTokens tokens) items t := by
  have hprogram : ∀ {tree t}, Grammar.Rule.Runs Grammar.program ⟨file, limit, .standard⟩
      (.ofTokens tokens) tree t ↔ ∃ items, Grammar.Rule.Runs (Grammar.many Grammar.item)
        ⟨file, limit, .standard⟩ (.ofTokens tokens) items t ∧ tree = .program items :=
    Grammar.runs_map
  unfold Node.ofTokens
  constructor
  · intro h
    cases hrun : Grammar.program ⟨file, limit, .standard⟩ (.ofTokens tokens) with
    | error e t => simp [hrun] at h
    | ok tree t =>
      obtain ⟨items', hitems, rfl⟩ := hprogram.1 hrun
      simp only [hrun, Except.ok.injEq, Node.program.injEq] at h
      exact ⟨t, h ▸ hitems⟩
  · rintro ⟨t, h⟩
    have hrun := hprogram.2 ⟨items, h, rfl⟩
    rw [Grammar.Rule.Runs] at hrun
    rw [hrun]

theorem exists_of_parseTree {source : String} {o : Options} {tree : Node}
    (h : parseTree source o = .ok tree) :
    ∃ tokens, tokenize source o.file = .ok tokens ∧ Node.ofTokens tokens o.file o.maxDepth = .ok tree := by
  unfold parseTree at h
  cases htokens : tokenize source o.file with
  | error e =>
    rw [htokens] at h
    cases h
  | ok tokens =>
    rw [htokens] at h
    exact ⟨tokens, rfl, h⟩

/-- Two sources that have trees, with a semicolon on a line of its own between them, have the tree with
the items of both. -/
theorem parseTree_append (a b : String) (o : Options) {xs ys : List Node}
    (ha : parseTree a o = .ok (.program xs)) (hb : parseTree b o = .ok (.program ys)) :
    parseTree (a ++ "\n;\n" ++ b) o = .ok (.program (xs ++ ys)) := by
  obtain ⟨first, hfirst, hxs⟩ := exists_of_parseTree ha
  obtain ⟨second, hsecond, hys⟩ := exists_of_parseTree hb
  obtain ⟨t, hxs⟩ := Node.ofTokens_eq_program.1 hxs
  obtain ⟨u, hys⟩ := Node.ofTokens_eq_program.1 hys
  have hfirstEnds := (Lexer.scan_of_tokensFrom hfirst).endsAt
  have hsecondEnds := (Lexer.scan_of_tokensFrom hsecond).endsAt
  obtain ⟨init, e, front, semicolon, back, rfl, he, hwhole, hfront, hsemicolon, hback⟩ :=
    (Lexer.scan_of_tokensFrom hfirst).append (Lexer.scan_of_tokensFrom hsecond)
  have htokenize : tokenize (a ++ "\n;\n" ++ b) o.file = .ok (front ++ semicolon :: back) := by
    have htext : (a ++ "\n;\n" ++ b).toList = a.toList ++ '\n' :: ';' :: '\n' :: b.toList := by
      simp [String.toList_append]
    rw [tokenize, htext]
    exact Lexer.tokensFrom_eq_ok_iff.2 hwhole
  have hinit : ∀ k ∈ init, k.kind ≠ .eof := by
    obtain ⟨init', heq, hinit'⟩ := hfirstEnds
    rwa [(List.append_inj' heq rfl).1]
  have hsecondBeside := Grammar.tokensBeside_of_endsAt hsecondEnds hback
  obtain ⟨k, ks, rfl⟩ : ∃ k ks, back = k :: ks := by cases hsecondBeside <;> exact ⟨_, _, rfl⟩
  -- The run on the first source beside the run on both, with a seam where the first ends.
  let v : Grammar.View := ⟨⟨o.file, o.maxDepth, .standard⟩, rfl, some (k :: ks), 0⟩
  have hfirstClosed := Grammar.tokensBeside_of_endsAt hfirstEnds rfl
  have hclosed := Grammar.tokensBeside_of_endsAt (Lexer.scan_of_tokensFrom htokenize).endsAt rfl
  obtain ⟨htokens, hdepth, -, hflag⟩ := Grammar.State.ofTokens_of_beside hfirstClosed
  have hbeside : v.Beside (.ofTokens (init ++ [e])) (.ofTokens (front ++ semicolon :: k :: ks)) :=
    v.beside_ofTokens rfl hfirstClosed hclosed (.append hinit hfront (.seam rfl he hsemicolon))
  have hrepeats : Grammar.Repeats Grammar.item v.setting (.ofTokens (init ++ [e])) xs t :=
    Grammar.repeats_of_many (I := fun s => Grammar.TokensBeside none s.tokens s.tokens)
      (fun s n t hs h => Grammar.item_progress rfl hs h) (by rwa [htokens]) hxs
  rw [parseTree, htokenize]
  refine Node.ofTokens_eq_program.2 ?_
  have hclosed' := (Grammar.State.ofTokens_of_beside hclosed).1
  obtain ⟨t', ht'⟩ := hrepeats.append rfl hbeside (by rwa [hclosed']) fun u hu hreturns =>
    Grammar.repeats_of_content (hu ▸ hsecondBeside) (hreturns.depth.trans hdepth)
      (hreturns.structLiterals.trans hflag) hys
  exact ⟨t', ht'.runs_many⟩

theorem parseTree_append_groups :
    parseTree ("var(x)" ++ "\n;\n" ++ "var()") {} =
      .ok (.program [.declaration .var [.name "x"] [], .declaration .var [] []]) := by
  have hone : tokenize "var(x)" "shell" = .ok [⟨.varWord, "var", 0, 3⟩, ⟨.openParen, "(", 3, 4⟩,
      ⟨.identifier, "x", 4, 5⟩, ⟨.closeParen, ")", 5, 6⟩, Token.lineBreak 6, Token.endOfInput 6] := by
    refine Lexer.tokensFrom_token (n := 2) rfl ?_
    iterate 3 refine Lexer.tokensFrom_token (n := 0) rfl ?_
    exact Lexer.tokensFrom_nil "shell" 6 true
  have hnone : tokenize "var()" "shell" = .ok [⟨.varWord, "var", 0, 3⟩, ⟨.openParen, "(", 3, 4⟩,
      ⟨.closeParen, ")", 4, 5⟩, Token.lineBreak 5, Token.endOfInput 5] := by
    refine Lexer.tokensFrom_token (n := 2) rfl ?_
    iterate 2 refine Lexer.tokensFrom_token (n := 0) rfl ?_
    exact Lexer.tokensFrom_nil "shell" 5 true
  have hx : parseTree "var(x)" {} = .ok (.program [.declaration .var [.name "x"] []]) := by
    rw [parseTree, show tokenize "var(x)" "shell" = _ from hone]
    rfl
  have hempty : parseTree "var()" {} = .ok (.program [.declaration .var [] []]) := by
    rw [parseTree, show tokenize "var()" "shell" = _ from hnone]
    rfl
  exact parseTree_append "var(x)" "var()" {} hx hempty

end MiniGo
