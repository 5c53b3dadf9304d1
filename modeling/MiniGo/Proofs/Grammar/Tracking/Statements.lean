import MiniGo.Proofs.Grammar.Tracking.Expressions

/-!
How two runs of the rules for statements stay side by side. A statement that the input ends in the first
run is ended by the semicolon of the seam in the second, so what comes behind a whole statement is
compared in a lax way; up to there the runs agree.
-/
namespace MiniGo.Grammar

variable {v : View} {below : Below} {lax : Bool} {s s' : State}

theorem terminator_tracks : Tracks v true s s' terminator terminator (NoMore s) := by
  refine tracks_kind_bind_lax fun k s' hk => ?_
  split
  · refine tracks_advance_bind_of_ne (by rw [hk]; decide) fun _ hlt => tracks_pure ?_
    exact Nat.le_of_lt hlt
  · exact tracks_pure (Nat.le_refl _)
  · exact tracks_pure (Nat.le_refl _)
  · exact tracks_pure (Nat.le_refl _)
  · exact tracks_unexpected

theorem terminated_tracks {rule : Rule Node} (h : Tracks v true s s' rule rule (Fewer s)) :
    Tracks v true s s' (terminated rule) (terminated rule) (Fewer s) := by
  refine h.bind fun n t t' ht => terminator_tracks.bind fun _ u u' hu => tracks_pure ?_
  exact Nat.lt_of_le_of_lt hu ht

section Statements

variable (hb : BelowTracks v below)
include hb

theorem finishSimple_tracks {exprs : List Node} :
    Tracks v lax s s' (finishSimple below exprs) (finishSimple below exprs) (NoMore s) := by
  refine tracks_kind_bind (fun k hk => ?_) fun _ => ?_
  · split
    · refine tracks_ite (fun _ => ?_) fun _ => tracks_unexpected
      refine tracks_advance_bind_of_ne (by rw [hk]; decide) fun _ hlt => ?_
      refine (expressionList_tracks hb).bind fun _ _ _ h => tracks_pure ?_
      exact Nat.le_of_lt (Nat.lt_trans h hlt)
    · refine tracks_ite (fun _ => ?_) fun _ => tracks_unexpected
      refine tracks_advance_bind_of_ne (by rw [hk]; decide) fun _ hlt => ?_
      refine (expressionList_tracks hb).bind fun _ _ _ h => tracks_pure ?_
      exact Nat.le_of_lt (Nat.lt_trans h hlt)
    · split
      · refine tracks_advance_bind_of_ne (by rw [hk]; decide) fun _ hlt => ?_
        refine (hb.expression .lowest _ _).bind fun _ _ _ h => tracks_pure ?_
        exact Nat.le_of_lt (Nat.lt_trans h hlt)
      · exact tracks_unexpected
    · split
      · exact tracks_pure (Nat.le_refl _)
      · exact tracks_unexpected
  · dsimp only
    split
    · exact tracks_pure (Nat.le_refl _)
    · exact tracks_unexpected

theorem simpleStatement_tracks :
    Tracks v lax s s' (simpleStatement below) (simpleStatement below) (Fewer s) := by
  refine (expressionList_tracks hb).bind fun exprs t t' ht => ?_
  exact (finishSimple_tracks hb).mono fun _ _ h => Nat.lt_of_le_of_lt h ht

theorem simpleStatement_stuck : Stuck v (simpleStatement below) := stuck_bind (expressionList_stuck hb)

omit hb in
theorem condition_tracks {statement : Node} :
    Tracks v lax s s' (condition statement) (condition statement) (NoMore s) := by
  unfold condition
  split
  · exact tracks_pure (Nat.le_refl _)
  · exact tracks_unexpected

theorem declarationLine_tracks :
    Tracks v lax s s' (declarationLine below) (declarationLine below) (Fewer s) := by
  refine (typedNames_fewer hb (by decide) (by decide)).bind fun ids t t' ht => ?_
  refine tracks_kind_bind (fun k hk => tracks_ite (fun hassign => ?_) fun _ => tracks_pure ht)
    fun _ => tracks_pure ht
  refine tracks_advance_bind_of_ne (by rw [hk, hassign]; decide) fun _ hlt => ?_
  exact (expressionList_tracks hb).bind fun _ _ _ h => tracks_pure (by omega)

theorem declarationLines_tracks :
    Tracks v lax s s' (declarationLines below) (declarationLines below) (Fewer s) := by
  have hstuck : Stuck v (declarationLine below) :=
    stuck_of_fewer true fun _ => declarationLine_tracks hb
  refine tracks_kind_bind (fun k hk => tracks_ite (fun hopen => ?_) fun _ => ?_)
    fun hat => (stuck_bind hstuck).tracks hat.toLost
  · refine tracks_advance_bind_of_ne (by rw [hk, hopen]; decide) fun _ hlt => ?_
    refine Tracks.bind_stuck (tracks_many fun t t' => ?_) (fun lines t t' ht => ?_)
      fun _ => stuck_expect_bind (by decide)
    · refine tracks_skipSemicolons.bind fun _ u u' hu => tracks_kind_bind_lax fun k u' _ => ?_
      split
      · exact tracks_pure ⟨hu, nofun⟩
      · exact tracks_unexpected
      · refine (declarationLine_tracks hb).bind fun line w w' hw => ?_
        refine terminator_tracks.bind fun _ z z' hz => tracks_pure ?_
        exact ⟨by omega, fun _ => by omega⟩
    · exact tracks_expect_bind (by decide) fun _ _ hclose => tracks_pure (by omega)
  · exact (declarationLine_tracks hb).bind fun _ _ _ h => tracks_pure h

theorem declaration_tracks (hk : s.current.kind ≠ .eof) :
    Tracks v lax s s' (declaration below) (declaration below) (Fewer s) := by
  refine tracks_advance_bind_of_ne hk fun halike hlt => ?_
  rw [halike.kind]
  exact (declarationLines_tracks hb).bind fun _ _ _ h => tracks_pure (Nat.lt_trans h hlt)

theorem namedFunction_tracks (hname : s.kindAhead 1 = .identifier) :
    Tracks v lax s s' (namedFunction below) (namedFunction below) (Fewer s) := by
  refine tracks_expect_bind (by decide) fun _ _ hfunc => ?_
  have hlater : s.later ≠ [] := List.ne_nil_of_length_pos (Nat.zero_lt_of_lt hfunc)
  rw [kindAhead_one hlater] at hname
  refine tracks_advance_bind_of_ne (by rw [hname]; decide) fun halike hlt => ?_
  rw [halike.value]
  exact (functionRest_tracks hb).mono fun _ n h => by omega

theorem functionLiteralStatement_tracks :
    Tracks v lax s s' (functionLiteralStatement below) (functionLiteralStatement below)
      (Fewer s) := by
  refine (tracks_measured (functionLiteral_tracks (hb.above 0))).bind ?_
  rintro ⟨function, height⟩ t t' ht
  have ht : t.later.length < s.later.length := ht
  refine tracks_kind_bind (fun k _ => ?_) fun _ => tracks_pure ht
  split
  · exact tracks_pure ht
  · exact tracks_pure ht
  · exact tracks_pure ht
  · refine (tail_tracks hb).bind fun first u u' hu => ?_
    refine (moreExpressions_tracks hb).bind fun more w w' hw => ?_
    exact (finishSimple_tracks hb).mono fun _ n h => by omega

theorem ifHeader_tracks : Tracks v true s s' (ifHeader below) (ifHeader below) (NoMore s) := by
  refine (simpleStatement_tracks hb).bind fun first t t' ht => ?_
  refine tracks_kind_bind_lax fun k t' hk => tracks_ite (fun hsemi => ?_) fun _ => ?_
  · refine tracks_advance_bind_of_ne (by rw [hk, hsemi]; decide) fun _ hlt => ?_
    exact (hb.expression .lowest _ _).bind fun _ _ _ h => tracks_pure (by omega)
  · exact condition_tracks.bind fun _ _ _ h => tracks_pure (by omega)

theorem alternative_tracks :
    Tracks v lax s s' (alternative below) (alternative below) (NoMore s) := by
  have hnone : Tracks v lax s s' (pure none) (pure none) (NoMore (α := Option Alternative) s) :=
    tracks_pure (Nat.le_refl _)
  refine tracks_kind_bind (fun k hk => tracks_ite (fun helse => ?_) fun _ => hnone) fun _ => hnone
  refine tracks_advance_bind_of_ne (by rw [hk, helse]; decide) fun _ hlt => ?_
  refine tracks_kind_bind (fun k _ => ?_) fun hat => ?_
  · split
    · exact (hb v.floor .elseIf lax _ _ nofun).bind fun _ _ _ h => tracks_pure (by omega)
    · exact (block_tracks hb).bind fun _ _ _ h => tracks_pure (by omega)
    · exact tracks_unexpected
  · exact Stuck.tracks (fun _ _ _ _ => not_runs_unexpected) hat.toLost

theorem ifBody_tracks : Tracks v lax s s' (ifBody below) (ifBody below) (Fewer s) := by
  refine tracks_expect_bind (by decide) fun _ _ hif => ?_
  refine Tracks.bind_stuck (tracks_withStructLiterals (ifHeader_tracks hb)) ?_
    fun _ => stuck_bind (block_stuck hb)
  rintro ⟨short, cond⟩ t t' ht
  have ht : t.later.length ≤ s.next.later.length := ht
  refine (block_tracks hb).bind fun cons u u' hu => ?_
  exact (alternative_tracks hb).bind fun _ _ _ h => tracks_pure (by omega)

theorem forRest_tracks {init : Node} :
    Tracks v true s s' (forRest below init) (forRest below init) (NoMore s) := by
  refine tracks_expect_bind (by decide) fun _ _ hfirst => ?_
  have hpost : ∀ cond t t', t.later.length ≤ s.next.later.length → Tracks v true t t'
      (do
        let _ ← expectOr .semicolon "expected `;`"
        let post ← if (← kind) = .openCurly then pure none else some <$> simpleStatement below
        return Clauses.mk (some init) cond post)
      (do
        let _ ← expectOr .semicolon "expected `;`"
        let post ← if (← kind) = .openCurly then pure none else some <$> simpleStatement below
        return Clauses.mk (some init) cond post) (NoMore s) := by
    intro cond t t' ht
    refine tracks_expectOr_bind (by decide) fun _ _ hsecond => ?_
    refine tracks_kind_bind_lax fun k u' _ => tracks_ite (fun _ => tracks_pure (by omega)) fun _ => ?_
    refine Tracks.bind (P := Fewer t.next) (Tracks.map (simpleStatement_tracks hb)) ?_
    exact fun _ _ _ h => tracks_pure (by omega)
  refine tracks_kind_bind_lax fun k t' _ => tracks_ite (fun _ => ?_) fun _ => ?_
  · exact hpost none _ _ (Nat.le_refl _)
  · refine Tracks.bind (P := Fewer s.next) (Tracks.map (hb.expression .lowest _ _)) ?_
    exact fun cond t t' h => hpost cond t t' (Nat.le_of_lt h)

theorem forHeader_tracks : Tracks v true s s' (forHeader below) (forHeader below) (NoMore s) := by
  refine tracks_kind_bind_lax fun k s' _ => ?_
  split
  · exact tracks_pure (Nat.le_refl _)
  · exact forRest_tracks hb
  · refine (simpleStatement_tracks hb).bind fun first t t' ht => ?_
    refine tracks_kind_bind_lax fun k t' _ => tracks_ite (fun _ => ?_) fun _ => ?_
    · exact (forRest_tracks hb).mono fun _ n h => by omega
    · exact condition_tracks.bind fun _ _ _ h => tracks_pure (by omega)

theorem caseGuard_tracks : Tracks v lax s s' (caseGuard below) (caseGuard below) (Fewer s) := by
  refine tracks_current_bind (fun k k' halike => ?_) fun _ => stuck_bind (simpleStatement_stuck hb)
  refine (simpleStatement_tracks hb).bind fun n t t' ht => ?_
  split
  · exact tracks_pure ht
  · exact tracks_refuse halike

theorem caseBody_tracks : Tracks v true s s' (caseBody below) (caseBody below) (NoMore s) := by
  refine tracks_withStructLiterals (tracks_many fun t t' => ?_)
  refine tracks_skipSemicolons.bind fun _ u u' hu => tracks_kind_bind_lax fun k u' _ => ?_
  split
  · exact tracks_pure ⟨hu, nofun⟩
  · exact tracks_pure ⟨hu, nofun⟩
  · exact tracks_pure ⟨hu, nofun⟩
  · exact tracks_pure ⟨hu, nofun⟩
  · refine (hb.statement _ _).bind fun n w w' hw => tracks_pure ?_
    exact ⟨by omega, fun _ => by omega⟩

theorem selectArm_tracks (s s' : State) :
    Tracks v true s s' (selectArm below) (selectArm below) (Progress s.later.length) := by
  refine tracks_skipSemicolons.bind fun _ t t' ht => tracks_kind_bind_lax fun k t' hk => ?_
  split
  · exact tracks_pure ⟨ht, nofun⟩
  · refine tracks_advance_bind_of_ne (by rw [hk]; decide) fun _ hlt => ?_
    refine (caseGuard_tracks hb).bind fun guard u u' hu => ?_
    refine tracks_expectOr_bind (by decide) fun _ _ hcolon => ?_
    refine (caseBody_tracks hb).bind fun body w w' hw => tracks_pure ?_
    exact ⟨by omega, fun _ => by omega⟩
  · refine tracks_advance_bind_of_ne (by rw [hk]; decide) fun _ hlt => ?_
    refine tracks_expectOr_bind (by decide) fun _ _ hcolon => ?_
    refine (caseBody_tracks hb).bind fun body w w' hw => tracks_pure ?_
    exact ⟨by omega, fun _ => by omega⟩
  · exact tracks_unexpected

/-- The rule is one that tracks up to the end of the statement, which it passes then. -/
def Terminates (v : View) (k : TokenKind) (rule : Rule Node) : Prop :=
  ∃ core, rule = terminated core ∧ ∀ floor lax s s', s.current.kind = k →
    Tracks (v.above floor) lax s s' core core (Fewer s)

theorem statementOf_terminates {k : TokenKind} (hk : k ≠ .eof) (form : StatementForm) :
    Terminates v k (statementOf below form) := by
  cases form with
  | declaration =>
    refine ⟨_, rfl, fun floor lax s s' hs => ?_⟩
    exact declaration_tracks (hb.above floor) (hs ▸ hk)
  | typeDeclaration =>
    refine ⟨_, rfl, fun floor lax s s' _ => ?_⟩
    refine tracks_expect_bind (by decide) fun _ _ htype => ?_
    refine tracks_expectOr_bind (by decide) fun _ halike hname => ?_
    rw [halike.value]
    exact ((hb.above floor).type _ _).bind fun _ _ _ h => tracks_pure (by omega)
  | function =>
    refine ⟨_, rfl, fun floor lax s s' hs => ?_⟩
    refine tracks_kindAhead_bind (hs ▸ hk) (tracks_ite (fun hname => ?_) fun _ => ?_) ?_
    · exact namedFunction_tracks (hb.above floor) hname
    · exact functionLiteralStatement_tracks (hb.above floor)
    · exact functionLiteralStatement_tracks (hb.above floor)
  | ret =>
    refine ⟨_, rfl, fun floor lax s s' _ => ?_⟩
    refine tracks_expect_bind (by decide) fun _ _ hreturn => ?_
    refine tracks_kind_bind (fun k _ => ?_) fun _ => tracks_pure hreturn
    split
    · exact tracks_pure hreturn
    · exact tracks_pure hreturn
    · exact tracks_pure hreturn
    · exact (expressionList_tracks (hb.above floor)).bind fun _ _ _ h => tracks_pure (by omega)
  | ifThen => exact ⟨_, rfl, fun floor lax s s' _ => ifBody_tracks (hb.above floor)⟩
  | loop =>
    refine ⟨_, rfl, fun floor lax s s' _ => ?_⟩
    refine tracks_expect_bind (by decide) fun _ _ hfor => ?_
    refine Tracks.bind_stuck (tracks_withStructLiterals (forHeader_tracks (hb.above floor)))
      (fun clauses t t' ht => ?_) fun _ => stuck_bind (block_stuck (hb.above floor))
    have ht : t.later.length ≤ s.next.later.length := ht
    exact (block_tracks (hb.above floor)).bind fun _ _ _ h => tracks_pure (by omega)
  | go =>
    refine ⟨_, rfl, fun floor lax s s' _ => ?_⟩
    refine tracks_expect_bind (by decide) fun _ _ hgo => ?_
    refine tracks_current_bind (fun k k' halike => ?_)
      fun _ => stuck_bind ((hb.above floor).stuck (.expression .lowest))
    refine ((hb.above floor).expression .lowest _ _).bind fun n t t' ht => ?_
    split
    · exact tracks_pure (Nat.lt_trans ht hgo)
    · exact tracks_refuse halike
  | select =>
    refine ⟨_, rfl, fun floor lax s s' _ => ?_⟩
    refine tracks_expect_bind (by decide) fun _ _ hselect => ?_
    refine tracks_expectOr_bind (by decide) fun _ _ hopen => ?_
    refine Tracks.bind_stuck (tracks_many (selectArm_tracks (hb.above floor)))
      (fun arms t t' ht => ?_) fun _ => stuck_expect_bind (by decide)
    exact tracks_expect_bind (by decide) fun _ _ hclose => tracks_pure (by omega)

theorem statementBody_terminates (k : TokenKind) : ∃ rule, Terminates v k rule ∧
    ∀ t, t.current.kind = k → statementBody below v.setting t = rule v.setting t := by
  have happly : ∀ t : State, t.current.kind = k →
      v.setting.table.statement t.current.kind = Table.standard.statement k := by
    intro t ht
    rw [v.standard, ht]
  cases hform : Table.standard.statement k with
  | some form =>
    have hk : k ≠ .eof := by
      rintro rfl
      cases hform
    refine ⟨_, statementOf_terminates hb hk form, fun t ht => ?_⟩
    rw [statementBody, read_bind_apply, kind_bind_apply, happly t ht, hform]
  | none =>
    refine ⟨_, ⟨_, rfl, fun floor lax s s' _ => simpleStatement_tracks (hb.above floor)⟩, ?_⟩
    intro t ht
    rw [statementBody, read_bind_apply, kind_bind_apply, happly t ht, hform]

theorem statementBody_tracks :
    Tracks v true s s' (statementBody below) (statementBody below) (Fewer s) := by
  obtain ⟨rule, ⟨core, rfl, hcore⟩, hrule⟩ := statementBody_terminates hb s.current.kind
  have hterminated : ∀ s'', Tracks v true s s'' (terminated core) (terminated core) (Fewer s) :=
    fun s'' => terminated_tracks (hcore v.floor true s s'' rfl)
  constructor
  · intro hs
    rw [hrule s rfl]
    rcases hs.inStep_or_atSeam with hstep | hat
    · rw [hrule s' hstep.current.kind]
      exact (hterminated s').beside hs
    · exact ((hterminated s).of_lost hat.toLost).beside hs
  · intro hs a t hrun
    rw [Rule.Runs, hrule s rfl] at hrun
    exact (hterminated s).lost hs a t hrun

end Statements

theorem goalBody_tracks (hb : BelowTracks v below) (goal : Goal) (hlax : goal = .statement → lax = true) :
    Tracks v lax s s' (goalBody below goal) (goalBody below goal) (Fewer s) := by
  cases goal with
  | statement =>
    cases hlax rfl
    exact statementBody_tracks hb
  | expression power => exact expressionBody_tracks hb
  | type => exact typeBody_tracks hb
  | elseIf => exact ifBody_tracks hb

theorem produce_tracks (v : View) (levels : Nat) : BelowTracks v (produce levels) := by
  induction levels with
  | zero =>
    intro floor goal lax s s' _
    exact tracks_read_bind tracks_fail
  | succ levels ih =>
    intro floor goal lax s s' hlax
    exact tracks_nested fun t t' => goalBody_tracks (ih.above floor) goal hlax

theorem statement_tracks : Tracks v true s s' statement statement (Fewer s) := by
  have h := (produce_tracks v (v.setting.limit - s.depth)).statement s s'
  refine ⟨fun hs => ?_, h.lost⟩
  change Matched v true s _ _ (produce (v.setting.limit - s'.depth) .statement v.setting s')
  rw [hs.depth]
  exact h.beside hs

def item : Rule (Option Node) := do
  skipSemicolons
  if (← kind) = .eof then return none else return some (← statement)

theorem program_eq : program = Node.program <$> many item := rfl

theorem item_tracks (s s' : State) : Tracks v true s s' item item (Progress s.later.length) := by
  refine tracks_skipSemicolons.bind fun _ t t' ht => tracks_kind_bind_lax fun k t' _ => ?_
  refine tracks_ite (fun _ => tracks_pure ⟨ht, nofun⟩) fun _ => ?_
  refine statement_tracks.bind fun n u u' hu => tracks_pure ?_
  exact ⟨by omega, fun _ => by omega⟩

theorem program_tracks : Tracks v true s s' program program fun _ _ => True := by
  rw [program_eq]
  exact ((tracks_many item_tracks).mono fun _ _ _ => trivial).map

end MiniGo.Grammar
