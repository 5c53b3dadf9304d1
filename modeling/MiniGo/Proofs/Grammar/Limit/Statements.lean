import MiniGo.Proofs.Grammar.Limit.Expressions

/-! Statements settle, and so do all goals and whole programs. -/
namespace MiniGo.Grammar

variable {c : Terms} {depth : Nat} {s : State}

section Terminators

theorem settles_terminator : Settles c (fun _ => terminator) s fun _ _ => True := by
  refine settles_kind_bind ?_
  split
  · exact settles_advance_bind fun _ _ _ => settles_pure trivial
  · exact settles_pure trivial
  · exact settles_pure trivial
  · exact settles_pure trivial
  · exact settles_unexpected

theorem settles_terminated {rule : Below → Rule Node} {r : Nat} {p : Phrase}
    (h : Settles c rule s fun n t => Parsed c.spelled (t.reached + r) p n) :
    Settles c (fun below => terminated (rule below)) s fun n t =>
      Parsed c.spelled (t.reached + r) p n := by
  refine h.bind fun n t _ hn => settles_terminator.bind fun _ u htu _ => settles_pure ?_
  exact hn.mono (Nat.add_le_add_right htu.reached_le r)

end Terminators

section Simple

private theorem exists_names {r : Nat} {exprs : List Node} (hall : exprs.all isIdentifier = true)
    (h : ∀ n ∈ exprs, Parsed c.spelled r .expression n) :
    ∃ names : List String, exprs = names.map Node.name := by
  induction exprs with
  | nil => exact ⟨[], rfl⟩
  | cons n exprs ih =>
    rw [List.all_cons, Bool.and_eq_true] at hall
    obtain ⟨hn, hexprs⟩ := List.forall_mem_cons.1 h
    obtain ⟨names, rfl⟩ := ih hall.2 hexprs
    cases hn with
    | @identifier _ s => exact ⟨s :: names, rfl⟩
    | _ => cases hall.1

/-- A simple statement whose first expressions may lie `δ` levels higher than the others. A declaration
has names there, which have no levels. -/
def SimpleParsed (c : Terms) (δ : Nat) (n : Node) (t : State) : Prop :=
  Parsed c.spelled (t.reached + δ + 1) .simple n ∧
    (n.kind = .declaration → Parsed c.spelled (t.reached + 1) .simple n)

theorem Parsed.statement_of_simple {spelled : Prop} {r : Nat} {n : Node}
    (h : Parsed spelled r .simple n) : Parsed spelled r .statement n := by
  have hsucc := h.succ
  cases h with
  | shortDeclaration hnames hvals h =>
    exact .declaration (List.forall_mem_map.2 fun _ _ => .name) h (by simp [hnames])
  | assignment => exact .simple hsucc nofun
  | send => exact .simple hsucc nofun
  | expressionStatement => exact .simple hsucc nofun

theorem SimpleParsed.statement {n : Node} (h : SimpleParsed c 1 n s) :
    Parsed c.spelled (s.reached + 1) .statement n := by
  by_cases hn : n.kind = .declaration
  · exact (h.2 hn).statement_of_simple
  · exact .simple h.1 hn

end Simple

variable (hb : GoalsSettle c depth)
include hb

theorem finishSimple_settles {δ : Nat} {exprs : List Node} (hne : exprs ≠ [])
    (h : ∀ n ∈ exprs, Parsed c.spelled (s.reached + δ) .expression n) (hs : s.Affords c depth 1) :
    Settles c (fun below => finishSimple below exprs) s (SimpleParsed c δ) := by
  refine settles_kind_bind ?_
  generalize s.current.kind = k
  cases k with
  | define =>
    refine settles_ite (fun hall => ?_) fun _ => settles_unexpected
    obtain ⟨names, rfl⟩ := exists_names hall h
    have hnames : names ≠ [] := fun heq => hne (by rw [heq]; rfl)
    refine settles_advance_bind fun t hst _ => ?_
    refine (expressionList_settles hb (hs.leads hst)).bind fun vals u _ hvals => settles_pure ?_
    have hparsed : Parsed c.spelled (u.reached + 1) .simple
      (.declaration .var (names.map Node.name) vals) := .shortDeclaration hnames hvals.1 hvals.2
    exact ⟨hparsed.mono (by omega), fun _ => hparsed⟩
  | assign =>
    refine settles_ite (fun hall => ?_) fun _ => settles_unexpected
    refine settles_advance_bind fun t hst _ => ?_
    refine (expressionList_settles hb (hs.leads hst)).bind fun vals u htu hvals => settles_pure ?_
    have hle := (hst.trans htu).reached_le
    refine ⟨.assignment hne hvals.1 (List.all_eq_true.1 hall) ?_ ?_, nofun⟩
    · exact fun n hn => (h n hn).mono (by omega)
    · exact fun n hn => (hvals.2 n hn).mono (by omega)
  | arrow =>
    match exprs with
    | [] => exact absurd rfl hne
    | [chan] =>
      refine settles_advance_bind fun t hst _ => ?_
      refine (hb.expression (hs.leads hst)).bind fun val u htu hval => settles_pure ?_
      have hle := (hst.trans htu).reached_le
      refine ⟨.send ?_ (hval.mono (by omega)), nofun⟩
      exact (h chan List.mem_cons_self).mono (by omega)
    | _ :: _ :: _ => exact settles_unexpected
  | _ =>
    match exprs with
    | [] => exact absurd rfl hne
    | [e] => exact settles_pure ⟨.expressionStatement (h e List.mem_cons_self), nofun⟩
    | _ :: _ :: _ => exact settles_unexpected

theorem simpleStatement_settles (hs : s.Affords c depth 1) :
    Settles c simpleStatement s fun n t => Parsed c.spelled (t.reached + 1) .simple n := by
  refine (expressionList_settles hb hs).bind fun exprs t hst hexprs => ?_
  have hfinish : Settles c (fun below => finishSimple below exprs) t (SimpleParsed c 0) :=
    finishSimple_settles hb hexprs.1 hexprs.2 (hs.leads hst)
  exact hfinish.mono fun _ _ _ h => h.1

omit hb in
theorem condition_settles {statement : Node}
    (h : Parsed c.spelled (s.reached + 1) .simple statement) :
    Settles c (fun _ => condition statement) s fun e t => Parsed c.spelled t.reached .expression e := by
  unfold condition
  cases h with
  | expressionStatement h => exact settles_pure h
  | shortDeclaration | assignment | send => exact settles_unexpected

structure LineParsed (c : Terms) (line : List Node × List Node) (t : State) : Prop where
  ne_nil : line.1 ≠ []
  ids : ∀ n ∈ line.1, Parsed c.spelled (t.reached + 1) .name n
  vals : ∀ n ∈ line.2, Parsed c.spelled t.reached .expression n

omit hb in
theorem LineParsed.leads {line : List Node × List Node} {t : State} (h : LineParsed c line s)
    (hst : s.Leads t) : LineParsed c line t :=
  ⟨h.ne_nil, fun n hn => (h.ids n hn).leads_succ hst, fun n hn => (h.vals n hn).leads hst⟩

theorem declarationLine_settles (hs : s.Affords c depth 1) :
    Settles c declarationLine s (LineParsed c) := by
  refine (typedNames_settles hb hs).bind fun ids t hst hids => ?_
  refine settles_kind_bind (settles_ite (fun _ => ?_) fun _ => ?_)
  · refine settles_advance_bind fun u htu _ => ?_
    refine (expressionList_settles hb ((hs.leads hst).leads htu)).bind fun vals v huv hvals => ?_
    refine settles_pure ⟨hids.2 nofun, fun n hn => ?_, hvals.2⟩
    exact (hids.1 n hn).leads_succ (htu.trans huv)
  · exact settles_pure ⟨hids.2 nofun, hids.1, nofun⟩

theorem groupLine_settles (hs : s.Affords c depth 1) :
    Settles c groupLine s fun line t => ∀ l ∈ line, LineParsed c l t := by
  refine settles_skipSemicolons.bind fun _ t hst _ => settles_kind_bind ?_
  have ht := hs.leads hst
  generalize t.current.kind = k
  cases k with
  | closeParen => exact settles_pure (by rintro _ ⟨⟩)
  | eof => exact settles_unexpected
  | _ =>
    refine (declarationLine_settles hb ht).bind fun line u _ hline => ?_
    refine settles_terminator.bind fun _ v huv _ => settles_pure (forall_mem_some ?_)
    exact hline.leads huv

theorem declarationLines_settles (hs : s.Affords c depth 1) :
    Settles c declarationLines s fun lines t => ∀ line ∈ lines, LineParsed c line t := by
  refine settles_kind_bind (settles_ite (fun _ => ?_) fun _ => ?_)
  · refine settles_advance_bind fun t hst _ => ?_
    have hlines : Settles c (fun below => many (groupLine below)) t fun lines u =>
        ∀ line ∈ lines, LineParsed c line u :=
      settles_many (fun _ _ _ => LineParsed.leads) fun u htu =>
        groupLine_settles hb ((hs.leads hst).leads htu)
    refine hlines.bind fun lines u _ hlines => settles_expect_bind nofun fun _ v huv => ?_
    exact settles_pure fun line hline => (hlines line hline).leads huv.toLeads
  · refine (declarationLine_settles hb hs).bind fun line t _ hline => settles_pure ?_
    exact List.forall_mem_singleton.2 hline

theorem declaration_settles (hs : s.Affords c depth 1) :
    Settles c declaration s fun n t => Parsed c.spelled (t.reached + 1) .statement n := by
  refine settles_advance_bind fun t hst _ => ?_
  refine (declarationLines_settles hb (hs.leads hst)).bind fun lines u _ hlines => settles_pure ?_
  refine .declaration ?_ ?_ ?_
  · intro n hn
    obtain ⟨line, hline, hn⟩ := List.mem_flatMap.1 hn
    exact (hlines line hline).ids n hn
  · intro n hn
    obtain ⟨line, hline, hn⟩ := List.mem_flatMap.1 hn
    exact (hlines line hline).vals n hn
  · intro hempty
    cases lines with
    | nil => rfl
    | cons line lines =>
      have hnil := (List.append_eq_nil_iff.1 hempty).1
      exact absurd hnil (hlines line List.mem_cons_self).ne_nil

theorem typeDeclarationStatement_settles (hs : s.Affords c depth 1) :
    Settles c typeDeclarationStatement s fun n t =>
      Parsed c.spelled (t.reached + 1) .statement n := by
  refine settles_terminated ?_
  refine settles_expect_bind nofun fun _ t hst => settles_expectOr_bind nofun fun _ u htu => ?_
  refine (hb.type ((hs.leads hst.toLeads).leads htu.toLeads)).bind fun _ _ _ h => ?_
  exact settles_pure (.typeDeclaration h)

theorem namedFunction_settles (hs : s.Affords c depth 1) :
    Settles c namedFunction s fun n t => Parsed c.spelled (t.reached + 1) .statement n := by
  refine settles_expect_bind nofun fun _ t hst => settles_advance_bind fun u htu _ => ?_
  refine (functionRest_settles hb ((hs.leads hst.toLeads).leads htu)).mono ?_
  rintro _ _ _ ⟨formals, result, body, rfl, h⟩
  exact .namedFunction h

def IsFunctionLiteral (n : Node) : Prop :=
  ∃ formals result body, n = .function none formals result body

theorem functionLiteralStatement_settles (hs : s.Affords c depth 1) :
    Settles c functionLiteralStatement s fun n t => Parsed c.spelled (t.reached + 1) .statement n := by
  have hs₀ : State.Affords c depth 0 { s with peak := s.depth } :=
    ⟨hs.depth_eq, (hs.mono (Nat.zero_le 1)).paid⟩
  have hliteral : Settles c functionLiteral { s with peak := s.depth } fun n t =>
      IsFunctionLiteral n ∧ Parsed c.spelled (t.reached + 1) .expression n := by
    refine (functionLiteral_settles hb hs₀).mono ?_
    rintro _ _ _ ⟨formals, result, body, rfl, h⟩
    exact ⟨⟨formals, result, body, rfl⟩, h⟩
  refine (settles_measured (R := fun n r _ => IsFunctionLiteral n ∧
    Parsed c.spelled (r + 1) .expression n) hliteral fun _ _ _ _ h => h).bind ?_
  rintro ⟨function, height⟩ t hst ⟨⟨⟨formals, result, body, rfl⟩, hfunction⟩, hreached, hpaid⟩
  dsimp only at hfunction hreached hpaid
  have hdepth := hs.depth_eq
  have hfolded : Folded c depth (.function none formals result body, height) t :=
    ⟨⟨hst.depth.trans hdepth, by dsimp only; omega⟩, hreached, hfunction⟩
  have halone : Parsed c.spelled (t.reached + 1) .statement (.function none formals result body) :=
    .functionStatement (hfunction.mono (Nat.succ_le_succ hreached))
  refine settles_kind_bind ?_
  generalize t.current.kind = k
  cases k with
  | semicolon | closeCurly | eof => exact settles_pure halone
  | _ =>
    refine (tail_settles hb hfolded).bind fun first u htu hfirst => ?_
    have hu := (hs.leads hst).leads htu
    refine (moreExpressions_settles hb (hu.mono (Nat.zero_le 1))).bind fun more v huv hmore => ?_
    refine (finishSimple_settles hb (List.cons_ne_nil first more) ?_ (hu.leads huv)).mono
      fun _ _ _ h => h.statement
    exact List.forall_mem_cons.2 ⟨hfirst.leads_succ huv, fun n hn => (hmore n hn).succ⟩

theorem functionStatement_settles (hs : s.Affords c depth 1) :
    Settles c functionStatement s fun n t => Parsed c.spelled (t.reached + 1) .statement n := by
  refine settles_terminated (settles_kindAhead_bind ?_)
  exact settles_ite (fun _ => namedFunction_settles hb hs) fun _ =>
    functionLiteralStatement_settles hb hs

theorem returnStatement_settles (hs : s.Affords c depth 1) :
    Settles c returnStatement s fun n t => Parsed c.spelled (t.reached + 1) .statement n := by
  refine settles_terminated ?_
  refine settles_expect_bind nofun fun _ t hst => settles_kind_bind ?_
  generalize t.current.kind = k
  cases k with
  | semicolon | closeCurly | eof => exact settles_pure (.returnStatement nofun)
  | _ =>
    refine (expressionList_settles hb (hs.leads hst.toLeads)).bind fun _ _ _ h => ?_
    exact settles_pure (.returnStatement h.2)

theorem ifHeader_settles (hs : s.Affords c depth 1) :
    Settles c ifHeader s fun p t => (∀ n ∈ p.1, Parsed c.spelled (t.reached + 1) .simple n) ∧
      Parsed c.spelled t.reached .expression p.2 := by
  refine (simpleStatement_settles hb hs).bind fun first t hst hfirst => ?_
  refine settles_kind_bind (settles_ite (fun _ => ?_) fun _ => ?_)
  · refine settles_advance_bind fun u htu _ => ?_
    refine (hb.expression ((hs.leads hst).leads htu)).bind fun cond v huv hcond => ?_
    exact settles_pure ⟨forall_mem_some (hfirst.leads_succ (htu.trans huv)), hcond⟩
  · exact (condition_settles hfirst).bind fun cond u _ hcond => settles_pure ⟨nofun, hcond⟩

structure AlternativeParsed (c : Terms) (alt : Option Alternative) (t : State) : Prop where
  block : ∀ body, alt = some (.block body) → ∀ n ∈ body, Parsed c.spelled t.reached .statement n
  chained : ∀ n, alt = some (.chained n) → Parsed c.spelled t.reached .elseIf n

theorem alternative_settles (hs : s.Affords c depth 1) :
    Settles c alternative s (AlternativeParsed c) := by
  refine settles_kind_bind (settles_ite (fun _ => ?_) fun _ => settles_pure ⟨nofun, nofun⟩)
  refine settles_advance_bind fun t hst _ => settles_kind_bind ?_
  have ht := hs.leads hst
  generalize t.current.kind = k
  cases k with
  | ifWord =>
    refine (hb .elseIf t ht).bind fun n u _ h => settles_pure ⟨nofun, ?_⟩
    rintro _ ⟨⟩
    exact h.1
  | openCurly =>
    refine (block_settles hb ht).bind fun body u _ h => settles_pure ⟨?_, nofun⟩
    rintro _ ⟨⟩
    exact h
  | _ => exact settles_unexpected

theorem ifBody_settles (hs : s.Affords c depth 0) :
    Settles c ifBody s fun n t => Parsed c.spelled (t.reached + 1) .elseIf n := by
  refine settles_expect_bind nofun fun _ t hst => ?_
  have ht := hs.consumes hst
  refine (settles_withStructLiterals (fun u htu => ifHeader_settles hb (ht.leads htu))
    fun _ _ _ h => h).bind ?_
  rintro ⟨short, cond⟩ u htu ⟨hshort, hcond⟩
  have hu := ht.leads htu
  refine (block_settles hb hu).bind fun cons v huv hcons => ?_
  refine (alternative_settles hb (hu.leads huv)).bind fun alt w hvw halt => settles_pure ?_
  refine .elseIf ?_ (hcond.leads (huv.trans hvw)) ?_ halt.block halt.chained
  · exact fun n hn => (hshort n hn).leads_succ (huv.trans hvw)
  · exact fun n hn => (hcons n hn).leads hvw

theorem ifStatement_settles (hs : s.Affords c depth 0) :
    Settles c ifStatement s fun n t => Parsed c.spelled (t.reached + 1) .statement n :=
  settles_terminated ((ifBody_settles hb hs).mono fun _ _ _ h => .ifStatement h)

structure ClausesParsed (c : Terms) (clauses : Clauses) (t : State) : Prop where
  init : ∀ n ∈ clauses.init, n ≠ .empty → Parsed c.spelled (t.reached + 1) .simple n
  cond : ∀ n ∈ clauses.cond, Parsed c.spelled t.reached .expression n
  post : ∀ n ∈ clauses.post, Parsed c.spelled (t.reached + 1) .simple n
  shape : clauses.init = none → clauses.post = none

theorem forRest_settles {init : Node}
    (h : init ≠ .empty → Parsed c.spelled (s.reached + 1) .simple init) (hs : s.Affords c depth 1) :
    Settles c (fun below => forRest below init) s (ClausesParsed c) := by
  refine settles_expect_bind nofun fun _ t hst => settles_kind_bind ?_
  have ht := hs.leads hst.toLeads
  have hpost : ∀ cond u, t.Leads u → (∀ n ∈ cond, Parsed c.spelled u.reached .expression n) →
      Settles c (fun below => do
        let _ ← expectOr .semicolon "expected `;`"
        let post ← if (← kind) = .openCurly then pure none else some <$> simpleStatement below
        return Clauses.mk (some init) cond post) u (ClausesParsed c) := by
    intro cond u htu hcond
    refine settles_expectOr_bind nofun fun _ v huv => settles_kind_bind ?_
    have hsv := (hst.toLeads.trans htu).trans huv.toLeads
    refine settles_ite (fun _ => settles_pure ⟨forall_mem_some fun hne => ?_, ?_, nofun, nofun⟩)
      fun _ => ?_
    · exact (h hne).leads_succ hsv
    · exact fun n hn => (hcond n hn).leads huv.toLeads
    · have hsimple : Settles c (fun below => some <$> simpleStatement below) v fun post w =>
          ∀ n ∈ post, Parsed c.spelled (w.reached + 1) .simple n :=
        ((simpleStatement_settles hb (hs.leads hsv)).mono fun _ _ _ h => forall_mem_some h).map
      refine hsimple.bind fun post w hvw hpost =>
        settles_pure ⟨forall_mem_some fun hne => ?_, ?_, hpost, nofun⟩
      · exact (h hne).leads_succ (hsv.trans hvw)
      · exact fun n hn => (hcond n hn).leads (huv.toLeads.trans hvw)
  refine settles_ite (fun _ => hpost none t (.refl t) nofun) fun _ => ?_
  have hcond : Settles c (fun below => some <$> below (.expression .lowest)) t fun cond u =>
      ∀ n ∈ cond, Parsed c.spelled u.reached .expression n :=
    ((hb.expression ht).mono fun _ _ _ h => forall_mem_some h).map
  exact hcond.bind hpost

theorem forHeader_settles (hs : s.Affords c depth 1) :
    Settles c forHeader s (ClausesParsed c) := by
  refine settles_kind_bind ?_
  generalize s.current.kind = k
  cases k with
  | openCurly => exact settles_pure ⟨nofun, nofun, nofun, fun _ => rfl⟩
  | semicolon => exact forRest_settles hb (fun h => absurd rfl h) hs
  | _ =>
    refine (simpleStatement_settles hb hs).bind fun first t hst hfirst => ?_
    refine settles_kind_bind (settles_ite (fun _ => ?_) fun _ => ?_)
    · exact forRest_settles hb (fun _ => hfirst) (hs.leads hst)
    · refine (condition_settles hfirst).bind fun cond u _ hcond => ?_
      exact settles_pure ⟨nofun, forall_mem_some hcond, nofun, fun _ => rfl⟩

theorem forStatement_settles (hs : s.Affords c depth 1) :
    Settles c forStatement s fun n t => Parsed c.spelled (t.reached + 1) .statement n := by
  refine settles_terminated ?_
  refine settles_expect_bind nofun fun _ t hst => ?_
  have ht := hs.leads hst.toLeads
  refine (settles_withStructLiterals (Q := ClausesParsed c)
    (fun u htu => forHeader_settles hb (ht.leads htu)) ?_).bind fun clauses u htu hclauses => ?_
  · rintro clauses u flag ⟨hinit, hcond, hpost, hshape⟩
    exact ⟨hinit, hcond, hpost, hshape⟩
  · refine (block_settles hb (ht.leads htu)).bind fun body v huv hbody => settles_pure ?_
    refine .forStatement ?_ ?_ ?_ hbody hclauses.shape
    · exact fun n hn hne => (hclauses.init n hn hne).leads_succ huv
    · exact fun n hn => (hclauses.cond n hn).leads huv
    · exact fun n hn => (hclauses.post n hn).leads_succ huv

theorem goStatement_settles (hs : s.Affords c depth 1) :
    Settles c goStatement s fun n t => Parsed c.spelled (t.reached + 1) .statement n := by
  refine settles_terminated ?_
  refine settles_expect_bind nofun fun _ t hst => settles_current_bind ?_
  refine (hb.expression (hs.leads hst.toLeads)).bind fun e u _ he => ?_
  cases e with
  | application operator operands => exact settles_pure (.goStatement he)
  | _ => exact settles_refuse

theorem caseGuard_settles (hs : s.Affords c depth 1) :
    Settles c caseGuard s fun n t => Parsed c.spelled (t.reached + 1) .guard n := by
  refine settles_current_bind ?_
  refine (simpleStatement_settles hb hs).bind fun statement t _ hstatement => ?_
  cases hguard : guard? statement with
  | none => exact settles_refuse
  | some guard => exact settles_pure (.guard hstatement hguard)

theorem caseBody_settles (hs : s.Affords c depth 2) :
    Settles c caseBody s fun ns t => ∀ n ∈ ns, Parsed c.spelled t.reached .statement n := by
  refine settles_withStructLiterals (fun t hst => ?_) fun _ _ _ h => h
  refine settles_many (fun _ _ _ => Parsed.leads) fun u htu => ?_
  refine settles_skipSemicolons.bind fun _ v huv _ => settles_kind_bind ?_
  have hv := ((hs.leads hst).leads htu).leads huv
  generalize v.current.kind = k
  cases k with
  | caseWord | defaultWord | closeCurly | eof => exact settles_pure nofun
  | _ => exact (hb.statement hv).bind fun _ _ _ h => settles_pure (forall_mem_some h)

theorem selectArm_settles (hs : s.Affords c depth 1) :
    Settles c selectArm s fun o t => ∀ n ∈ o, Parsed c.spelled (t.reached + 1) .arm n := by
  refine settles_skipSemicolons.bind fun _ t hst _ => settles_kind_bind ?_
  have ht := hs.leads hst
  generalize t.current.kind = k
  cases k with
  | closeCurly => exact settles_pure nofun
  | caseWord =>
    refine settles_advance_bind fun u htu _ => ?_
    refine (caseGuard_settles hb (ht.leads htu)).bind fun guard v huv hguard => ?_
    refine settles_expectOr_bind nofun fun _ w hvw => ?_
    have hw := ((ht.leads htu).leads huv).consumes hvw
    refine (caseBody_settles hb hw).bind fun body x hwx hbody => settles_pure (forall_mem_some ?_)
    exact .selectCase (hguard.leads_succ (hvw.toLeads.trans hwx)) hbody
  | defaultWord =>
    refine settles_advance_bind fun u htu _ => settles_expectOr_bind nofun fun _ v huv => ?_
    refine (caseBody_settles hb ((ht.leads htu).consumes huv)).bind fun body w _ hbody => ?_
    exact settles_pure (forall_mem_some (.defaultCase hbody))
  | _ => exact settles_unexpected

theorem selectStatement_settles (hs : s.Affords c depth 1) :
    Settles c selectStatement s fun n t => Parsed c.spelled (t.reached + 1) .statement n := by
  refine settles_terminated ?_
  refine settles_expect_bind nofun fun _ t hst => settles_expectOr_bind nofun fun _ u htu => ?_
  have hu := (hs.leads hst.toLeads).leads htu.toLeads
  refine (settles_many (P := fun n t => Parsed c.spelled (t.reached + 1) .arm n)
    (fun _ _ _ => Parsed.leads_succ) fun v huv => selectArm_settles hb (hu.leads huv)).bind
      fun cases v _ hcases => ?_
  refine settles_expect_bind nofun fun _ w hvw => settles_pure (.selectStatement ?_)
  exact fun n hn => (hcases n hn).leads_succ hvw.toLeads

theorem statementBody_settles (hs : s.Affords c depth 1) :
    Settles c statementBody s fun n t => Parsed c.spelled (t.reached + 1) .statement n := by
  refine settles_read_bind (fun _ => rfl) (settles_kind_bind ?_)
  have hs₀ := hs.mono (Nat.zero_le 1)
  cases Table.standard.statement s.current.kind with
  | none =>
    refine settles_terminated ?_
    exact (simpleStatement_settles hb hs).mono fun _ _ _ h => h.statement_of_simple
  | some form =>
    cases form with
    | declaration => exact settles_terminated (declaration_settles hb hs)
    | typeDeclaration => exact typeDeclarationStatement_settles hb hs
    | function => exact functionStatement_settles hb hs
    | ret => exact returnStatement_settles hb hs
    | ifThen => exact ifStatement_settles hb hs₀
    | loop => exact forStatement_settles hb hs
    | go => exact goStatement_settles hb hs
    | select => exact selectStatement_settles hb hs

theorem goalBody_settles {goal : Goal} {k : Nat} (hk : goal.cost = k + 1)
    (hs : s.Affords c depth k) :
    Settles c (fun below => goalBody below goal) s fun n t =>
      Meets c goal s.current.kind (t.reached + 1) n := by
  cases goal with
  | statement =>
    cases hk
    exact (statementBody_settles hb hs).mono fun _ _ _ h => ⟨h, nofun⟩
  | expression power =>
    cases hk
    exact (expressionBody_settles hb hs).mono fun _ _ _ h => ⟨h, nofun⟩
  | type =>
    cases hk
    exact typeBody_settles hb hs
  | elseIf =>
    cases hk
    exact (ifBody_settles hb hs).mono fun _ _ _ h => ⟨h, nofun⟩

omit hb in
theorem Goal.exists_cost_eq (goal : Goal) : ∃ k, goal.cost = k + 1 := by
  cases goal with
  | statement => exact ⟨1, rfl⟩
  | expression | type | elseIf => exact ⟨0, rfl⟩

omit hb in
/-- Every level costs a token, so the budget bounds the recursion. -/
theorem goals_settle (c : Terms) (depth : Nat) : GoalsSettle c depth := by
  have key : ∀ rest depth, c.budget ≤ depth + rest → GoalsSettle c depth := by
    intro rest
    induction rest with
    | zero =>
      intro depth hrest goal s hs
      obtain ⟨k, hk⟩ := goal.exists_cost_eq
      have hpaid := hs.paid
      omega
    | succ rest ih =>
      intro depth hrest goal s hs
      obtain ⟨k, hk⟩ := goal.exists_cost_eq
      have hdepth := hs.depth_eq
      have hpaid := hs.paid
      refine settles_goal (by omega) ?_
      refine goalBody_settles (ih (depth + 1) (by omega)) hk ⟨?_, ?_⟩
      · exact congrArg (· + 1) hdepth
      · dsimp only
        omega
  exact key c.budget depth (Nat.le_add_left _ _)

omit hb in
theorem program_settles (hs : s.Affords c depth 2) :
    Settles c (fun _ => program) s fun n t =>
      ∃ items, n = .program items ∧ ∀ n ∈ items, Parsed c.spelled t.reached .statement n := by
  have hitems : Settles c (fun _ => many do
        skipSemicolons
        if (← kind) = .eof then return none else return some (← statement)) s fun items t =>
      ∀ n ∈ items, Parsed c.spelled t.reached .statement n := by
    refine settles_many (fun _ _ _ => Parsed.leads) fun t hst => ?_
    refine settles_skipSemicolons.bind fun _ u htu _ => ?_
    refine settles_kind_bind (settles_ite (fun _ => settles_pure nofun) fun _ => ?_)
    have hstatement : Settles c (fun _ => statement) u fun n t =>
        Parsed c.spelled t.reached .statement n :=
      ((goals_settle c depth).statement ((hs.leads hst).leads htu)).congr fun _ => rfl
    exact hstatement.bind fun _ _ _ h => settles_pure (forall_mem_some h)
  exact hitems.bind fun items _ _ h => settles_pure ⟨items, rfl, h⟩

end MiniGo.Grammar
