import MiniGo.Proofs.Grammar.Conduct.Expressions

/-!
How the rules for statements behave. A statement ends behind a semicolon or in front of what closes more
than the statement, so either the next one may start there or there is no next one.
-/
namespace MiniGo.Grammar

def StatementForm.Starts (k : TokenKind) : StatementForm → Prop
  | .declaration => k.isPlain = true
  | .typeDeclaration => k = .typeWord
  | .function => k = .funcWord
  | .ret => k = .returnWord
  | .ifThen => k = .ifWord
  | .loop => k = .forWord
  | .go => k = .goWord
  | .select => k = .selectWord

private theorem starts_of_statement {k : TokenKind} {form : StatementForm}
    (h : Table.standard.statement k = some form) : form.Starts k := by
  cases k <;> cases h <;> rfl

variable {v : Course} {below below' : Below} {s : State}

theorem terminator_behaves :
    Behaves v s terminator terminator fun _ w t => Bracketed w ∧ t.AtStart := by
  refine behaves_of_within fun hs => behaves_kind_bind ?_
  split
  · rename_i hsemi
    refine behaves_advance_bind (by rw [hsemi]; decide) (behaves_pure ⟨?_, .inl ?_⟩)
    · exact .plain (by rw [hsemi]; rfl) .nil
    · exact hs.separated_next (by rw [hsemi]; decide)
  · rename_i hclose
    exact behaves_pure ⟨.nil, .inr (.inl hclose)⟩
  · rename_i hclose
    exact behaves_pure ⟨.nil, .inr (.inr (.inl hclose))⟩
  · rename_i heof
    exact behaves_pure ⟨.nil, .inr (.inr (.inr heof))⟩
  · exact behaves_unexpected

theorem terminated_behaves {rule rule' : Rule Node}
    (h : Behaves v s rule rule' fun _ w _ => Passage w) :
    Behaves v s (terminated rule) (terminated rule') fun _ w t => Passage w ∧ t.AtStart := by
  refine h.bind fun n w t _ hw => terminator_behaves.bind fun _ w' u _ hw' => behaves_pure ⟨?_, hw'.2⟩
  exact hw.append (hw'.1.append .nil)

theorem condition_behaves {statement : Node} :
    Behaves v s (condition statement) (condition statement) fun _ w _ => w = [] := by
  unfold condition
  split
  · exact behaves_pure rfl
  · exact behaves_unexpected

section Statements

variable (hb : BelowBehaves v below below')
include hb

theorem finishSimple_behaves {exprs : List Node} :
    Behaves v s (finishSimple below exprs) (finishSimple below' exprs) fun _ w _ => Bracketed w := by
  refine behaves_kind_bind ?_
  split
  · rename_i hdefine
    refine behaves_ite (fun _ => ?_) fun _ => behaves_unexpected
    refine behaves_advance_bind (by rw [hdefine]; decide) ?_
    refine (expressionList_behaves hb).bind fun vals w t _ hw => behaves_pure ?_
    exact .plain (by rw [hdefine]; rfl) (hw.bracketed.append .nil)
  · rename_i hassign
    refine behaves_ite (fun _ => ?_) fun _ => behaves_unexpected
    refine behaves_advance_bind (by rw [hassign]; decide) ?_
    refine (expressionList_behaves hb).bind fun vals w t _ hw => behaves_pure ?_
    exact .plain (by rw [hassign]; rfl) (hw.bracketed.append .nil)
  · rename_i harrow
    split
    · refine behaves_advance_bind (by rw [harrow]; decide) ?_
      refine (hb.expression .lowest _).bind fun val w t _ hw => behaves_pure ?_
      exact .plain (by rw [harrow]; rfl) (hw.bracketed.append .nil)
    · exact behaves_unexpected
  · split
    · exact behaves_pure .nil
    · exact behaves_unexpected

theorem simpleStatement_behaves :
    Behaves v s (simpleStatement below) (simpleStatement below') fun _ w _ => Passage w := by
  refine (expressionList_behaves hb).bind fun exprs w t _ hw => ?_
  exact (finishSimple_behaves hb).mono fun _ w' u _ hw' => hw.append hw'

theorem declarationLine_behaves :
    Behaves v s (declarationLine below) (declarationLine below') fun _ w _ => Passage w := by
  refine (typedNames_behaves hb).bind fun ids w t _ hw => behaves_kind_bind ?_
  refine behaves_ite (fun hassign => ?_) fun _ => behaves_pure ((hw.2 nofun).append .nil)
  refine behaves_advance_bind (by rw [hassign]; decide) ?_
  refine (expressionList_behaves hb).bind fun vals w' u _ hw' => behaves_pure ?_
  exact (hw.2 nofun).append (.plain (by rw [hassign]; rfl) (hw'.bracketed.append .nil))

theorem declarationLines_behaves :
    Behaves v s (declarationLines below) (declarationLines below') fun _ w _ => Passage w := by
  refine behaves_kind_bind (behaves_ite (fun hopen => ?_) fun _ => ?_)
  · refine behaves_advance_bind (by rw [hopen]; decide) ?_
    refine Behaves.bind (behaves_many (I := fun _ => True) (D := fun t => t.current.kind = .closeParen)
      (fun t _ => ?_) trivial) fun lines w t _ ⟨hw, hclose⟩ => ?_
    · refine behaves_skipSemicolons.bind fun _ w u _ hw => behaves_kind_bind ?_
      split
      · rename_i hclose
        exact behaves_pure ⟨hw.1.append .nil, hclose⟩
      · exact behaves_unexpected
      · refine (declarationLine_behaves hb).bind fun line w' z _ hw' => ?_
        refine terminator_behaves.bind fun _ w'' z' _ hw'' => behaves_pure ⟨?_, trivial⟩
        exact (hw'.append (hw''.1.append .nil)).prepend hw.1
    · exact behaves_expect_bind hclose nofun
        (behaves_pure (.pair (by rw [hopen, hclose]; rfl) hw .nil))
  · exact (declarationLine_behaves hb).bind fun line w t _ hw => behaves_pure (hw.append .nil)

theorem declaration_behaves (hk : s.current.kind.isPlain = true) :
    Behaves v s (declaration below) (declaration below') fun _ w _ => Passage w := by
  refine behaves_advance_bind (ne_eof_of_isPlain hk) ?_
  exact (declarationLines_behaves hb).bind fun lines w t _ hw =>
    behaves_pure (.plain hk (hw.bracketed.append .nil))

theorem typeDeclarationStatement_behaves (hk : s.current.kind = .typeWord) :
    Behaves v s (typeDeclarationStatement below) (typeDeclarationStatement below') fun _ w t =>
      Passage w ∧ t.AtStart := by
  refine terminated_behaves (behaves_expect_bind hk nofun ?_)
  refine behaves_expectOr_bind nofun fun hname => (hb.type _).bind fun n w t _ hw => behaves_pure ?_
  exact .plain (by rw [hk]; rfl) (.plain (by rw [hname]; rfl) (hw.bracketed.append .nil))

theorem namedFunction_behaves (hk : s.current.kind = .funcWord) (hname : s.kindAhead 1 = .identifier) :
    Behaves v s (namedFunction below) (namedFunction below') fun _ w _ => Passage w := by
  refine behaves_of_within fun hs => behaves_expect_bind hk nofun ?_
  have hlater : s.later ≠ [] := by
    have hlt := (hs.advances_next (by rw [hk]; decide)).passes.length_lt (List.cons_ne_nil _ _)
    exact List.ne_nil_of_length_pos (Nat.zero_lt_of_lt hlt)
  rw [kindAhead_one hlater] at hname
  refine behaves_advance_bind (by rw [hname]; decide) ((functionRest_behaves hb).mono ?_)
  exact fun _ w t _ hw => .plain (by rw [hk]; rfl) (.plain (by rw [hname]; rfl) hw.bracketed)

theorem functionLiteralStatement_behaves (hk : s.current.kind = .funcWord) :
    Behaves v s (functionLiteralStatement below) (functionLiteralStatement below') fun _ w _ =>
      Passage w := by
  refine (behaves_measured (functionLiteral_behaves hb hk) fun _ _ _ _ h => h).bind ?_
  rintro ⟨function, height⟩ w t - hw
  have hpassage : ∀ {w'}, Bracketed w' → Passage (w ++ w') := fun hw' => Passage.append hw hw'
  refine behaves_kind_bind ?_
  split
  · exact behaves_pure (hpassage .nil)
  · exact behaves_pure (hpassage .nil)
  · exact behaves_pure (hpassage .nil)
  · refine (tail_behaves hb).bind fun first w' u _ hw' => ?_
    refine (moreExpressions_behaves hb).bind fun more w'' z _ hw'' => ?_
    exact (finishSimple_behaves hb).mono fun _ w''' _ _ hw''' =>
      hpassage (hw'.append (hw''.append hw'''))

theorem functionStatement_behaves (hk : s.current.kind = .funcWord) :
    Behaves v s (functionStatement below) (functionStatement below') fun _ w t =>
      Passage w ∧ t.AtStart := by
  refine terminated_behaves (behaves_kindAhead_bind (behaves_ite (fun hname => ?_) fun _ => ?_))
  · exact namedFunction_behaves hb hk hname
  · exact functionLiteralStatement_behaves hb hk

theorem returnStatement_behaves (hk : s.current.kind = .returnWord) :
    Behaves v s (returnStatement below) (returnStatement below') fun _ w t =>
      Passage w ∧ t.AtStart := by
  have hpassage : ∀ {w}, Bracketed w → Passage (s.current :: w) := fun hw => .plain (by rw [hk]; rfl) hw
  refine terminated_behaves (behaves_expect_bind hk nofun (behaves_kind_bind ?_))
  split
  · exact behaves_pure (hpassage .nil)
  · exact behaves_pure (hpassage .nil)
  · exact behaves_pure (hpassage .nil)
  · exact (expressionList_behaves hb).bind fun vals w t _ hw =>
      behaves_pure (hpassage (hw.bracketed.append .nil))

theorem ifHeader_behaves :
    Behaves v s (ifHeader below) (ifHeader below') fun _ w _ => Passage w := by
  refine (simpleStatement_behaves hb).bind fun first w t _ hw => behaves_kind_bind ?_
  refine behaves_ite (fun hsemi => ?_) fun _ => ?_
  · refine behaves_advance_bind (by rw [hsemi]; decide) ?_
    refine (hb.expression .lowest _).bind fun cond w' u _ hw' => behaves_pure ?_
    exact hw.append (.plain (by rw [hsemi]; rfl) (hw'.bracketed.append .nil))
  · refine condition_behaves.bind ?_
    rintro cond _ u - rfl
    exact behaves_pure (hw.append .nil)

theorem alternative_behaves :
    Behaves v s (alternative below) (alternative below') fun _ w _ => Bracketed w := by
  refine behaves_kind_bind (behaves_ite (fun helse => ?_) fun _ => behaves_pure .nil)
  have hword : s.current.kind.isPlain = true := by rw [helse]; rfl
  refine behaves_advance_bind (ne_eof_of_isPlain hword) (behaves_kind_bind ?_)
  split
  · rename_i hif
    refine (hb.elseIf hif).bind fun n w t _ hw => behaves_pure ?_
    exact .plain hword (hw.bracketed.append .nil)
  · refine (block_behaves hb).bind fun body w t _ hw => behaves_pure ?_
    exact .plain hword (hw.bracketed.append .nil)
  · exact behaves_unexpected

theorem ifBody_behaves (hk : s.current.kind = .ifWord) :
    Behaves v s (ifBody below) (ifBody below') fun _ w _ => Passage w := by
  refine behaves_expect_bind hk nofun ?_
  refine (behaves_withStructLiterals (ifHeader_behaves hb) fun _ _ _ _ h => h).bind ?_
  rintro ⟨short, cond⟩ w t - hw
  refine (block_behaves hb).bind fun cons w' u _ hw' => ?_
  refine (alternative_behaves hb).bind fun alt w'' z _ hw'' => behaves_pure ?_
  exact .plain (by rw [hk]; rfl) (hw.bracketed.append (hw'.bracketed.append (hw''.append .nil)))

theorem forRest_behaves {init : Node} (hk : s.current.kind = .semicolon) :
    Behaves v s (forRest below init) (forRest below' init) fun _ w _ => Bracketed w := by
  have hpost : ∀ (cond : Option Node) (w : List Token) (t : State), Bracketed w → Behaves v t
      (do
        let _ ← expectOr .semicolon "expected `;`"
        let post ← if (← kind) = .openCurly then pure none else some <$> simpleStatement below
        return Clauses.mk (some init) cond post)
      (do
        let _ ← expectOr .semicolon "expected `;`"
        let post ← if (← kind) = .openCurly then pure none else some <$> simpleStatement below'
        return Clauses.mk (some init) cond post) fun _ w' _ => Bracketed (s.current :: (w ++ w')) := by
    intro cond w t hw
    have hwhole : ∀ {w'}, Bracketed w' → Bracketed (s.current :: (w ++ w')) := fun hw' =>
      .plain (by rw [hk]; rfl) (hw.append hw')
    refine behaves_expectOr_bind nofun fun hsemi => behaves_kind_bind ?_
    have hword : t.current.kind.isPlain = true := by rw [hsemi]; rfl
    refine behaves_ite (fun _ => behaves_pure (hwhole (.plain hword .nil))) fun _ => ?_
    refine Behaves.bind (P := fun _ w _ => Passage w) (Behaves.map (simpleStatement_behaves hb)) ?_
    exact fun post w' u _ hw' => behaves_pure (hwhole (.plain hword (hw'.bracketed.append .nil)))
  refine behaves_expect_bind hk nofun (behaves_kind_bind (behaves_ite (fun _ => ?_) fun _ => ?_))
  · exact hpost none [] _ .nil
  · refine Behaves.bind (P := fun _ w _ => Passage w) (Behaves.map (hb.expression .lowest _)) ?_
    exact fun cond w t _ hw => hpost cond w t hw.bracketed

theorem forHeader_behaves :
    Behaves v s (forHeader below) (forHeader below') fun _ w _ => Bracketed w := by
  refine behaves_kind_bind ?_
  split
  · exact behaves_pure .nil
  · rename_i hsemi
    exact forRest_behaves hb hsemi
  · refine (simpleStatement_behaves hb).bind fun first w t _ hw => behaves_kind_bind ?_
    refine behaves_ite (fun hsemi => ?_) fun _ => ?_
    · exact (forRest_behaves hb hsemi).mono fun _ w' u _ hw' => hw.bracketed.append hw'
    · refine condition_behaves.bind ?_
      rintro cond _ u - rfl
      exact behaves_pure (hw.bracketed.append .nil)

theorem forStatement_behaves (hk : s.current.kind = .forWord) :
    Behaves v s (forStatement below) (forStatement below') fun _ w t => Passage w ∧ t.AtStart := by
  refine terminated_behaves (behaves_expect_bind hk nofun ?_)
  refine (behaves_withStructLiterals (forHeader_behaves hb) fun _ _ _ _ h => h).bind
    fun clauses w t _ hw => ?_
  refine (block_behaves hb).bind fun body w' u _ hw' => behaves_pure ?_
  exact .plain (by rw [hk]; rfl) (hw.append (hw'.bracketed.append .nil))

theorem goStatement_behaves (hk : s.current.kind = .goWord) :
    Behaves v s (goStatement below) (goStatement below') fun _ w t => Passage w ∧ t.AtStart := by
  refine terminated_behaves (behaves_expect_bind hk nofun (behaves_of_within fun hs => ?_))
  refine behaves_current_bind ((hb.expression .lowest _).bind fun n w t _ hw => ?_)
  split
  · exact behaves_pure (.plain (by rw [hk]; rfl) (hw.bracketed.append .nil))
  · exact behaves_refuse hs.current

theorem caseGuard_behaves : Behaves v s (caseGuard below) (caseGuard below') fun _ w _ => Passage w := by
  refine behaves_of_within fun hs => behaves_current_bind ?_
  refine (simpleStatement_behaves hb).bind fun n w t _ hw => ?_
  split
  · exact behaves_pure (hw.append .nil)
  · exact behaves_refuse hs.current

theorem caseBody_behaves (hs : s.AtStart) :
    Behaves v s (caseBody below) (caseBody below') fun _ w _ => Bracketed w := by
  have hstart : State.AtStart { s with structLiterals := true } := hs
  refine (behaves_withStructLiterals (behaves_many (I := State.AtStart) (D := fun _ => True)
    (fun t ht => ?_) hstart) fun _ _ _ _ h => h).mono fun _ _ _ _ h => h.1
  refine behaves_skipSemicolons.bind fun _ w u _ ⟨hw, hu⟩ => behaves_kind_bind ?_
  have hnone : Behaves v u (pure none) (pure none) fun (o : Option Node) w' z =>
      Repeated State.AtStart (fun _ => True) o (w ++ w') z := behaves_pure ⟨hw.append .nil, trivial⟩
  split
  · exact hnone
  · exact hnone
  · exact hnone
  · exact hnone
  · refine (hb.statement (hu ht)).bind fun n w' z _ ⟨hw', hz⟩ => behaves_pure ⟨?_, hz⟩
    exact (hw'.append .nil).prepend hw

theorem selectArm_behaves : Behaves v s (selectArm below) (selectArm below')
    (Repeated (fun _ => True) fun t => t.current.kind = .closeCurly) := by
  refine behaves_skipSemicolons.bind fun _ w t _ hw => behaves_kind_bind ?_
  have hpassage : ∀ {w'}, Passage w' → Passage (w ++ w') := fun hw' => hw'.prepend hw.1
  split
  · rename_i hclose
    exact behaves_pure ⟨hw.1.append .nil, hclose⟩
  · rename_i hcase
    refine behaves_advance_bind (by rw [hcase]; decide) ?_
    refine (caseGuard_behaves hb).bind fun guard w' u _ hw' => ?_
    refine behaves_of_within fun hu => behaves_expectOr_bind nofun fun hcolon => ?_
    refine (caseBody_behaves hb (.inl (hu.separated_next (by rw [hcolon]; decide)))).bind
      fun body w'' z _ hw'' => behaves_pure ⟨hpassage (.plain (by rw [hcase]; rfl) ?_), trivial⟩
    exact hw'.bracketed.append (.plain (by rw [hcolon]; rfl) (hw''.append .nil))
  · rename_i hdefault
    refine behaves_advance_bind (by rw [hdefault]; decide) ?_
    refine behaves_of_within fun hu => behaves_expectOr_bind nofun fun hcolon => ?_
    refine (caseBody_behaves hb (.inl (hu.separated_next (by rw [hcolon]; decide)))).bind
      fun body w' z _ hw' => behaves_pure ⟨hpassage (.plain (by rw [hdefault]; rfl) ?_), trivial⟩
    exact .plain (by rw [hcolon]; rfl) (hw'.append .nil)
  · exact behaves_unexpected

theorem selectStatement_behaves (hk : s.current.kind = .selectWord) :
    Behaves v s (selectStatement below) (selectStatement below') fun _ w t =>
      Passage w ∧ t.AtStart := by
  refine terminated_behaves (behaves_expect_bind hk nofun (behaves_expectOr_bind nofun fun hopen => ?_))
  refine (behaves_many (fun t _ => selectArm_behaves hb) trivial).bind fun cases w t _ ⟨hw, hclose⟩ => ?_
  refine behaves_expect_bind hclose nofun (behaves_pure ?_)
  exact .plain (by rw [hk]; rfl) (.pair (by rw [hopen, hclose]; rfl) hw .nil)

theorem statementBody_behaves : Behaves v s (statementBody below) (statementBody below') fun _ w t =>
    Passage w ∧ t.AtStart := by
  refine behaves_read_bind (behaves_kind_bind ?_)
  rw [v.standard]
  cases hform : Table.standard.statement s.current.kind with
  | none => exact terminated_behaves (simpleStatement_behaves hb)
  | some form =>
    have hk := starts_of_statement hform
    cases form with
    | declaration => exact terminated_behaves (declaration_behaves hb hk)
    | typeDeclaration => exact typeDeclarationStatement_behaves hb hk
    | function => exact functionStatement_behaves hb hk
    | ret => exact returnStatement_behaves hb hk
    | ifThen => exact terminated_behaves (ifBody_behaves hb hk)
    | loop => exact forStatement_behaves hb hk
    | go => exact goStatement_behaves hb hk
    | select => exact selectStatement_behaves hb hk

theorem goalBody_behaves (goal : Goal) (hs : goal.Ready s) :
    Behaves v s (goalBody below goal) (goalBody below' goal) fun _ w t => goal.Leaves w t := by
  cases goal with
  | statement => exact statementBody_behaves hb
  | expression power => exact expressionBody_behaves hb
  | type => exact typeBody_behaves hb
  | elseIf => exact ifBody_behaves hb hs

end Statements

end MiniGo.Grammar
