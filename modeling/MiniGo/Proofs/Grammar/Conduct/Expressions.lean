import MiniGo.Proofs.Grammar.Conduct

/-!
How the rules for types and for expressions behave. A bracket that a rule opens is closed by the same rule,
and a token that a rule takes for granted is there because of what led to the rule.
-/
namespace MiniGo.Grammar

section Starts

variable {k : TokenKind}

def TypeForm.Starts (k : TokenKind) : TypeForm → Prop
  | .named => k = .identifier
  | .array => k = .openBracket
  | .chan => k = .chanWord
  | .receiveChan => k = .arrow
  | .function => k = .funcWord
  | .struct => k = .structWord

def OperandForm.Starts (k : TokenKind) : OperandForm → Prop
  | .primary => k = .number ∨ k = .string ∨ k = .boolean ∨ k = .identifier
  | .unary => k.isPlain = true
  | .receive => k = .arrow
  | .grouping => k = .openParen
  | .function => k = .funcWord

def OperatorForm.Starts (k : TokenKind) : OperatorForm → Prop
  | .binary => k.isPlain = true
  | .call => k = .openParen
  | .index => k = .openBracket
  | .structLiteral => k = .openCurly
  | .member => k = .dot

private theorem starts_of_type {form : TypeForm} (h : Table.standard.type k = some form) : form.Starts k := by
  cases k <;> cases h <;> rfl

private theorem starts_of_operand {form : OperandForm} (h : Table.standard.operand k = some form) :
    form.Starts k := by
  cases k <;> cases h <;> simp [OperandForm.Starts, TokenKind.isPlain]

private theorem starts_of_operator {power : Power} {form : OperatorForm}
    (h : Table.standard.operator k = some (power, form)) : form.Starts k := by
  cases k <;> cases h <;> rfl

theorem ne_eof_of_isPlain (h : k.isPlain = true) : k ≠ .eof := by
  rintro rfl
  cases h

end Starts

variable {v : Course} {below below' : Below} {s : State}

section Types

variable (hb : BelowBehaves v below below')
include hb

theorem typeList_behaves : Behaves v s (typeList below) (typeList below') fun _ w t =>
    Bracketed w ∧ t.current.kind = .closeParen := behaves_separated hb.type

theorem resultType_behaves :
    Behaves v s (resultType below) (resultType below') fun _ w _ => Passage w := by
  refine behaves_kind_bind (behaves_ite (fun hopen => ?_) fun _ => hb.type s)
  refine behaves_advance_bind (by rw [hopen]; decide) ?_
  refine (typeList_behaves hb).bind fun elements w t _ hw => ?_
  refine behaves_expectOr_bind nofun fun hclose => behaves_pure ?_
  exact .pair (by rw [hopen, hclose]; rfl) hw.1 .nil

omit hb in
theorem namedType_behaves (hk : s.current.kind = .identifier) :
    Behaves v s namedType namedType fun _ w _ => Passage w := by
  have hword : Passage [s.current] := .plain (by rw [hk]; rfl) .nil
  refine behaves_expect_bind hk nofun ?_
  split
  · exact behaves_pure hword
  · exact behaves_pure hword

theorem arrayType_behaves (hk : s.current.kind = .openBracket) :
    Behaves v s (arrayType below) (arrayType below') fun _ w _ => Passage w := by
  refine behaves_expect_bind hk nofun (behaves_kind_bind (behaves_ite (fun hclose => ?_) fun _ => ?_))
  · refine behaves_advance_bind (by rw [hclose]; decide) ?_
    refine (hb.type _).bind fun element w t _ hw => behaves_pure ?_
    exact .pair (w := []) (by rw [hk, hclose]; rfl) .nil (hw.bracketed.append .nil)
  · cases hsize : if s.next.current.kind = .number then arraySize? s.next.current.value else none with
    | none =>
      have hrefused : s.next.current.Refused (.invalidArraySize s.next.current.describe) := rfl
      exact behaves_advance_failAt (by simp only [hsize]) hrefused
    | some size =>
      have hnumber : s.next.current.kind = .number := by
        by_cases hnumber : s.next.current.kind = .number
        · exact hnumber
        · rw [if_neg hnumber] at hsize
          cases hsize
      refine behaves_advance_bind (by rw [hnumber]; decide) ?_
      simp only [hsize]
      refine behaves_expectOr_bind nofun fun hclose => ?_
      refine (hb.type _).bind fun element w t _ hw => behaves_pure ?_
      exact .pair (w := [_]) (by rw [hk, hclose]; rfl) (.plain (by rw [hnumber]; rfl) .nil)
        (hw.bracketed.append .nil)

theorem chanType_behaves (hk : s.current.kind = .chanWord) :
    Behaves v s (chanType below) (chanType below') fun _ w _ => Passage w := by
  have hword : s.current.kind.isPlain = true := by rw [hk]; rfl
  refine behaves_expect_bind hk nofun (behaves_kind_bind (behaves_ite (fun harrow => ?_) fun _ => ?_))
  · refine behaves_advance_bind (by rw [harrow]; decide) ?_
    refine (hb.type _).bind fun element w t _ hw => behaves_pure ?_
    exact .plain hword (.plain (by rw [harrow]; rfl) (hw.bracketed.append .nil))
  · refine (hb.type _).bind fun element w t _ hw => behaves_pure ?_
    exact .plain hword (hw.bracketed.append .nil)

theorem receiveChanType_behaves (hk : s.current.kind = .arrow) :
    Behaves v s (receiveChanType below) (receiveChanType below') fun _ w _ => Passage w := by
  refine behaves_expect_bind hk nofun (behaves_expectOr_bind nofun fun hchan => ?_)
  refine (hb.type _).bind fun element w t _ hw => behaves_pure ?_
  exact .plain (by rw [hk]; rfl) (.plain (by rw [hchan]; rfl) (hw.bracketed.append .nil))

theorem functionType_behaves (hk : s.current.kind = .funcWord) :
    Behaves v s (functionType below) (functionType below') fun _ w _ => Passage w := by
  refine behaves_expect_bind hk nofun (behaves_expectOr_bind nofun fun hopen => ?_)
  refine (typeList_behaves hb).bind fun elements w t _ ⟨hw, hclose⟩ => ?_
  have hpassage : ∀ {w'}, Bracketed w' →
      Passage (s.current :: s.next.current :: (w ++ t.current :: w')) := fun hw' =>
    .plain (by rw [hk]; rfl) (.pair (by rw [hopen, hclose]; rfl) hw hw')
  refine behaves_expect_bind hclose nofun ?_
  have hstarts : Behaves v t.next startsResultType startsResultType fun _ w' _ => w' = [] :=
    behaves_kind_bind (behaves_read_bind (behaves_pure rfl))
  refine hstarts.bind ?_
  rintro starts _ u - rfl
  refine behaves_ite (fun _ => ?_) fun _ => behaves_pure (hpassage .nil)
  exact (resultType_behaves hb).bind fun result w' z _ hw' =>
    behaves_pure (hpassage (hw'.bracketed.append .nil))

def NamesPassed (found : List Node × List String) (w : List Token) : Prop :=
  Bracketed w ∧ (w = [] → found = ([], []))

omit hb in
theorem nameEnd_behaves {found : List Node × List String} {w w' : List Token} (hw : Bracketed w)
    (hw' : Passage w') :
    Behaves v s (nameEnd found) (nameEnd found) fun x u t =>
      Turned (fun found w _ => NamesPassed found w) (fun found w _ => NamesPassed found w) w x
        (w' ++ u) t := by
  have hnames : ∀ {u}, Bracketed u → NamesPassed found (w ++ (w' ++ u)) := by
    intro u hu
    have hpassage := (hw'.append hu).prepend hw
    exact ⟨hpassage.bracketed, fun hnil => absurd hnil hpassage.ne_nil⟩
  refine behaves_kind_bind (behaves_ite (fun hcomma => ?_) fun _ => behaves_pure (hnames .nil))
  refine behaves_advance_bind (by rw [hcomma]; decide) (behaves_pure ⟨?_, hnames ?_⟩)
  · exact List.append_ne_nil_of_left_ne_nil hw'.ne_nil _
  · exact .plain (by rw [hcomma]; rfl) .nil

theorem nameTurn_behaves {terminators : List TokenKind} {found : List Node × List String}
    {w : List Token} (h : NamesPassed found w) :
    Behaves v s (nameTurn below terminators found) (nameTurn below' terminators found)
      (Turned (fun found w _ => NamesPassed found w) (fun found w _ => NamesPassed found w) w) := by
  obtain ⟨ids, pending⟩ := found
  refine behaves_kind_bind (behaves_ite (fun _ => behaves_pure ?_) fun _ => ?_)
  · rwa [Turned, List.append_nil]
  · refine behaves_expectOr_bind nofun fun hname => behaves_kind_bind ?_
    have hword : Passage [s.current] := .plain (by rw [hname]; rfl) .nil
    refine behaves_ite (fun _ => ?_) fun _ => nameEnd_behaves h.1 hword
    refine (hb.type _).bind fun type w' t _ hw' => ?_
    have hboth : Passage (s.current :: w') := .plain (by rw [hname]; rfl) hw'.bracketed
    exact nameEnd_behaves h.1 hboth

theorem typedNames_behaves {terminators : List TokenKind} {list : NameList} :
    Behaves v s (typedNames below terminators list) (typedNames below' terminators list) fun _ w _ =>
      Bracketed w ∧ (list ≠ .parameters → Passage w) := by
  have hloop : Behaves v s (loop ([], []) (nameTurn below terminators))
      (loop ([], []) (nameTurn below' terminators)) fun found w _ => NamesPassed found w :=
    behaves_loop (I := fun found w _ => NamesPassed found w)
      (fun found w t h => nameTurn_behaves hb h) ⟨.nil, fun _ => rfl⟩
  refine hloop.bind ?_
  rintro ⟨ids, pending⟩ w t - ⟨hw, hnone⟩
  rw [← List.append_nil w] at hw
  cases pending with
  | nil =>
    refine behaves_ite (fun _ => behaves_unexpected) fun hsome => behaves_pure ⟨hw, fun hlist => ⟨hw, ?_⟩⟩
    rw [List.append_nil]
    rintro rfl
    cases hnone rfl
    exact hsome (by simpa using hlist)
  | cons untyped pending =>
    refine behaves_ite (fun _ => behaves_pure ⟨hw, fun _ => ⟨hw, ?_⟩⟩) fun _ => behaves_fail trivial
    rw [List.append_nil]
    rintro rfl
    cases hnone rfl

theorem structType_behaves (hk : s.current.kind = .structWord) :
    Behaves v s (structType below) (structType below') fun _ w _ => Passage w := by
  refine behaves_expect_bind hk nofun (behaves_expectOr_bind nofun fun hopen => ?_)
  refine Behaves.bind (behaves_many (I := fun _ => True) (D := fun t => t.current.kind = .closeCurly)
    (fun t _ => ?_) trivial) fun groups w t _ ⟨hw, hclose⟩ => ?_
  · refine behaves_skipSemicolons.bind fun _ w u _ hw => behaves_kind_bind ?_
    refine behaves_ite (fun hclose => behaves_pure ⟨hw.1.append .nil, hclose⟩) fun _ => ?_
    refine (typedNames_behaves hb).bind fun fields w' z _ hw' => behaves_kind_bind ?_
    have hpassage : ∀ {w''}, Bracketed w'' → Passage (w ++ (w' ++ w'')) := fun hw'' =>
      ((hw'.2 nofun).append hw'').prepend hw.1
    refine behaves_ite (fun _ => behaves_pure ⟨hpassage .nil, trivial⟩) fun _ => ?_
    refine behaves_expectOr_bind nofun fun hsemi => behaves_pure ⟨hpassage ?_, trivial⟩
    exact .plain (by rw [hsemi]; rfl) .nil
  · refine behaves_expect_bind hclose nofun (behaves_pure ?_)
    exact .plain (by rw [hk]; rfl) (.pair (by rw [hopen, hclose]; rfl) hw .nil)

theorem typeBody_behaves : Behaves v s (typeBody below) (typeBody below') fun _ w _ => Passage w := by
  refine behaves_read_bind (behaves_kind_bind ?_)
  rw [v.standard]
  cases hform : Table.standard.type s.current.kind with
  | none => exact behaves_unexpected
  | some form =>
    have hk := starts_of_type hform
    cases form with
    | named => exact namedType_behaves hk
    | array => exact arrayType_behaves hb hk
    | chan => exact chanType_behaves hb hk
    | receiveChan => exact receiveChanType_behaves hb hk
    | function => exact functionType_behaves hb hk
    | struct => exact structType_behaves hb hk

end Types

section Expressions

variable (hb : BelowBehaves v below below')
include hb

theorem block_behaves : Behaves v s (block below) (block below') fun _ w _ => Passage w := by
  refine behaves_of_within fun hs => behaves_expectOr_bind nofun fun hopen => ?_
  have hstart : s.next.AtStart := .inl (hs.separated_next (by rw [hopen]; decide))
  refine Behaves.bind (behaves_withStructLiterals (behaves_many (I := State.AtStart)
    (D := fun t => t.current.kind = .closeCurly) (fun t ht => ?_) hstart) fun _ _ _ _ h => h)
    fun body w t _ ⟨hw, hclose⟩ => ?_
  · refine behaves_skipSemicolons.bind fun _ w u _ ⟨hw, hu⟩ => behaves_kind_bind ?_
    split
    · rename_i hclose
      exact behaves_pure ⟨hw.append .nil, hclose⟩
    · exact behaves_unexpected
    · refine (hb.statement (hu ht)).bind fun n w' z _ ⟨hw', hz⟩ => behaves_pure ⟨?_, hz⟩
      exact (hw'.append .nil).prepend hw
  · refine behaves_expect_bind hclose nofun (behaves_pure ?_)
    exact .pair (by rw [hopen, hclose]; rfl) hw .nil

theorem functionRest_behaves {name : Option Node} :
    Behaves v s (functionRest below name) (functionRest below' name) fun _ w _ => Passage w := by
  refine behaves_expectOr_bind nofun fun hopen => ?_
  refine (typedNames_behaves hb).bind fun formals w t _ ⟨hw, _⟩ => ?_
  refine behaves_expectOr_bind nofun fun hclose => ?_
  have hpassage : ∀ {w'}, Bracketed w' → Passage (s.current :: (w ++ t.current :: w')) :=
    fun hw' => .pair (by rw [hopen, hclose]; rfl) hw hw'
  refine behaves_kind_bind (behaves_ite (fun _ => ?_) fun _ => ?_)
  · exact (block_behaves hb).bind fun body w' u _ hw' =>
      behaves_pure (hpassage (hw'.bracketed.append .nil))
  · refine Behaves.bind (P := fun _ w _ => Passage w) (Behaves.map (resultType_behaves hb))
      fun result w' u _ hw' => ?_
    exact (block_behaves hb).bind fun body w'' z _ hw'' =>
      behaves_pure (hpassage (hw'.bracketed.append (hw''.bracketed.append .nil)))

omit hb in
theorem primary_behaves (hk : OperandForm.primary.Starts s.current.kind) :
    Behaves v s primary primary fun _ w _ => Passage w := by
  refine behaves_of_within fun hs => ?_
  rcases hk with hk | hk | hk | hk
  all_goals
    have hword : Passage [s.current] := .plain (by rw [hk]; rfl) .nil
    refine behaves_advance_bind (by rw [hk]; decide) ?_
    simp only [hk]
  · cases hparse : Decimal.parse? s.current.value with
    | none => exact behaves_failAt hs.current ⟨rfl, hk, hparse⟩
    | some x => exact behaves_pure hword
  · exact behaves_pure hword
  · exact behaves_pure hword
  · exact behaves_pure hword

theorem unary_behaves (hk : s.current.kind.isPlain = true) :
    Behaves v s (unary below) (unary below') fun _ w _ => Passage w := by
  refine behaves_advance_bind (ne_eof_of_isPlain hk) ?_
  exact (hb.expression .unary _).bind fun e w t _ hw => behaves_pure (.plain hk (hw.bracketed.append .nil))

theorem receive_behaves (hk : s.current.kind = .arrow) :
    Behaves v s (receive below) (receive below') fun _ w _ => Passage w := by
  refine behaves_expect_bind hk nofun ?_
  exact (hb.expression .unary _).bind fun e w t _ hw =>
    behaves_pure (.plain (by rw [hk]; rfl) (hw.bracketed.append .nil))

theorem grouping_behaves (hk : s.current.kind = .openParen) :
    Behaves v s (grouping below) (grouping below') fun _ w _ => Passage w := by
  refine behaves_expect_bind hk nofun ?_
  refine (behaves_withStructLiterals (hb.expression .lowest _) fun _ _ _ _ h => h).bind
    fun e w t _ hw => ?_
  refine behaves_expectOr_bind nofun fun hclose => behaves_pure ?_
  exact .pair (by rw [hk, hclose]; rfl) hw.bracketed .nil

theorem functionLiteral_behaves (hk : s.current.kind = .funcWord) :
    Behaves v s (functionLiteral below) (functionLiteral below') fun _ w _ => Passage w := by
  refine behaves_expect_bind hk nofun ((functionRest_behaves hb).mono fun _ w t _ hw => ?_)
  exact .plain (by rw [hk]; rfl) hw.bracketed

theorem operandOf_behaves {form : OperandForm} (hk : form.Starts s.current.kind) :
    Behaves v s (operandOf below form) (operandOf below' form) fun _ w _ => Passage w := by
  cases form with
  | primary => exact primary_behaves hk
  | unary => exact unary_behaves hb hk
  | receive => exact receive_behaves hb hk
  | grouping => exact grouping_behaves hb hk
  | function => exact functionLiteral_behaves hb hk

theorem binary_behaves {left : Node} {power : Power} (hk : s.current.kind.isPlain = true) :
    Behaves v s (binary below left power) (binary below' left power) fun _ w _ => Passage w := by
  refine behaves_advance_bind (ne_eof_of_isPlain hk) ?_
  exact (hb.expression power _).bind fun e w t _ hw => behaves_pure (.plain hk (hw.bracketed.append .nil))

theorem call_behaves {left : Node} (hk : s.current.kind = .openParen) :
    Behaves v s (call below left) (call below' left) fun _ w _ => Passage w := by
  refine behaves_expect_bind hk nofun ?_
  refine (behaves_withStructLiterals (behaves_separated (hb.expression .lowest)) fun _ _ _ _ h => h).bind
    fun operands w t _ ⟨hw, hclose⟩ => ?_
  exact behaves_expect_bind hclose nofun (behaves_pure (.pair (by rw [hk, hclose]; rfl) hw .nil))

theorem index_behaves {left : Node} (hk : s.current.kind = .openBracket) :
    Behaves v s (index below left) (index below' left) fun _ w _ => Passage w := by
  refine behaves_expect_bind hk nofun ?_
  refine (behaves_withStructLiterals (hb.expression .lowest _) fun _ _ _ _ h => h).bind
    fun i w t _ hw => ?_
  refine behaves_expectOr_bind nofun fun hclose => behaves_pure ?_
  exact .pair (by rw [hk, hclose]; rfl) hw.bracketed .nil

omit hb in
theorem member_behaves {left : Node} (hk : s.current.kind = .dot) :
    Behaves v s (member left) (member left) fun _ w _ => Passage w := by
  refine behaves_expect_bind hk nofun (behaves_expectOr_bind nofun fun hname => behaves_pure ?_)
  exact .plain (by rw [hk]; rfl) (.plain (by rw [hname]; rfl) .nil)

theorem fieldValue_behaves (s : State) :
    Behaves v s (fieldValue below) (fieldValue below') fun _ w _ => Passage w := by
  refine behaves_expectOr_bind nofun fun hname => behaves_expectOr_bind nofun fun hcolon => ?_
  refine (hb.expression .lowest _).bind fun e w t _ hw => behaves_pure ?_
  exact .plain (by rw [hname]; rfl) (.plain (by rw [hcolon]; rfl) (hw.bracketed.append .nil))

theorem structLiteral_behaves {left : Node} (hk : s.current.kind = .openCurly) :
    Behaves v s (structLiteral below left) (structLiteral below' left) fun _ w _ => Passage w := by
  unfold structLiteral
  split
  · refine behaves_expect_bind hk nofun ?_
    refine (behaves_withStructLiterals (behaves_separated (fieldValue_behaves hb)) fun _ _ _ _ h => h).bind
      fun fields w t _ ⟨hw, hclose⟩ => ?_
    exact behaves_expect_bind hclose nofun (behaves_pure (.pair (by rw [hk, hclose]; rfl) hw .nil))
  · exact behaves_unexpected

theorem operatorOf_behaves {left : Node} {power : Power} {form : OperatorForm}
    (hk : form.Starts s.current.kind) :
    Behaves v s (operatorOf below left power form) (operatorOf below' left power form) fun _ w _ =>
      Passage w := by
  cases form with
  | binary => exact binary_behaves hb hk
  | call => exact call_behaves hb hk
  | index => exact index_behaves hb hk
  | structLiteral => exact structLiteral_behaves hb hk
  | member => exact member_behaves hk

theorem tailTurn_behaves {power : Power} {p : Node × Nat} {w : List Token} (hw : Bracketed w) :
    Behaves v s (tailTurn below power p) (tailTurn below' power p)
      (Turned (fun _ w _ => Bracketed w) (fun _ w _ => Bracketed w) w) := by
  obtain ⟨operand, height⟩ := p
  have hdone : Behaves v s (pure (Turn.done (operand, height))) (pure (Turn.done (operand, height)))
      (Turned (fun _ w _ => Bracketed w) (fun _ w _ => Bracketed w) w) :=
    behaves_pure (hw.append .nil)
  refine behaves_kind_bind (behaves_get_bind (behaves_ite (fun _ => hdone) fun _ => ?_))
  refine behaves_read_bind ?_
  rw [v.standard]
  cases hform : Table.standard.operator s.current.kind with
  | none => exact hdone
  | some found =>
    obtain ⟨tighter, form⟩ := found
    refine behaves_ite (fun _ => hdone) fun _ => ?_
    refine (behaves_measured (operatorOf_behaves hb (starts_of_operator hform))
      fun _ _ _ _ h => h).bind ?_
    rintro ⟨folded, reached⟩ w' t - hw'
    refine behaves_reach.bind ?_
    rintro _ _ u - rfl
    have hpassage := Passage.append hw' .nil
    exact behaves_pure ⟨hpassage.ne_nil, hw.append hpassage.bracketed⟩

theorem tail_behaves {left : Node} {height : Nat} {power : Power} :
    Behaves v s (tail below left height power) (tail below' left height power) fun _ w _ =>
      Bracketed w := by
  refine Behaves.bind (behaves_loop (I := fun _ w _ => Bracketed w) (Q := fun _ w _ => Bracketed w)
    (fun p w t hw => tailTurn_behaves hb hw) .nil) ?_
  exact fun p w t _ hw => behaves_pure (hw.append .nil)

theorem expressionBody_behaves {power : Power} :
    Behaves v s (expressionBody below power) (expressionBody below' power) fun _ w _ => Passage w := by
  refine behaves_read_bind (behaves_kind_bind ?_)
  rw [v.standard]
  cases hform : Table.standard.operand s.current.kind with
  | none => exact behaves_unexpected
  | some form =>
    refine (behaves_measured (operandOf_behaves hb (starts_of_operand hform)) fun _ _ _ _ h => h).bind ?_
    rintro ⟨left, height⟩ w t - hw
    exact (tail_behaves hb).mono fun _ w' u _ hw' => Passage.append hw hw'

theorem moreExpressions_behaves :
    Behaves v s (moreExpressions below) (moreExpressions below') fun _ w _ => Bracketed w := by
  refine (behaves_many (I := fun _ => True) (D := fun _ => True) (fun t _ => ?_) trivial).mono
    fun _ _ _ _ h => h.1
  refine behaves_kind_bind (behaves_ite (fun hcomma => ?_) fun _ => behaves_pure ⟨.nil, trivial⟩)
  refine behaves_advance_bind (by rw [hcomma]; decide) ?_
  refine (hb.expression .lowest _).bind fun e w u _ hw => behaves_pure ⟨?_, trivial⟩
  exact .plain (by rw [hcomma]; rfl) (hw.bracketed.append .nil)

theorem expressionList_behaves :
    Behaves v s (expressionList below) (expressionList below') fun _ w _ => Passage w := by
  refine (hb.expression .lowest s).bind fun first w t _ hw => ?_
  exact (moreExpressions_behaves hb).bind fun more w' u _ hw' =>
    behaves_pure (hw.append (hw'.append .nil))

end Expressions

end MiniGo.Grammar
