import MiniGo.Proofs.Grammar.Tracking

/-! How two runs of the rules for types and for expressions stay side by side. None of these rules can
end at the seam in one run only. -/
namespace MiniGo.Grammar

variable {v : View} {below : Below} {lax : Bool} {s s' : State}

section Types

variable (hb : BelowTracks v below)
include hb

theorem typeList_tracks : Tracks v lax s s' (typeList below) (typeList below) (NoMore s) :=
  tracks_separated (by decide) hb.type

theorem resultType_tracks : Tracks v lax s s' (resultType below) (resultType below) (Fewer s) := by
  refine tracks_kind_bind (fun k hk => tracks_ite (fun hopen => ?_) fun _ => hb.type s s')
    fun hat => (hb.stuck .type).tracks hat.toLost
  refine tracks_advance_bind_of_ne (by rw [hk, hopen]; decide) fun _ hlt => ?_
  refine (typeList_tracks hb).bind fun elements t t' ht => ?_
  exact tracks_expectOr_bind (by decide) fun _ _ hclose => tracks_pure (by omega)

theorem resultType_stuck : Stuck v (resultType below) :=
  stuck_of_fewer true fun _ => resultType_tracks hb

omit hb in
theorem namedType_tracks : Tracks v lax s s' namedType namedType (Fewer s) := by
  refine tracks_expect_bind (by decide) fun _ halike hlt => ?_
  rw [halike.value]
  split
  · exact tracks_pure hlt
  · exact tracks_pure hlt

def sizedType (below : Below) : Rule Node := do
  let t ← advance
  match if t.kind = .number then arraySize? t.value else none with
  | none => failAt t.start (.invalidArraySize t.describe)
  | some size =>
    let _ ← expectOr .closeBracket "expected `]`"
    return .arrayType (← below .type) size

theorem sizedType_tracks : Tracks v lax s s' (sizedType below) (sizedType below) (Fewer s) := by
  refine tracks_advance_bind (fun halike hnext => ?_) fun heof => ?_
  · rw [halike.kind, halike.value]
    split
    · exact tracks_failAt fun _ _ => by rw [halike.describe]
    · rename_i size hsize
      have hk : s.current.kind ≠ .eof := by
        intro heof
        simp [heof] at hsize
      have hpassed := hnext hk
      refine tracks_expectOr_bind (by decide) fun _ _ hclose => ?_
      exact (hb.type _ _).bind fun _ _ _ h => tracks_pure (by omega)
  · rw [heof]
    exact fun _ _ _ _ => not_runs_failAt

theorem arrayType_tracks : Tracks v lax s s' (arrayType below) (arrayType below) (Fewer s) := by
  refine tracks_expect_bind (by decide) fun _ _ hlt => ?_
  have hstuck : Stuck v (sizedType below) := stuck_of_fewer true fun _ => sizedType_tracks hb
  refine tracks_kind_bind (fun k hk => tracks_ite (fun hclose => ?_) fun _ => ?_)
    fun hat => hstuck.tracks hat.toLost
  · refine tracks_advance_bind_of_ne (by rw [hk, hclose]; decide) fun _ hnext => ?_
    exact (hb.type _ _).bind fun _ _ _ h => tracks_pure (by omega)
  · exact (sizedType_tracks hb).mono fun _ _ h => Nat.lt_trans h hlt

theorem chanType_tracks : Tracks v lax s s' (chanType below) (chanType below) (Fewer s) := by
  refine tracks_expect_bind (by decide) fun _ _ hlt => ?_
  refine tracks_kind_bind (fun k hk => tracks_ite (fun harrow => ?_) fun _ => ?_)
    fun hat => (stuck_bind (hb.stuck .type)).tracks hat.toLost
  · refine tracks_advance_bind_of_ne (by rw [hk, harrow]; decide) fun _ hnext => ?_
    exact (hb.type _ _).bind fun _ _ _ h => tracks_pure (by omega)
  · exact (hb.type _ _).bind fun _ _ _ h => tracks_pure (by omega)

theorem receiveChanType_tracks :
    Tracks v lax s s' (receiveChanType below) (receiveChanType below) (Fewer s) := by
  refine tracks_expect_bind (by decide) fun _ _ harrow => ?_
  refine tracks_expectOr_bind (by decide) fun _ _ hchan => ?_
  exact (hb.type _ _).bind fun _ _ _ h => tracks_pure (by omega)

theorem functionType_tracks :
    Tracks v lax s s' (functionType below) (functionType below) (Fewer s) := by
  refine tracks_expect_bind (by decide) fun _ _ hfunc => ?_
  refine tracks_expectOr_bind (by decide) fun _ _ hopen => ?_
  refine (typeList_tracks hb).bind fun elements t t' ht => ?_
  refine tracks_expect_bind (by decide) fun _ _ hclose => ?_
  have hstarts : Tracks v lax t.next t'.next startsResultType startsResultType (NoMore t.next) := by
    refine tracks_kind_bind (fun k _ => tracks_read_bind (tracks_pure (Nat.le_refl _))) fun hat => ?_
    refine tracks_read_bind ?_
    rw [v.standard]
    exact tracks_pure (Nat.le_refl _)
  refine hstarts.bind fun starts u u' hu => tracks_ite (fun _ => ?_) fun _ => tracks_pure (by omega)
  exact (resultType_tracks hb).bind fun _ _ _ h => tracks_pure (by omega)

def Named (left : Nat) (found : List Node × List String) (n : Nat) : Prop :=
  n ≤ left ∧ (n = left → found = ([], []))

omit hb in
theorem nameEnd_tracks {found : List Node × List String} {left : Nat} (hlt : s.later.length < left) :
    Tracks v lax s s'
      (do
        if (← kind) = .comma then
          let _ ← advance
          return Turn.more found
        else return Turn.done found)
      (do
        if (← kind) = .comma then
          let _ ← advance
          return Turn.more found
        else return Turn.done found) fun _ n => n < left := by
  refine tracks_kind_bind (fun k hk => tracks_ite (fun hcomma => ?_) fun _ => tracks_pure hlt)
    fun _ => tracks_pure hlt
  refine tracks_advance_bind_of_ne (by rw [hk, hcomma]; decide) fun _ hnext => ?_
  exact tracks_pure (Nat.lt_trans hnext hlt)

theorem nameTurn_tracks {terminators : List TokenKind} {found : List Node × List String} {left : Nat}
    (hend : terminators.contains .eof = true → terminators.contains .semicolon = true)
    (hfound : Named left found s.later.length) :
    Tracks v lax s s' (nameTurn below terminators found) (nameTurn below terminators found)
      (Keeps (Named left) (Named left) s.later.length) := by
  obtain ⟨ids, pending⟩ := found
  have hkeeps : ∀ (x : Turn (List Node × List String)) n, n < s.later.length →
      Keeps (Named left) (Named left) s.later.length x n := by
    intro x n hn
    have hlt : n < left := Nat.lt_of_lt_of_le hn hfound.1
    have hnamed : ∀ found, Named left found n := fun _ => ⟨Nat.le_of_lt hlt, by omega⟩
    cases x with
    | more b => exact ⟨hn, hnamed b⟩
    | done b => exact hnamed b
  refine tracks_kind_bind (fun k _ => tracks_ite (fun _ => tracks_pure hfound) fun _ => ?_)
    fun hat => ?_
  · refine tracks_expectOr_bind (by decide) fun _ halike hlt => ?_
    rw [halike.value]
    refine tracks_kind_bind (fun k _ => tracks_ite (fun _ => ?_) fun _ => ?_) fun hat => ?_
    · refine (hb.type _ _).bind fun type t t' ht => ?_
      exact (nameEnd_tracks (Nat.lt_trans ht hlt)).mono hkeeps
    · exact (nameEnd_tracks hlt).mono hkeeps
    · by_cases hcontains : terminators.contains .eof = true
      · simp only [hcontains, hend hcontains]
        exact (nameEnd_tracks hlt).mono hkeeps
      · simp only [hcontains]
        exact (stuck_bind (hb.stuck .type)).tracks hat.toLost
  · by_cases hcontains : terminators.contains .eof = true
    · rw [if_pos hcontains, if_pos (hend hcontains)]
      exact tracks_pure hfound
    · rw [if_neg hcontains]
      exact (stuck_expectOr_bind (by decide)).tracks hat.toLost

theorem typedNames_tracks {terminators : List TokenKind} {list : NameList}
    (hend : terminators.contains .eof = true → terminators.contains .semicolon = true) :
    Tracks v lax s s' (typedNames below terminators list) (typedNames below terminators list)
      fun _ n => n ≤ s.later.length ∧ (list ≠ .parameters → n < s.later.length) := by
  have hloop : Tracks v lax s s' (loop ([], []) (nameTurn below terminators))
      (loop ([], []) (nameTurn below terminators)) (Named s.later.length) :=
    tracks_loop (fun found t t' => nameTurn_tracks hb hend) ⟨Nat.le_refl _, fun _ => rfl⟩
  refine hloop.bind ?_
  rintro ⟨ids, pending⟩ t t' ⟨hle, hnone⟩
  cases pending with
  | nil =>
    refine tracks_ite (fun _ => tracks_unexpected) fun hsome => tracks_pure ⟨hle, fun hlist => ?_⟩
    refine Nat.lt_of_le_of_ne hle fun heq => hsome ?_
    cases hnone heq
    simpa using hlist
  | cons untyped pending =>
    refine tracks_ite (fun _ => tracks_pure ⟨hle, fun _ => ?_⟩) fun _ => tracks_fail
    refine Nat.lt_of_le_of_ne hle fun heq => ?_
    cases hnone heq

theorem typedNames_fewer {terminators : List TokenKind} {list : NameList}
    (hend : terminators.contains .eof = true → terminators.contains .semicolon = true)
    (hlist : list ≠ .parameters) :
    Tracks v lax s s' (typedNames below terminators list) (typedNames below terminators list)
      (Fewer s) :=
  (typedNames_tracks hb hend).mono fun _ _ h => h.2 hlist

theorem structType_tracks : Tracks v lax s s' (structType below) (structType below) (Fewer s) := by
  refine tracks_expect_bind (by decide) fun _ _ hstruct => ?_
  refine tracks_expectOr_bind (by decide) fun _ _ hopen => ?_
  refine Tracks.bind_stuck (tracks_many fun t t' => ?_) (fun groups t t' ht => ?_)
    fun _ => stuck_expect_bind (by decide)
  · refine tracks_skipSemicolons.bind fun _ u u' hu => tracks_kind_bind_lax fun k u' _ => ?_
    refine tracks_ite (fun _ => tracks_pure ⟨hu, nofun⟩) fun _ => ?_
    refine (typedNames_fewer hb (by decide) (by decide)).bind fun fields w w' hw => ?_
    refine tracks_kind_bind_lax fun k w' _ => tracks_ite (fun _ => ?_) fun _ => ?_
    · exact tracks_pure ⟨by omega, fun _ => by omega⟩
    · refine tracks_expectOr_bind (by decide) fun _ _ hsemi => ?_
      exact tracks_pure ⟨by omega, fun _ => by omega⟩
  · exact tracks_expect_bind (by decide) fun _ _ hclose => tracks_pure (by omega)

theorem typeBody_tracks : Tracks v lax s s' (typeBody below) (typeBody below) (Fewer s) := by
  refine tracks_read_bind ?_
  rw [v.standard]
  refine tracks_kind_bind (fun k _ => ?_) fun hat => ?_
  · cases Table.standard.type k with
    | none => exact tracks_unexpected
    | some form =>
      cases form with
      | named => exact namedType_tracks
      | array => exact arrayType_tracks hb
      | chan => exact chanType_tracks hb
      | receiveChan => exact receiveChanType_tracks hb
      | function => exact functionType_tracks hb
      | struct => exact structType_tracks hb
  · exact Stuck.tracks (fun _ _ _ _ => not_runs_unexpected) hat.toLost

end Types

section Expressions

variable (hb : BelowTracks v below)
include hb

theorem block_tracks : Tracks v lax s s' (block below) (block below) (Fewer s) := by
  refine tracks_expectOr_bind (by decide) fun _ _ hopen => ?_
  refine Tracks.bind_stuck (tracks_withStructLiterals (tracks_many fun t t' => ?_))
    (fun body t t' ht => ?_) fun _ => stuck_expect_bind (by decide)
  · refine tracks_skipSemicolons.bind fun _ u u' hu => tracks_kind_bind_lax fun k u' _ => ?_
    split
    · exact tracks_pure ⟨hu, nofun⟩
    · exact tracks_unexpected
    · refine (hb.statement _ _).bind fun n w w' hw => ?_
      exact tracks_pure ⟨by omega, fun _ => by omega⟩
  · have ht : t.later.length ≤ s.next.later.length := ht
    exact tracks_expect_bind (by decide) fun _ _ hclose => tracks_pure (by omega)

theorem block_stuck : Stuck v (block below) := stuck_of_fewer true fun _ => block_tracks hb

theorem functionRest_tracks {name : Option Node} :
    Tracks v lax s s' (functionRest below name) (functionRest below name) (Fewer s) := by
  refine tracks_expectOr_bind (by decide) fun _ _ hopen => ?_
  refine (typedNames_tracks hb (by decide)).bind fun formals t t' ht => ?_
  refine tracks_expectOr_bind (by decide) fun _ _ hclose => ?_
  have hrest : ∀ result u u', u.later.length ≤ t.next.later.length → Tracks v lax u u'
      (do return Node.function name formals result (← block below))
      (do return Node.function name formals result (← block below)) (Fewer s) := by
    intro result u u' hu
    refine (block_tracks hb).bind fun body w w' hw => tracks_pure ?_
    have := ht.1
    omega
  refine tracks_kind_bind (fun k _ => tracks_ite (fun _ => hrest _ _ _ (Nat.le_refl _)) fun _ => ?_)
    fun hat => ?_
  · refine Tracks.bind (P := Fewer t.next) (Tracks.map (resultType_tracks hb)) fun result u u' hu => ?_
    exact hrest _ _ _ (Nat.le_of_lt hu)
  · exact (stuck_bind (stuck_bind (resultType_stuck hb))).tracks hat.toLost

omit hb in
theorem primary_tracks (hk : s.current.kind ≠ .eof) : Tracks v lax s s' primary primary (Fewer s) := by
  refine tracks_advance_bind_of_ne hk fun halike hlt => ?_
  rw [halike.kind, halike.value]
  split
  · split
    · exact tracks_pure hlt
    · exact tracks_failAt fun _ _ => rfl
  · exact tracks_pure hlt
  · exact tracks_pure hlt
  · exact tracks_pure hlt
  · exact tracks_failAt fun _ _ => by rw [halike.describe]

theorem grouping_tracks : Tracks v lax s s' (grouping below) (grouping below) (Fewer s) := by
  refine tracks_expect_bind (by decide) fun _ _ hopen => ?_
  refine (tracks_withStructLiterals (hb.expression .lowest _ _)).bind fun e t t' ht => ?_
  have ht : t.later.length < s.next.later.length := ht
  exact tracks_expectOr_bind (by decide) fun _ _ hclose => tracks_pure (by omega)

theorem functionLiteral_tracks :
    Tracks v lax s s' (functionLiteral below) (functionLiteral below) (Fewer s) := by
  refine tracks_expect_bind (by decide) fun _ _ hfunc => ?_
  exact (functionRest_tracks hb).mono fun _ _ h => Nat.lt_trans h hfunc

theorem operandOf_tracks {form : OperandForm} (hk : s.current.kind ≠ .eof) :
    Tracks v lax s s' (operandOf below form) (operandOf below form) (Fewer s) := by
  cases form with
  | primary => exact primary_tracks hk
  | unary =>
    refine tracks_advance_bind_of_ne hk fun halike hlt => ?_
    rw [halike.value]
    exact (hb.expression .unary _ _).bind fun _ _ _ h => tracks_pure (by omega)
  | receive =>
    refine tracks_expect_bind (by decide) fun _ _ hlt => ?_
    exact (hb.expression .unary _ _).bind fun _ _ _ h => tracks_pure (by omega)
  | grouping => exact grouping_tracks hb
  | function => exact functionLiteral_tracks hb

theorem call_tracks {left : Node} : Tracks v lax s s' (call below left) (call below left) (Fewer s) := by
  refine tracks_expect_bind (by decide) fun _ _ hopen => ?_
  refine (tracks_withStructLiterals (tracks_separated (by decide) (hb.expression .lowest))).bind
    fun operands t t' ht => ?_
  have ht : t.later.length ≤ s.next.later.length := ht
  exact tracks_expect_bind (by decide) fun _ _ hclose => tracks_pure (by omega)

theorem index_tracks {left : Node} :
    Tracks v lax s s' (index below left) (index below left) (Fewer s) := by
  refine tracks_expect_bind (by decide) fun _ _ hopen => ?_
  refine (tracks_withStructLiterals (hb.expression .lowest _ _)).bind fun i t t' ht => ?_
  have ht : t.later.length < s.next.later.length := ht
  exact tracks_expectOr_bind (by decide) fun _ _ hclose => tracks_pure (by omega)

omit hb in
theorem member_tracks {left : Node} : Tracks v lax s s' (member left) (member left) (Fewer s) := by
  refine tracks_expect_bind (by decide) fun _ _ hdot => ?_
  refine tracks_expectOr_bind (by decide) fun _ halike hname => ?_
  rw [halike.value]
  exact tracks_pure (Nat.lt_trans hname hdot)

theorem fieldValue_tracks (s s' : State) :
    Tracks v lax s s' (fieldValue below) (fieldValue below) (Fewer s) := by
  refine tracks_expectOr_bind (by decide) fun _ halike hname => ?_
  rw [halike.value]
  refine tracks_expectOr_bind (by decide) fun _ _ hcolon => ?_
  exact (hb.expression .lowest _ _).bind fun _ _ _ h => tracks_pure (by omega)

theorem structLiteral_tracks {left : Node} :
    Tracks v lax s s' (structLiteral below left) (structLiteral below left) (Fewer s) := by
  unfold structLiteral
  split
  · refine tracks_expect_bind (by decide) fun _ _ hopen => ?_
    refine (tracks_withStructLiterals (tracks_separated (by decide) (fieldValue_tracks hb))).bind
      fun fields t t' ht => ?_
    have ht : t.later.length ≤ s.next.later.length := ht
    exact tracks_expect_bind (by decide) fun _ _ hclose => tracks_pure (by omega)
  · exact tracks_unexpected

theorem operatorOf_tracks {left : Node} {power : Power} {form : OperatorForm}
    (hk : s.current.kind ≠ .eof) :
    Tracks v lax s s' (operatorOf below left power form) (operatorOf below left power form)
      (Fewer s) := by
  cases form with
  | binary =>
    refine tracks_advance_bind_of_ne hk fun halike hlt => ?_
    rw [halike.value]
    exact (hb.expression power _ _).bind fun _ _ _ h => tracks_pure (by omega)
  | call => exact call_tracks hb
  | index => exact index_tracks hb
  | structLiteral => exact structLiteral_tracks hb
  | member => exact member_tracks

theorem tailTurn_tracks {power : Power} {p : Node × Nat} {left : Nat} (hp : s.later.length ≤ left) :
    Tracks v lax s s' (tailTurn below power p) (tailTurn below power p)
      (Keeps (fun _ n => n ≤ left) (fun _ n => n ≤ left) s.later.length) := by
  obtain ⟨operand, height⟩ := p
  refine tracks_kind_bind (fun k hk => ?_) fun hat => ?_
  · refine tracks_flag_bind
      (fun flag => if k = .openCurly && !(flag && isIdentifier operand) then _ else _)
      (fun flag => if k = .openCurly && !(flag && isIdentifier operand) then _ else _) ?_
    refine tracks_ite (fun _ => tracks_pure hp) fun _ => tracks_read_bind ?_
    rw [v.standard]
    cases hform : Table.standard.operator k with
    | none => exact tracks_pure hp
    | some found =>
      obtain ⟨tighter, form⟩ := found
      have hne : s.current.kind ≠ .eof := by
        rw [hk]
        rintro rfl
        cases hform
      refine tracks_ite (fun _ => tracks_pure hp) fun _ => ?_
      refine (tracks_measured (operatorOf_tracks (hb.above 0) hne)).bind ?_
      rintro ⟨folded, reached⟩ t t' ht
      have ht : t.later.length < s.later.length := ht
      refine tracks_reach.bind fun _ u u' hu => tracks_pure ?_
      exact ⟨Nat.lt_of_le_of_lt hu ht, by omega⟩
  · simp only [reduceCtorEq, decide_false, Bool.false_and, Bool.false_eq_true, if_false]
    refine tracks_flag_bind (fun _ => _) (fun _ => _) (tracks_read_bind ?_)
    rw [v.standard]
    exact tracks_pure hp

theorem tail_tracks {left : Node} {height : Nat} {power : Power} :
    Tracks v lax s s' (tail below left height power) (tail below left height power) (NoMore s) := by
  refine Tracks.bind (P := NoMore s) (tracks_loop (I := NoMore s) ?_ (Nat.le_refl _))
    fun _ _ _ h => tracks_pure h
  intro p t t' ht
  exact tailTurn_tracks hb ht

theorem expressionBody_tracks {power : Power} :
    Tracks v lax s s' (expressionBody below power) (expressionBody below power) (Fewer s) := by
  refine tracks_read_bind ?_
  rw [v.standard]
  refine tracks_kind_bind (fun k hk => ?_) fun hat => ?_
  · cases hform : Table.standard.operand k with
    | none => exact tracks_unexpected
    | some form =>
      have hne : s.current.kind ≠ .eof := by
        rw [hk]
        rintro rfl
        cases hform
      refine (tracks_measured (operandOf_tracks (hb.above 0) hne)).bind ?_
      rintro ⟨left, height⟩ t t' ht
      exact (tail_tracks hb).mono fun _ _ h => Nat.lt_of_le_of_lt h ht
  · exact Stuck.tracks (fun _ _ _ _ => not_runs_unexpected) hat.toLost

theorem moreExpressions_tracks :
    Tracks v lax s s' (moreExpressions below) (moreExpressions below) (NoMore s) := by
  have hnone : ∀ t t', Tracks v lax t t' (pure none) (pure none)
      (Progress (α := Node) t.later.length) := fun _ _ => tracks_pure ⟨Nat.le_refl _, nofun⟩
  refine tracks_many fun t t' => tracks_kind_bind
    (fun k hk => tracks_ite (fun hcomma => ?_) fun _ => hnone t t') fun _ => hnone t t'
  refine tracks_advance_bind_of_ne (by rw [hk, hcomma]; decide) fun _ hlt => ?_
  refine (hb.expression .lowest _ _).bind fun _ _ _ h => tracks_pure ?_
  exact ⟨Nat.le_of_lt (Nat.lt_trans h hlt), fun _ => Nat.lt_trans h hlt⟩

theorem expressionList_tracks :
    Tracks v lax s s' (expressionList below) (expressionList below) (Fewer s) := by
  refine (hb.expression .lowest s s').bind fun first t t' ht => ?_
  refine (moreExpressions_tracks hb).bind fun more u u' hu => tracks_pure ?_
  exact Nat.lt_of_le_of_lt hu ht

theorem expressionList_stuck : Stuck v (expressionList below) :=
  stuck_of_fewer true fun _ => expressionList_tracks hb

end Expressions

end MiniGo.Grammar
