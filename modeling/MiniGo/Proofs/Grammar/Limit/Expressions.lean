import MiniGo.Proofs.Grammar.Limit

/-!
Types and expressions settle. Every rule gets one lemma: if the rules one level down settle where their
cost is paid, it settles with a tree that is worth the levels it has reached.
-/
namespace MiniGo.Grammar

variable {c : Terms} {depth : Nat} (hb : GoalsSettle c depth) {s : State}

section Types
include hb

theorem GoalsSettle.type (hs : s.Affords c depth 1) :
    Settles c (fun below => below .type) s fun n t => Parsed c.spelled t.reached .type n :=
  (hb .type s hs).mono fun _ _ _ h => h.1

theorem typeList_settles (hs : s.Affords c depth 1) :
    Settles c typeList s fun ns t => ∀ n ∈ ns, Parsed c.spelled t.reached .type n :=
  settles_separated (fun _ _ _ => Parsed.leads) fun _ hst => hb.type (hs.leads hst)

theorem resultType_settles (hs : s.Affords c depth 1) :
    Settles c resultType s fun n t => Parsed c.spelled (t.reached + 1) .result n := by
  refine settles_kind_bind (settles_ite (fun _ => ?_) fun _ => ?_)
  · refine settles_advance_bind fun t hst _ => ?_
    refine (typeList_settles hb (hs.leads hst)).bind fun elements u _ helements => ?_
    refine settles_expectOr_bind nofun fun _ v huv => settles_pure (.resultTypes ?_)
    exact fun n hn => (helements n hn).leads huv.toLeads
  · exact (hb.type hs).mono fun _ _ _ h => .resultType h

omit hb in
theorem namedType_settles :
    Settles c (fun _ => namedType) s fun n t => Meets c .type s.current.kind (t.reached + 1) n := by
  refine settles_expect_bind nofun fun _ t _ => ?_
  split
  · exact settles_pure ⟨.basicType, nofun⟩
  · rename_i hname
    exact settles_pure ⟨.customType hname, nofun⟩

theorem arrayType_settles (hs : s.Affords c depth 0) :
    Settles c arrayType s fun n t => Meets c .type s.current.kind (t.reached + 1) n := by
  refine settles_expect_bind nofun fun _ t hst => ?_
  have ht := hs.consumes hst
  refine settles_kind_bind (settles_ite (fun _ => ?_) fun _ => ?_)
  · refine settles_advance_bind fun u htu _ => ?_
    exact (hb.type (ht.leads htu)).bind fun _ _ _ h => settles_pure ⟨.sliceType h, nofun⟩
  · refine settles_advance_bind fun u htu _ => ?_
    cases if t.current.kind = .number then arraySize? t.current.value else none with
    | none => exact settles_failAt nofun
    | some size =>
      refine settles_expectOr_bind nofun fun _ v huv => ?_
      refine (hb.type ((ht.leads htu).leads huv.toLeads)).bind fun _ _ _ h => ?_
      exact settles_pure ⟨.arrayType h, nofun⟩

theorem chanType_settles (hs : s.Affords c depth 0) :
    Settles c chanType s fun n t => Meets c .type s.current.kind (t.reached + 1) n := by
  refine settles_expect_bind nofun fun _ t hst => ?_
  have ht := hs.consumes hst
  refine settles_kind_bind (settles_ite (fun _ => ?_) fun harrow => ?_)
  · refine settles_advance_bind fun u htu _ => ?_
    refine (hb.type (ht.leads htu)).bind fun _ _ _ h => ?_
    exact settles_pure ⟨.chanType h nofun, nofun⟩
  · refine (hb .type t ht).bind fun element u _ h => ?_
    exact settles_pure ⟨.chanType h.1 fun _ e he => harrow (h.2 rfl e he), nofun⟩

theorem receiveChanType_settles (hs : s.Affords c depth 0) :
    Settles c receiveChanType s fun n t => Meets c .type s.current.kind (t.reached + 1) n := by
  refine settles_expect_bind nofun fun harrow t hst => settles_expectOr_bind nofun fun _ u htu => ?_
  refine (hb.type ((hs.consumes hst).leads htu.toLeads)).bind fun _ _ _ h => ?_
  exact settles_pure ⟨.chanType h nofun, fun _ _ _ => harrow⟩

theorem functionType_settles (hs : s.Affords c depth 0) :
    Settles c functionType s fun n t => Meets c .type s.current.kind (t.reached + 1) n := by
  refine settles_expect_bind nofun fun _ t hst => settles_expectOr_bind nofun fun _ u htu => ?_
  have hu := (hs.consumes hst).leads htu.toLeads
  refine (typeList_settles hb hu).bind fun elements v huv helements => ?_
  refine settles_expect_bind nofun fun _ w hvw => ?_
  have hstarts : Settles c (fun _ => startsResultType) w fun _ _ => True :=
    settles_kind_bind (settles_read_bind (fun _ => rfl) (settles_pure trivial))
  refine hstarts.bind fun starts x hwx _ => ?_
  have hvx := hvw.toLeads.trans hwx
  refine settles_ite (fun _ => ?_) fun _ => ?_
  · refine (resultType_settles hb ((hu.leads huv).leads hvx)).bind fun result y hxy hresult => ?_
    refine settles_pure ⟨.functionType (fun n hn => ?_) hresult, nofun⟩
    exact (helements n hn).leads (hvx.trans hxy)
  · exact settles_pure ⟨.procedureType fun n hn => (helements n hn).leads hvx, nofun⟩

def NamesParsed (c : Terms) (depth : Nat) (found : List Node × List String) (t : State) : Prop :=
  t.Affords c depth 1 ∧ ∀ n ∈ found.1, Parsed c.spelled (t.reached + 1) .typedName n

theorem nameTurn_settles {terminators : List TokenKind} {found : List Node × List String}
    (h : NamesParsed c depth found s) :
    Settles c (fun below => nameTurn below terminators found) s fun x t =>
      NamesParsed c depth x.value t := by
  obtain ⟨ids, pending⟩ := found
  obtain ⟨hs, hids⟩ := h
  refine settles_kind_bind (settles_ite (fun _ => settles_pure ⟨hs, hids⟩) fun _ => ?_)
  refine settles_expectOr_bind nofun fun _ t hst => settles_kind_bind ?_
  have hrest : ∀ found u, NamesParsed c depth found u → Settles c (fun _ => do
        if (← kind) = .comma then
          let _ ← advance
          return Turn.more found
        else return Turn.done found) u fun x v => NamesParsed c depth x.value v := by
    intro found u hfound
    refine settles_kind_bind (settles_ite (fun _ => ?_) fun _ => settles_pure hfound)
    refine settles_advance_bind fun v huv _ => settles_pure ⟨hfound.1.leads huv, ?_⟩
    exact fun n hn => (hfound.2 n hn).leads_succ huv
  have ht := hs.leads hst.toLeads
  refine settles_ite (fun _ => ?_) fun _ => ?_
  · refine (hb.type ht).bind fun type u htu htype => ?_
    refine (settles_pure (Q := NamesParsed c depth) ⟨ht.leads htu, ?_⟩).bind fun _ _ _ => hrest _ _
    refine List.forall_mem_append.2 ⟨?_, List.forall_mem_map.2 fun _ _ => .typed htype⟩
    exact fun n hn => (hids n hn).leads_succ (hst.toLeads.trans htu)
  · refine (settles_pure (Q := NamesParsed c depth) ⟨ht, ?_⟩).bind fun _ _ _ => hrest _ _
    exact fun n hn => (hids n hn).leads_succ hst.toLeads

def NameList.phrase : NameList → Phrase
  | .declaration => .name
  | .parameters | .structFields => .typedName

omit hb in
theorem Parsed.phrase_of_typedName {spelled : Prop} {r : Nat} {list : NameList} {n : Node}
    (h : Parsed spelled r .typedName n) : Parsed spelled r list.phrase n := by
  cases list with
  | declaration => exact .typedName h
  | parameters | structFields => exact h

theorem typedNames_settles {terminators : List TokenKind} {list : NameList}
    (hs : s.Affords c depth 1) :
    Settles c (fun below => typedNames below terminators list) s fun ns t =>
      (∀ n ∈ ns, Parsed c.spelled (t.reached + 1) list.phrase n) ∧
        (list ≠ .parameters → ns ≠ []) := by
  have hloop : Settles c (fun below => loop ([], []) (nameTurn below terminators)) s
      (NamesParsed c depth) :=
    settles_loop (fun found below => nameTurn below terminators found)
      ⟨hs, List.forall_mem_nil _⟩ fun _ _ => nameTurn_settles hb
  refine hloop.bind ?_
  rintro ⟨ids, pending⟩ t _ ⟨-, hids⟩
  cases pending with
  | nil =>
    refine settles_ite (fun _ => settles_unexpected) fun hempty => settles_pure ⟨?_, ?_⟩
    · exact fun n hn => (hids n hn).phrase_of_typedName
    · intro hlist hnil
      exact hempty (by simp [hnil, hlist])
  | cons untyped pending =>
    refine settles_ite (fun hlist => settles_pure ⟨?_, ?_⟩) fun _ => settles_fail nofun
    · subst hlist
      refine List.forall_mem_append.2 ⟨fun n hn => .typedName (hids n hn), ?_⟩
      exact List.forall_mem_map.2 fun _ _ => .name
    · simp

theorem structType_settles (hs : s.Affords c depth 0) :
    Settles c structType s fun n t => Meets c .type s.current.kind (t.reached + 1) n := by
  refine settles_expect_bind nofun fun _ t hst => settles_expectOr_bind nofun fun _ u htu => ?_
  have hu := (hs.consumes hst).leads htu.toLeads
  have hgroups : Settles c (fun below => many do
        skipSemicolons
        if (← kind) = .closeCurly then return none
        else
          let fields ← typedNames below [.semicolon, .closeCurly] .structFields
          if (← kind) = .closeCurly then return some fields
          else
            let _ ← expectOr .semicolon "expected `;` or newline"
            return some fields) u
      fun groups v => ∀ group ∈ groups, ∀ n ∈ group, Parsed c.spelled (v.reached + 1) .typedName n := by
    refine settles_many (fun _ _ _ h hvw n hn => (h n hn).leads_succ hvw) fun v huv => ?_
    refine settles_skipSemicolons.bind fun _ w hvw _ => ?_
    refine settles_kind_bind (settles_ite (fun _ => settles_pure nofun) fun _ => ?_)
    refine (typedNames_settles hb ((hu.leads huv).leads hvw)).bind fun fields x _ hfields => ?_
    refine settles_kind_bind
      (settles_ite (fun _ => settles_pure (forall_mem_some hfields.1)) fun _ => ?_)
    refine settles_expectOr_bind nofun fun _ y hxy => settles_pure (forall_mem_some ?_)
    exact fun n hn => (hfields.1 n hn).leads_succ hxy.toLeads
  refine hgroups.bind fun groups v _ hgroups => settles_expect_bind nofun fun _ w hvw => ?_
  refine settles_pure ⟨.structType fun n hn => ?_, nofun⟩
  obtain ⟨group, hgroup, hn⟩ := List.mem_flatten.1 hn
  exact (hgroups group hgroup n hn).leads_succ hvw.toLeads

theorem typeBody_settles (hs : s.Affords c depth 0) :
    Settles c typeBody s fun n t => Meets c .type s.current.kind (t.reached + 1) n := by
  refine settles_read_bind (fun _ => rfl) (settles_kind_bind ?_)
  cases Table.standard.type s.current.kind with
  | none => exact settles_unexpected
  | some form =>
    cases form with
    | named => exact namedType_settles
    | array => exact arrayType_settles hb hs
    | chan => exact chanType_settles hb hs
    | receiveChan => exact receiveChanType_settles hb hs
    | function => exact functionType_settles hb hs
    | struct => exact structType_settles hb hs

end Types

section Expressions
include hb

theorem GoalsSettle.expression {power : Power} (hs : s.Affords c depth 1) :
    Settles c (fun below => below (.expression power)) s fun n t =>
      Parsed c.spelled t.reached .expression n :=
  (hb (.expression power) s hs).mono fun _ _ _ h => h.1

theorem GoalsSettle.statement (hs : s.Affords c depth 2) :
    Settles c (fun below => below .statement) s fun n t => Parsed c.spelled t.reached .statement n :=
  (hb .statement s hs).mono fun _ _ _ h => h.1

theorem block_settles (hs : s.Affords c depth 1) :
    Settles c block s fun ns t => ∀ n ∈ ns, Parsed c.spelled t.reached .statement n := by
  refine settles_expectOr_bind nofun fun _ t hst => ?_
  have ht := hs.consumes hst
  refine (settles_withStructLiterals (Q := fun ns t => ∀ n ∈ ns,
    Parsed c.spelled t.reached .statement n) (fun u htu => ?_) fun _ _ _ h => h).bind
      fun body v _ hbody => ?_
  · refine settles_many (fun _ _ _ => Parsed.leads) fun v huv => ?_
    refine settles_skipSemicolons.bind fun _ w hvw _ => settles_kind_bind ?_
    have hw := ((ht.leads htu).leads huv).leads hvw
    generalize w.current.kind = k
    cases k with
    | closeCurly => exact settles_pure nofun
    | eof => exact settles_unexpected
    | _ => exact (hb.statement hw).bind fun _ _ _ h => settles_pure (forall_mem_some h)
  · refine settles_expect_bind nofun fun _ w hvw => settles_pure fun n hn => ?_
    exact (hbody n hn).leads hvw.toLeads

def FunctionParsed (c : Terms) (name : Option Node) (n : Node) (t : State) : Prop :=
  ∃ formals result body, n = .function name formals result body ∧
    Parsed c.spelled (t.reached + 1) .expression (.function none formals result body)

theorem functionRest_settles {name : Option Node} (hs : s.Affords c depth 1) :
    Settles c (fun below => functionRest below name) s (FunctionParsed c name) := by
  refine settles_expectOr_bind nofun fun _ t hst => ?_
  have ht := hs.leads hst.toLeads
  refine (typedNames_settles hb ht).bind fun formals u htu hformals => ?_
  refine settles_expectOr_bind nofun fun _ v huv => settles_kind_bind ?_
  have hv := (ht.leads htu).leads huv.toLeads
  have hbody : ∀ result w, v.Leads w → (∀ n ∈ result, Parsed c.spelled (w.reached + 1) .result n) →
      Settles c (fun below => do return Node.function name formals result (← block below)) w
        (FunctionParsed c name) := by
    intro result w hvw hresult
    refine (block_settles hb (hv.leads hvw)).bind fun body x hwx hbody => settles_pure ?_
    refine ⟨formals, result, body, rfl, .function ?_ ?_ hbody⟩
    · exact fun n hn => (hformals.1 n hn).leads_succ ((huv.toLeads.trans hvw).trans hwx)
    · exact fun n hn => (hresult n hn).leads_succ hwx
  refine settles_ite (fun _ => ?_) fun _ => ?_
  · exact hbody none v (.refl v) nofun
  · have hresult : Settles c (fun below => some <$> resultType below) v fun result w =>
        ∀ n ∈ result, Parsed c.spelled (w.reached + 1) .result n :=
      ((resultType_settles hb hv).mono fun _ _ _ h => forall_mem_some h).map
    exact hresult.bind hbody

omit hb in
theorem primary_settles :
    Settles c (fun _ => primary) s fun n t => Parsed c.spelled (t.reached + 1) .expression n := by
  refine settles_advance_bind fun t _ _ => ?_
  split
  · split
    · rename_i h
      exact settles_pure (.number h)
    · exact settles_failAt nofun
  · exact settles_pure .string
  · exact settles_pure .bool
  · exact settles_pure .identifier
  · exact settles_failAt nofun

omit hb in
private theorem operand_ne_eof {k : TokenKind} {form : OperandForm}
    (h : Table.standard.operand k = some form) : k ≠ .eof := by
  rintro rfl
  cases h

theorem unary_settles (hk : Table.standard.operand s.current.kind = some .unary)
    (hs : s.Affords c depth 0) :
    Settles c unary s fun n t => Parsed c.spelled (t.reached + 1) .expression n := by
  refine settles_of_sound fun hsound => settles_advance_bind fun t _ hst => ?_
  refine (hb.expression (hs.consumes (hst (operand_ne_eof hk)))).bind fun _ _ _ h => ?_
  exact settles_pure (.unary (fun hspelled => (hsound.spelled hspelled).current.unary hk) h)

theorem receive_settles (hs : s.Affords c depth 0) :
    Settles c receive s fun n t => Parsed c.spelled (t.reached + 1) .expression n := by
  refine settles_expect_bind nofun fun _ t hst => ?_
  exact (hb.expression (hs.consumes hst)).bind fun _ _ _ h => settles_pure (.receive h)

theorem bracketed_settles {power : Power} (hs : s.Affords c depth 1) :
    Settles c (fun below => withStructLiterals true (below (.expression power))) s fun n t =>
      Parsed c.spelled t.reached .expression n :=
  settles_withStructLiterals (fun _ hst => hb.expression (hs.leads hst)) fun _ _ _ h => h

theorem grouping_settles (hs : s.Affords c depth 0) :
    Settles c grouping s fun n t => Parsed c.spelled (t.reached + 1) .expression n := by
  refine settles_expect_bind nofun fun _ t hst => ?_
  refine (bracketed_settles hb (hs.consumes hst)).bind fun e u _ he => ?_
  refine settles_expectOr_bind nofun fun _ v huv => settles_pure ?_
  exact he.succ.leads_succ huv.toLeads

theorem functionLiteral_settles (hs : s.Affords c depth 0) :
    Settles c functionLiteral s (FunctionParsed c none) :=
  settles_expect_bind nofun fun _ _ hst => functionRest_settles hb (hs.consumes hst)

theorem operandOf_settles {form : OperandForm}
    (hk : Table.standard.operand s.current.kind = some form) (hs : s.Affords c depth 0) :
    Settles c (fun below => operandOf below form) s fun n t =>
      Parsed c.spelled (t.reached + 1) .expression n := by
  cases form with
  | primary => exact primary_settles
  | unary => exact unary_settles hb hk hs
  | receive => exact receive_settles hb hs
  | grouping => exact grouping_settles hb hs
  | function =>
    refine (functionLiteral_settles hb hs).mono ?_
    rintro _ _ _ ⟨formals, result, body, rfl, h⟩
    exact h

/-- An operator puts one level on its left side and on what it has read behind it. -/
def Folds (c : Terms) (s : State) (r : Nat) (n : Node) (t : State) : Prop :=
  Parsed c.spelled (max t.reached r + 1) .expression n ∧ t.later.length < s.later.length

section Operators

variable {left : Node} {r : Nat} (hleft : Parsed c.spelled r .expression left)

include hleft

theorem binary_settles {power : Power}
    (hk : (Table.standard.operator s.current.kind).map Prod.snd = some .binary)
    (hs : s.Affords c depth 0) :
    Settles c (fun below => binary below left power) s (Folds c s r) := by
  have hne : s.current.kind ≠ .eof := by
    intro heq
    rw [heq] at hk
    cases hk
  refine settles_of_sound fun hsound => settles_advance_bind fun t _ hst => ?_
  refine (hb.expression (hs.consumes (hst hne))).bind fun right u htu h => ?_
  refine settles_pure ⟨.binary ?_ ?_ ?_, ((hst hne).trans htu).lt⟩
  · exact fun hspelled => (hsound.spelled hspelled).current.binary hk
  · exact hleft.mono (Nat.le_max_right _ _)
  · exact h.mono (Nat.le_max_left _ _)

theorem call_settles (hs : s.Affords c depth 0) :
    Settles c (fun below => call below left) s (Folds c s r) := by
  refine settles_expect_bind nofun fun _ t hst => ?_
  have ht := hs.consumes hst
  refine (settles_withStructLiterals (Q := fun ns t => ∀ n ∈ ns,
    Parsed c.spelled t.reached .expression n) (fun u htu => ?_) fun _ _ _ h => h).bind
      fun operands u htu h => ?_
  · refine settles_separated (fun _ _ _ => Parsed.leads) fun v huv => ?_
    exact hb.expression ((ht.leads htu).leads huv)
  · refine settles_expect_bind nofun fun _ v huv => settles_pure ⟨.application ?_ ?_, ?_⟩
    · exact hleft.mono (Nat.le_max_right _ _)
    · exact fun n hn => ((h n hn).leads huv.toLeads).mono (Nat.le_max_left _ _)
    · exact (hst.trans (htu.trans huv.toLeads)).lt

theorem index_settles (hs : s.Affords c depth 0) :
    Settles c (fun below => index below left) s (Folds c s r) := by
  refine settles_expect_bind nofun fun _ t hst => ?_
  refine (bracketed_settles hb (hs.consumes hst)).bind fun i u htu h => ?_
  refine settles_expectOr_bind nofun fun _ v huv => settles_pure ⟨.index ?_ ?_, ?_⟩
  · exact hleft.mono (Nat.le_max_right _ _)
  · exact (h.leads huv.toLeads).mono (Nat.le_max_left _ _)
  · exact (hst.trans (htu.trans huv.toLeads)).lt

omit hb in
theorem member_settles : Settles c (fun _ => member left) s (Folds c s r) := by
  refine settles_expect_bind nofun fun _ t hst => settles_expectOr_bind nofun fun _ u htu => ?_
  refine settles_pure ⟨.member ?_, (hst.trans htu.toLeads).lt⟩
  exact hleft.mono (Nat.le_max_right _ _)

omit hleft

theorem fieldValue_settles (hs : s.Affords c depth 0) :
    Settles c fieldValue s fun n t => Parsed c.spelled (t.reached + 1) .fieldValue n := by
  refine settles_expectOr_bind nofun fun _ t hst => settles_expectOr_bind nofun fun _ u htu => ?_
  refine (hb.expression ((hs.consumes hst).leads htu.toLeads)).bind fun _ _ _ h => ?_
  exact settles_pure (.fieldValue h)

theorem structLiteral_settles (hs : s.Affords c depth 0) :
    Settles c (fun below => structLiteral below left) s (Folds c s r) := by
  unfold structLiteral
  cases left with
  | identifier name type =>
    refine settles_expect_bind nofun fun _ t hst => ?_
    have ht := hs.leads hst.toLeads
    refine (settles_withStructLiterals (Q := fun ns t => ∀ n ∈ ns,
      Parsed c.spelled (t.reached + 1) .fieldValue n) (fun u htu => ?_) fun _ _ _ h => h).bind
        fun fields u htu h => ?_
    · refine settles_separated (fun _ _ _ => Parsed.leads_succ) fun v huv => ?_
      exact fieldValue_settles hb ((ht.leads htu).leads huv)
    · refine settles_expect_bind nofun fun _ v huv => settles_pure ⟨.structLiteral ?_, ?_⟩
      · intro n hn
        exact ((h n hn).leads_succ huv.toLeads).mono (Nat.succ_le_succ (Nat.le_max_left _ _))
      · exact (hst.trans (htu.trans huv.toLeads)).lt
  | _ => exact settles_unexpected

include hleft

theorem operatorOf_settles {power : Power} {form : OperatorForm}
    (hk : (Table.standard.operator s.current.kind).map Prod.snd = some form)
    (hs : s.Affords c depth 0) :
    Settles c (fun below => operatorOf below left power form) s (Folds c s r) := by
  cases form with
  | binary => exact binary_settles hb hleft hk hs
  | call => exact call_settles hb hleft hs
  | index => exact index_settles hb hleft hs
  | structLiteral => exact structLiteral_settles hb hs
  | member => exact member_settles hleft

end Operators

/-- The left side of an expression is worth the levels that were measured for it, which were reached
and paid for. -/
structure Folded (c : Terms) (depth : Nat) (p : Node × Nat) (t : State) : Prop where
  affords : t.Affords c depth p.2
  reached : p.2 ≤ t.reached
  parsed : Parsed c.spelled (p.2 + 1) .expression p.1

theorem tailTurn_settles {power : Power} {p : Node × Nat} (hp : Folded c depth p s) :
    Settles c (fun below => tailTurn below power p) s fun x t => Folded c depth x.value t := by
  obtain ⟨left, height⟩ := p
  obtain ⟨hs, hreached, hleft⟩ := hp
  refine settles_kind_bind (settles_get_bind ?_)
  refine settles_ite (fun _ => settles_pure ⟨hs, hreached, hleft⟩) fun _ => ?_
  refine settles_read_bind (fun _ => rfl) ?_
  cases hop : Table.standard.operator s.current.kind with
  | none => exact settles_pure ⟨hs, hreached, hleft⟩
  | some entry =>
    obtain ⟨tighter, form⟩ := entry
    refine settles_ite (fun _ => settles_pure ⟨hs, hreached, hleft⟩) fun _ => ?_
    have hs₀ := hs.mono (Nat.zero_le height)
    have hfold : Settles c (fun below => operatorOf below left tighter form)
        { s with peak := s.depth } fun n t =>
          Parsed c.spelled (max t.reached (height + 1) + 1) .expression n ∧
            t.later.length < s.later.length :=
      operatorOf_settles hb hleft (by simp [hop]) ⟨hs₀.depth_eq, hs₀.paid⟩
    refine (settles_measured (R := fun n r t => Parsed c.spelled (max r (height + 1) + 1) .expression n ∧
      t.later.length < s.later.length) hfold fun _ _ _ _ h => h).bind ?_
    rintro ⟨folded, reached⟩ t hst ⟨⟨hfolded, hlt⟩, hle, hpaid⟩
    dsimp only at hfolded hlt hle hpaid
    have hdepth := hs.depth_eq
    have hpaid' := hs.paid
    have htdepth := hst.depth
    refine (settles_reach (by omega)).bind fun _ u htu hu => settles_pure ⟨?_, hu, hfolded⟩
    have htu' : t.Affords c depth (max reached (height + 1)) := ⟨by omega, by omega⟩
    exact htu'.leads htu

theorem tail_settles {power : Power} {left : Node} {height : Nat}
    (hp : Folded c depth (left, height) s) :
    Settles c (fun below => tail below left height power) s fun n t =>
      Parsed c.spelled (t.reached + 1) .expression n := by
  refine (settles_loop (fun p below => tailTurn below power p) hp fun _ _ =>
    tailTurn_settles hb).bind fun p t _ hp => settles_pure ?_
  exact hp.parsed.mono (Nat.succ_le_succ hp.reached)

omit hb in
theorem Folded.of_measured {x : Below → Rule Node} (hs : s.Affords c depth 0)
    (hx : Settles c x { s with peak := s.depth } fun n t =>
      Parsed c.spelled (t.reached + 1) .expression n) :
    Settles c (fun below => measured (x below)) s (Folded c depth) := by
  refine (settles_measured (R := fun n r _ => Parsed c.spelled (r + 1) .expression n) hx
    fun _ _ _ _ h => h).mono ?_
  rintro ⟨n, r⟩ t hst ⟨hn, hle, hpaid⟩
  have hdepth := hs.depth_eq
  refine ⟨⟨hst.depth.trans hdepth, ?_⟩, hle, hn⟩
  dsimp only at hpaid ⊢
  omega

theorem expressionBody_settles {power : Power} (hs : s.Affords c depth 0) :
    Settles c (fun below => expressionBody below power) s fun n t =>
      Parsed c.spelled (t.reached + 1) .expression n := by
  refine settles_read_bind (fun _ => rfl) (settles_kind_bind ?_)
  cases hop : Table.standard.operand s.current.kind with
  | none => exact settles_unexpected
  | some form =>
    have hoperand : Settles c (fun below => operandOf below form) { s with peak := s.depth }
        fun n t => Parsed c.spelled (t.reached + 1) .expression n :=
      operandOf_settles hb hop ⟨hs.depth_eq, hs.paid⟩
    refine (Folded.of_measured hs hoperand).bind ?_
    rintro ⟨left, height⟩ t _ hp
    exact tail_settles hb hp

theorem moreExpressions_settles (hs : s.Affords c depth 0) :
    Settles c moreExpressions s fun ns t => ∀ n ∈ ns, Parsed c.spelled t.reached .expression n := by
  refine settles_many (fun _ _ _ => Parsed.leads) fun t hst => ?_
  refine settles_kind_bind (settles_ite (fun hcomma => ?_) fun _ => settles_pure nofun)
  refine settles_advance_bind fun u _ htu => ?_
  have hu := (hs.leads hst).consumes (htu (by rw [hcomma]; nofun))
  exact (hb.expression hu).bind fun _ _ _ h => settles_pure (forall_mem_some h)

theorem expressionList_settles (hs : s.Affords c depth 1) :
    Settles c expressionList s fun ns t =>
      ns ≠ [] ∧ ∀ n ∈ ns, Parsed c.spelled t.reached .expression n := by
  refine (hb.expression hs).bind fun first t hst hfirst => ?_
  refine (moreExpressions_settles hb ((hs.leads hst).mono (Nat.zero_le 1))).bind
    fun more u htu hmore => settles_pure ⟨List.cons_ne_nil _ _, ?_⟩
  exact List.forall_mem_cons.2 ⟨hfirst.leads htu, hmore⟩

end Expressions

end MiniGo.Grammar
