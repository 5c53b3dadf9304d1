import MiniGo.FrontEnd
import MiniGo.Proofs.Grammar.Run
import MiniGo.Proofs.Token.Spelling
import MiniGo.Proofs.Tree.Source

/-!
What the rules yield on the tokens of a source. Every rule gets one lemma that says in which places its
result may stand, for rules one level down of which the same is known.
-/
namespace MiniGo.Grammar

def State.Spelled (s : State) : Prop := ∀ k ∈ s.tokens, k.Spelled

/-- What a rule yields on spelled tokens has a property, and the tokens behind it are spelled. -/
def Yields {α : Type} (c : Setting) (s : State) (rule : Rule α) (P : α → Prop) : Prop :=
  s.Spelled → ∀ a t, Rule.Runs rule c s a t → P a ∧ t.Spelled

theorem State.Spelled.current {s : State} (hs : s.Spelled) : s.current.Spelled :=
  hs s.current List.mem_cons_self

theorem State.Spelled.next {s : State} (hs : s.Spelled) : s.next.Spelled := by
  unfold State.next
  cases hl : s.later with
  | nil => exact hs
  | cons k ks =>
    intro t ht
    apply hs t
    rw [State.tokens, hl]
    exact List.mem_cons_of_mem _ ht

section Blocks

variable {α β : Type} {c : Setting} {s : State} {P : α → Prop} {Q : β → Prop} {x y : Rule α}
  {f : α → Rule β} {a : α}

theorem yields_pure (h : P a) : Yields c s (pure a) P := by
  intro hs b t hrun
  obtain ⟨rfl, rfl⟩ := runs_pure.1 hrun
  exact ⟨h, hs⟩

theorem Yields.bind (hx : Yields c s x P) (hf : ∀ a t, P a → Yields c t (f a) Q) :
    Yields c s (x >>= f) Q := by
  intro hs b t hrun
  obtain ⟨a, u, ha, hb⟩ := runs_bind.1 hrun
  obtain ⟨hP, hu⟩ := hx hs a u ha
  exact hf a u hP hu b t hb

theorem Yields.mono {R : α → Prop} (hx : Yields c s x P) (h : ∀ a, P a → R a) : Yields c s x R := by
  intro hs a t hrun
  obtain ⟨hP, ht⟩ := hx hs a t hrun
  exact ⟨h a hP, ht⟩

theorem Yields.map {g : α → β} (hx : Yields c s x P) (h : ∀ a, P a → Q (g a)) :
    Yields c s (g <$> x) Q := by
  intro hs b t hrun
  obtain ⟨a, ha, rfl⟩ := runs_map.1 hrun
  obtain ⟨hP, ht⟩ := hx hs a t ha
  exact ⟨h a hP, ht⟩

theorem yields_ite {p : Prop} [Decidable p] (hx : p → Yields c s x P) (hy : ¬ p → Yields c s y P) :
    Yields c s (if p then x else y) P := by
  by_cases hp : p
  · rw [if_pos hp]
    exact hx hp
  · rw [if_neg hp]
    exact hy hp

theorem yields_failAt {offset : Text.Offset} {cause : Cause} : Yields c s (failAt offset cause) P :=
  fun _ _ _ h => absurd h not_runs_failAt

theorem yields_fail {cause : Cause} : Yields c s (fail cause) P := yields_failAt

theorem yields_refuse {k : Token} {message : String} : Yields c s (refuse k message) P := yields_failAt

theorem yields_unexpected {message : String} : Yields c s (unexpected message) P := yields_failAt

theorem yields_kind_bind {f : TokenKind → Rule β} (h : Yields c s (f s.current.kind) Q) :
    Yields c s (kind >>= f) Q := h

theorem yields_current_bind {f : Token → Rule β} (h : Yields c s (f s.current) Q) :
    Yields c s (current >>= f) Q := h

theorem yields_read_bind {f : Setting → Rule β} (h : Yields c s (f c) Q) :
    Yields c s (read >>= f) Q := h

theorem yields_kindAhead_bind {n : Nat} {f : TokenKind → Rule β}
    (h : Yields c s (f (s.kindAhead n)) Q) : Yields c s (kindAhead n >>= f) Q := h

theorem yields_advance_bind {f : Token → Rule β}
    (h : s.current.Spelled → Yields c s.next (f s.current) Q) : Yields c s (advance >>= f) Q := by
  intro hs
  exact h hs.current hs.next

theorem yields_expect_bind {k : TokenKind} {f : Token → Rule β}
    (h : s.current.kind = k → s.current.Spelled → Yields c s.next (f s.current) Q) :
    Yields c s (expect k >>= f) Q := by
  intro hs b t hrun
  obtain ⟨hk, hrun⟩ := runs_expect_bind.1 hrun
  exact h hk hs.current hs.next b t hrun

theorem yields_expectOr_bind {k : TokenKind} {message : String} {f : Token → Rule β}
    (h : s.current.kind = k → s.current.Spelled → Yields c s.next (f s.current) Q) :
    Yields c s (expectOr k message >>= f) Q := by
  intro hs b t hrun
  obtain ⟨hk, hrun⟩ := runs_expectOr_bind.1 hrun
  exact h hk hs.current hs.next b t hrun

theorem yields_withStructLiterals {allowed : Bool}
    (h : Yields c { s with structLiterals := allowed } x P) :
    Yields c s (withStructLiterals allowed x) P := by
  intro hs a t hrun
  obtain ⟨u, hu, rfl⟩ := runs_withStructLiterals.1 hrun
  exact h hs a u hu

theorem yields_measured (h : Yields c { s with peak := s.depth } x P) :
    Yields c s (measured x) fun p => P p.1 := by
  rintro hs ⟨a, n⟩ t hrun
  obtain ⟨u, hu, -, rfl⟩ := runs_measured.1 hrun
  exact h hs a u hu

theorem yields_reach {levels : Nat} : Yields c s (reach levels) fun _ => True := by
  intro hs a t hrun
  obtain ⟨-, rfl⟩ := runs_reach.1 hrun
  exact ⟨trivial, hs⟩

theorem yields_nested
    (h : Yields c { s with depth := s.depth + 1, peak := max s.peak (s.depth + 1) } x P) :
    Yields c s (nested x) P := by
  intro hs a t hrun
  obtain ⟨-, u, hu, rfl⟩ := runs_nested.1 hrun
  exact h hs a u hu

end Blocks

section Loops

variable {α : Type} {c : Setting} {s : State} {P : α → Prop}

theorem forall_mem_some {a : α} (h : P a) : ∀ b ∈ some a, P b := by
  rintro b ⟨⟩
  exact h

def Turn.value : Turn α → α
  | .more a => a
  | .done a => a

theorem yields_loop {turn : α → Rule (Turn α)} {a : α} (ha : P a)
    (hturn : ∀ a s, P a → Yields c s (turn a) fun x => P x.value) : Yields c s (loop a turn) P := by
  intro hs b t hrun
  refine loop_invariant (I := fun a s => P a ∧ s.Spelled) ?_ ?_ hrun ⟨ha, hs⟩
  · rintro a s b t ⟨ha, hs⟩ h
    exact hturn a s ha hs _ _ h
  · rintro a s b t ⟨ha, hs⟩ h
    exact hturn a s ha hs _ _ h

theorem yields_many {rule : Rule (Option α)} (h : ∀ s, Yields c s rule fun o => ∀ a ∈ o, P a) :
    Yields c s (many rule) fun as => ∀ a ∈ as, P a := by
  rw [many_eq]
  refine yields_loop (List.forall_mem_nil P) ?_
  intro found s hfound
  refine (h s).bind ?_
  rintro (_ | a) t ha
  · exact yields_pure hfound
  · refine yields_pure ?_
    exact List.forall_mem_append.2 ⟨hfound, List.forall_mem_singleton.2 (ha a rfl)⟩

theorem yields_skipSemicolons : Yields c s skipSemicolons fun _ => True := by
  refine yields_loop trivial fun _ s _ => ?_
  refine yields_kind_bind (yields_ite (fun _ => ?_) fun _ => yields_pure trivial)
  exact yields_advance_bind fun _ => yields_pure trivial

theorem yields_separated {close : TokenKind} {message : String} {item : Rule α}
    (h : ∀ s, Yields c s item P) :
    Yields c s (separated close message item) fun as => ∀ a ∈ as, P a := by
  refine yields_many fun s => ?_
  refine yields_kind_bind (yields_ite (fun _ => yields_pure nofun) fun _ => ?_)
  refine (h s).bind fun a t ha => ?_
  refine yields_kind_bind (yields_ite (fun _ => yields_pure (forall_mem_some ha)) fun _ => ?_)
  exact yields_expectOr_bind fun _ _ => yields_pure (forall_mem_some ha)

end Loops

def Goal.place : Goal → Place
  | .statement => .statement
  | .expression _ => .expression
  | .type => .type
  | .elseIf => .elseIf

def NameList.place : NameList → Place
  | .declaration => .name
  | .parameters | .structFields => .typedName

def YieldsSourced (c : Setting) (below : Below) : Prop :=
  ∀ goal s, Yields c s (below goal) (Sourced goal.place)

variable {c : Setting} {below : Below} (hb : YieldsSourced c below) {s : State}

section Types
include hb

theorem YieldsSourced.type (s : State) : Yields c s (below .type) (Sourced .type) := hb .type s

theorem typeList_sourced : Yields c s (typeList below) fun ns => ∀ n ∈ ns, Sourced .type n :=
  yields_separated hb.type

theorem resultType_sourced : Yields c s (resultType below) (Sourced .type) := by
  refine yields_kind_bind (yields_ite (fun _ => ?_) fun _ => hb.type s)
  refine yields_advance_bind fun _ => ?_
  refine (typeList_sourced hb).bind fun elements t helements => ?_
  exact yields_expectOr_bind fun _ _ => yields_pure (.tupleType helements)

omit hb in
theorem namedType_sourced : Yields c s namedType (Sourced .type) := by
  refine yields_expect_bind fun hk hspelled => ?_
  split
  · exact yields_pure .basicType
  · exact yields_pure (.customType (hspelled.name hk))

theorem arrayType_sourced : Yields c s (arrayType below) (Sourced .type) := by
  refine yields_expect_bind fun _ _ => yields_kind_bind (yields_ite (fun _ => ?_) fun _ => ?_)
  · refine yields_advance_bind fun _ => ?_
    exact (hb.type _).bind fun _ _ h => yields_pure (.sliceType h)
  · refine yields_advance_bind fun _ => ?_
    split
    · exact yields_failAt
    · refine yields_expectOr_bind fun _ _ => ?_
      exact (hb.type _).bind fun _ _ h => yields_pure (.arrayType h)

theorem chanType_sourced : Yields c s (chanType below) (Sourced .type) := by
  refine yields_expect_bind fun _ _ => yields_kind_bind (yields_ite (fun _ => ?_) fun _ => ?_)
  · refine yields_advance_bind fun _ => ?_
    exact (hb.type _).bind fun _ _ h => yields_pure (.chanType h)
  · exact (hb.type _).bind fun _ _ h => yields_pure (.chanType h)

theorem receiveChanType_sourced : Yields c s (receiveChanType below) (Sourced .type) := by
  refine yields_expect_bind fun _ _ => yields_expectOr_bind fun _ _ => ?_
  exact (hb.type _).bind fun _ _ h => yields_pure (.chanType h)

theorem functionType_sourced : Yields c s (functionType below) (Sourced .type) := by
  refine yields_expect_bind fun _ _ => yields_expectOr_bind fun _ _ => ?_
  refine (typeList_sourced hb).bind fun elements t helements => yields_expect_bind fun _ _ => ?_
  have hstarts : Yields c t.next startsResultType fun _ => True := by
    exact yields_kind_bind (yields_read_bind (yields_pure trivial))
  refine hstarts.bind fun starts u _ => yields_ite (fun _ => ?_) fun _ => ?_
  · exact (resultType_sourced hb).bind fun _ _ h => yields_pure (.functionType helements h)
  · exact yields_pure (.functionType helements .voidType)

structure NamesSourced (found : List Node × List String) : Prop where
  typed : ∀ n ∈ found.1, Sourced .typedName n
  pending : ∀ v ∈ found.2, v ≠ ""

theorem nameTurn_sourced {terminators : List TokenKind} {found : List Node × List String}
    (h : NamesSourced found) :
    Yields c s (nameTurn below terminators found) fun x => NamesSourced x.value := by
  obtain ⟨ids, pending⟩ := found
  refine yields_kind_bind (yields_ite (fun _ => yields_pure h) fun _ => ?_)
  refine yields_expectOr_bind fun hk hspelled => yields_kind_bind ?_
  have hpending : ∀ v ∈ pending ++ [s.current.value], v ≠ "" :=
    List.forall_mem_append.2 ⟨h.pending, List.forall_mem_singleton.2 (hspelled.name hk)⟩
  have hrest : ∀ found t, NamesSourced found → Yields c t
      (do
        if (← kind) = .comma then
          let _ ← advance
          return Turn.more found
        else return Turn.done found) fun x => NamesSourced x.value := by
    intro found t hfound
    refine yields_kind_bind (yields_ite (fun _ => ?_) fun _ => yields_pure hfound)
    exact yields_advance_bind fun _ => yields_pure hfound
  refine yields_ite (fun _ => ?_) fun _ => ?_
  · refine (hb.type _).bind fun type t htype => ?_
    have hfound : NamesSourced (ids ++ (pending ++ [s.current.value]).map
        (Node.identifier · (some type)), []) := by
      refine ⟨List.forall_mem_append.2 ⟨h.typed, List.forall_mem_map.2 ?_⟩, List.forall_mem_nil _⟩
      intro v hv
      exact .typed (hpending v hv) htype
    exact (yields_pure hfound).bind hrest
  · have hfound : NamesSourced (ids, pending ++ [s.current.value]) := ⟨h.typed, hpending⟩
    exact (yields_pure hfound).bind hrest

omit hb in
private theorem sourced_of_typedName {list : NameList} {n : Node} (h : Sourced .typedName n) :
    Sourced list.place n := by
  cases list with
  | declaration => exact .typedName h
  | parameters | structFields => exact h

theorem typedNames_sourced {terminators : List TokenKind} {list : NameList} :
    Yields c s (typedNames below terminators list) fun ns => ∀ n ∈ ns, Sourced list.place n := by
  have hloop : Yields c s (loop ([], []) (nameTurn below terminators)) NamesSourced :=
    yields_loop ⟨List.forall_mem_nil _, List.forall_mem_nil _⟩ fun _ _ => nameTurn_sourced hb
  refine hloop.bind ?_
  rintro ⟨ids, pending⟩ t ⟨htyped, hpending⟩
  cases pending with
  | nil =>
    refine yields_ite (fun _ => yields_unexpected) fun _ => yields_pure ?_
    intro n hn
    exact sourced_of_typedName (htyped n hn)
  | cons untyped pending =>
    refine yields_ite (fun hlist => yields_pure ?_) fun _ => yields_fail
    subst hlist
    refine List.forall_mem_append.2 ⟨fun n hn => .typedName (htyped n hn), ?_⟩
    exact List.forall_mem_map.2 fun v hv => .name (hpending v hv)

theorem structType_sourced : Yields c s (structType below) (Sourced .type) := by
  refine yields_expect_bind fun _ _ => yields_expectOr_bind fun _ _ => ?_
  have hgroups : ∀ t, Yields c t
      (many do
        skipSemicolons
        if (← kind) = .closeCurly then return none
        else
          let fields ← typedNames below [.semicolon, .closeCurly] .structFields
          if (← kind) = .closeCurly then return some fields
          else
            let _ ← expectOr .semicolon "expected `;` or newline"
            return some fields)
      fun groups => ∀ group ∈ groups, ∀ n ∈ group, Sourced .typedName n := by
    intro t
    refine yields_many fun t => yields_skipSemicolons.bind fun _ t _ => ?_
    refine yields_kind_bind (yields_ite (fun _ => yields_pure nofun) fun _ => ?_)
    refine (typedNames_sourced hb).bind fun fields t hfields => ?_
    refine yields_kind_bind
      (yields_ite (fun _ => yields_pure (forall_mem_some hfields)) fun _ => ?_)
    exact yields_expectOr_bind fun _ _ => yields_pure (forall_mem_some hfields)
  refine (hgroups _).bind fun groups t hgroups => yields_expect_bind fun _ _ => yields_pure ?_
  refine .structType fun n hn => ?_
  obtain ⟨group, hgroup, hn⟩ := List.mem_flatten.1 hn
  exact hgroups group hgroup n hn

theorem typeBody_sourced : Yields c s (typeBody below) (Sourced .type) := by
  refine yields_read_bind (yields_kind_bind ?_)
  split
  · rename_i form _
    cases form with
    | named => exact namedType_sourced
    | array => exact arrayType_sourced hb
    | chan => exact chanType_sourced hb
    | receiveChan => exact receiveChanType_sourced hb
    | function => exact functionType_sourced hb
    | struct => exact structType_sourced hb
  · exact yields_unexpected

end Types

section Expressions
include hb

theorem YieldsSourced.expression (p : Power) (s : State) :
    Yields c s (below (.expression p)) (Sourced .expression) := hb (.expression p) s

theorem block_sourced : Yields c s (block below) fun ns => ∀ n ∈ ns, Sourced .statement n := by
  refine yields_expectOr_bind fun _ _ => ?_
  refine Yields.bind (P := fun ns => ∀ n ∈ ns, Sourced .statement n)
    (yields_withStructLiterals (yields_many fun t => ?_)) fun body t hbody => ?_
  · refine yields_skipSemicolons.bind fun _ t _ => yields_kind_bind ?_
    split
    · exact yields_pure nofun
    · exact yields_unexpected
    · exact (hb .statement t).bind fun _ _ hn => yields_pure (forall_mem_some hn)
  · exact yields_expect_bind fun _ _ => yields_pure hbody

theorem functionRest_sourced {name : Option Node} (hname : ∀ n ∈ name, Sourced .name n) :
    Yields c s (functionRest below name) fun n => Sourced .expression n ∧ Sourced .statement n := by
  refine yields_expectOr_bind fun _ _ => ?_
  refine (typedNames_sourced hb).bind fun formals t hformals => ?_
  refine yields_expectOr_bind fun _ _ => yields_kind_bind ?_
  have hrest : ∀ result t, (∀ n ∈ result, Sourced .type n) → Yields c t
      (do return .function name formals result (← block below))
      fun n => Sourced .expression n ∧ Sourced .statement n := by
    intro result t hresult
    refine (block_sourced hb).bind fun body t hbody => yields_pure ?_
    have h := Sourced.function hname hformals hresult hbody
    exact ⟨h, .functionStatement h⟩
  refine yields_ite (fun _ => ?_) fun _ => ?_
  · exact (yields_pure nofun).bind hrest
  · exact ((resultType_sourced hb).map fun _ h => forall_mem_some h).bind hrest

omit hb in
theorem primary_sourced : Yields c s primary (Sourced .expression) := by
  refine yields_advance_bind fun hspelled => ?_
  split
  · split
    · exact yields_pure .literal
    · exact yields_failAt
  · exact yields_pure .literal
  · exact yields_pure .literal
  · rename_i hk
    exact yields_pure (.identifier (hspelled.name hk))
  · exact yields_failAt

theorem grouping_sourced : Yields c s (grouping below) (Sourced .expression) := by
  refine yields_expect_bind fun _ _ => ?_
  refine (yields_withStructLiterals (hb.expression .lowest _)).bind fun _ _ he => ?_
  exact yields_expectOr_bind fun _ _ => yields_pure he

theorem functionLiteral_sourced :
    Yields c s (functionLiteral below) fun n => Sourced .expression n ∧ Sourced .statement n :=
  yields_expect_bind fun _ _ => functionRest_sourced hb nofun

theorem operandOf_sourced {form : OperandForm}
    (hform : Table.standard.operand s.current.kind = some form) :
    Yields c s (operandOf below form) (Sourced .expression) := by
  cases form with
  | primary => exact primary_sourced
  | unary =>
    refine yields_advance_bind fun hspelled => ?_
    exact (hb.expression .unary _).bind fun _ _ h => yields_pure (.unary (hspelled.unary hform) h)
  | receive =>
    refine yields_expect_bind fun _ _ => ?_
    exact (hb.expression .unary _).bind fun _ _ h => yields_pure (.receive h)
  | grouping => exact grouping_sourced hb
  | function => exact (functionLiteral_sourced hb).mono fun _ h => h.1

theorem call_sourced {left : Node} (hleft : Sourced .expression left) :
    Yields c s (call below left) (Sourced .expression) := by
  refine yields_expect_bind fun _ _ => ?_
  refine (yields_withStructLiterals (yields_separated (hb.expression .lowest))).bind
    fun operands _ hoperands => ?_
  exact yields_expect_bind fun _ _ => yields_pure (.application hleft hoperands)

theorem index_sourced {left : Node} (hleft : Sourced .expression left) :
    Yields c s (index below left) (Sourced .expression) := by
  refine yields_expect_bind fun _ _ => ?_
  refine (yields_withStructLiterals (hb.expression .lowest _)).bind fun i _ hi => ?_
  exact yields_expectOr_bind fun _ _ => yields_pure (.index hleft hi)

omit hb in
theorem member_sourced {left : Node} (hleft : Sourced .expression left) :
    Yields c s (member left) (Sourced .expression) := by
  refine yields_expect_bind fun _ _ => yields_expectOr_bind fun hk hspelled => ?_
  exact yields_pure (.member hleft (.name (hspelled.name hk)))

theorem fieldValue_sourced (s : State) : Yields c s (fieldValue below) (Sourced .fieldValue) := by
  refine yields_expectOr_bind fun hk hspelled => yields_expectOr_bind fun _ _ => ?_
  refine (hb.expression .lowest _).bind fun e _ he => ?_
  exact yields_pure (.fieldValue (.name (hspelled.name hk)) he)

theorem structLiteral_sourced {left : Node} (hleft : Sourced .expression left) :
    Yields c s (structLiteral below left) (Sourced .expression) := by
  unfold structLiteral
  split
  · refine yields_expect_bind fun _ _ => ?_
    refine (yields_withStructLiterals (yields_separated (fieldValue_sourced hb))).bind
      fun fields _ hfields => ?_
    refine yields_expect_bind fun _ _ => yields_pure ?_
    cases hleft with
    | identifier hs => exact .structLiteral (.customType hs) hfields
  · exact yields_unexpected

theorem operatorOf_sourced {left : Node} (hleft : Sourced .expression left) {q : Power}
    {form : OperatorForm} (hform : Table.standard.operator s.current.kind = some (q, form)) :
    Yields c s (operatorOf below left q form) (Sourced .expression) := by
  cases form with
  | binary =>
    refine yields_advance_bind fun hspelled => (hb.expression q _).bind fun _ _ hright => ?_
    exact yields_pure (.binary (hspelled.binary (by rw [hform]; rfl)) hleft hright)
  | call => exact call_sourced hb hleft
  | index => exact index_sourced hb hleft
  | structLiteral => exact structLiteral_sourced hb hleft
  | member => exact member_sourced hleft

theorem tailTurn_sourced (hc : c.table = .standard) {p : Power} {left : Node} {h : Nat}
    (hleft : Sourced .expression left) :
    Yields c s (tailTurn below p (left, h)) fun x => Sourced .expression x.value.1 := by
  refine yields_kind_bind (yields_ite (fun _ => yields_pure hleft) fun _ => ?_)
  refine yields_read_bind ?_
  rw [hc]
  split
  · exact yields_pure hleft
  · rename_i q form hform
    refine yields_ite (fun _ => yields_pure hleft) fun _ => ?_
    refine (yields_measured (operatorOf_sourced hb hleft hform)).bind ?_
    rintro ⟨e, n⟩ t he
    exact yields_reach.bind fun _ _ _ => yields_pure he

theorem tail_sourced (hc : c.table = .standard) {p : Power} {left : Node} {h : Nat}
    (hleft : Sourced .expression left) :
    Yields c s (tail below left h p) (Sourced .expression) := by
  refine Yields.bind (P := fun x => Sourced .expression x.1) (yields_loop hleft ?_)
    fun _ _ h => yields_pure h
  rintro ⟨left, h⟩ s hleft
  exact tailTurn_sourced hb hc hleft

theorem expressionBody_sourced (hc : c.table = .standard) {p : Power} :
    Yields c s (expressionBody below p) (Sourced .expression) := by
  refine yields_read_bind (yields_kind_bind ?_)
  rw [hc]
  split
  · exact yields_unexpected
  · rename_i form hform
    refine (yields_measured (operandOf_sourced hb hform)).bind ?_
    rintro ⟨left, h⟩ t hleft
    exact tail_sourced hb hc hleft

theorem moreExpressions_sourced :
    Yields c s (moreExpressions below) fun ns => ∀ n ∈ ns, Sourced .expression n := by
  refine yields_many fun s => yields_kind_bind (yields_ite (fun _ => ?_) fun _ => yields_pure nofun)
  refine yields_advance_bind fun _ => ?_
  exact (hb.expression .lowest _).bind fun _ _ h => yields_pure (forall_mem_some h)

theorem expressionList_sourced :
    Yields c s (expressionList below) fun ns => ns ≠ [] ∧ ∀ n ∈ ns, Sourced .expression n := by
  refine (hb.expression .lowest s).bind fun first _ hfirst => ?_
  refine (moreExpressions_sourced hb).bind fun more _ hmore => yields_pure ?_
  exact ⟨List.cons_ne_nil _ _, List.forall_mem_cons.2 ⟨hfirst, hmore⟩⟩

end Expressions

section Statements

theorem yields_terminator : Yields c s terminator fun _ => True := by
  refine yields_kind_bind ?_
  split
  · exact yields_advance_bind fun _ => yields_pure trivial
  · exact yields_pure trivial
  · exact yields_pure trivial
  · exact yields_pure trivial
  · exact yields_unexpected

theorem yields_terminated {rule : Rule Node} {P : Node → Prop} (h : Yields c s rule P) :
    Yields c s (terminated rule) P :=
  h.bind fun _ _ hn => yields_terminator.bind fun _ _ _ => yields_pure hn

private theorem name_of_expression {n : Node} (h : Sourced .expression n) (hn : isIdentifier n = true) :
    Sourced .name n := by
  cases h with
  | identifier hs => exact .name hs
  | _ => cases hn

private theorem target_of_expression {n : Node} (h : Sourced .expression n) (hn : isAssignable n = true) :
    Sourced .target n := by
  cases h with
  | identifier hs => exact .targetName hs
  | index haccessed hindex => exact .targetIndex (.index haccessed hindex)
  | _ => cases hn

include hb

theorem finishSimple_sourced {exprs : List Node} (hne : exprs ≠ [])
    (h : ∀ n ∈ exprs, Sourced .expression n) :
    Yields c s (finishSimple below exprs) (Sourced .simple) := by
  refine yields_kind_bind ?_
  split
  · refine yields_ite (fun hall => ?_) fun _ => yields_unexpected
    refine yields_advance_bind fun _ => (expressionList_sourced hb).bind fun vals _ hvals => ?_
    refine yields_pure (.declaration (fun n hn => ?_) hvals.2)
    exact name_of_expression (h n hn) (List.all_eq_true.1 hall n hn)
  · refine yields_ite (fun hall => ?_) fun _ => yields_unexpected
    refine yields_advance_bind fun _ => (expressionList_sourced hb).bind fun vals _ hvals => ?_
    refine yields_pure (.assignment hne (fun n hn => ?_) hvals.2)
    exact target_of_expression (h n hn) (List.all_eq_true.1 hall n hn)
  · split
    · rename_i chan
      refine yields_advance_bind fun _ => (hb.expression .lowest _).bind fun val _ hval => ?_
      exact yields_pure (.send (h chan List.mem_cons_self) hval)
    · exact yields_unexpected
  · split
    · rename_i e
      exact yields_pure (.expressionStatement (h e List.mem_cons_self))
    · exact yields_unexpected

theorem simpleStatement_sourced : Yields c s (simpleStatement below) (Sourced .simple) :=
  (expressionList_sourced hb).bind fun _ _ h => finishSimple_sourced hb h.1 h.2

omit hb in
theorem condition_sourced {n : Node} (h : Sourced .simple n) :
    Yields c s (condition n) (Sourced .expression) := by
  unfold condition
  split
  · cases h with
    | expressionStatement h => exact yields_pure h
  · exact yields_unexpected

def LineSourced (line : List Node × List Node) : Prop :=
  (∀ n ∈ line.1, Sourced .name n) ∧ ∀ n ∈ line.2, Sourced .expression n

theorem declarationLine_sourced : Yields c s (declarationLine below) LineSourced := by
  refine (typedNames_sourced hb).bind fun ids t hids => ?_
  refine yields_kind_bind (yields_ite (fun _ => ?_) fun _ => ?_)
  · refine yields_advance_bind fun _ => (expressionList_sourced hb).bind fun vals _ hvals => ?_
    exact yields_pure ⟨hids, hvals.2⟩
  · exact yields_pure ⟨hids, List.forall_mem_nil _⟩

theorem declarationLines_sourced :
    Yields c s (declarationLines below) fun lines => ∀ line ∈ lines, LineSourced line := by
  refine yields_kind_bind (yields_ite (fun _ => ?_) fun _ => ?_)
  · refine yields_advance_bind fun _ => ?_
    refine Yields.bind (P := fun lines => ∀ line ∈ lines, LineSourced line)
      (yields_many fun t => ?_) fun lines t hlines => ?_
    · refine yields_skipSemicolons.bind fun _ t _ => yields_kind_bind ?_
      split
      · exact yields_pure nofun
      · exact yields_unexpected
      · refine (declarationLine_sourced hb).bind fun line t hline => ?_
        exact yields_terminator.bind fun _ _ _ => yields_pure (forall_mem_some hline)
    · exact yields_expect_bind fun _ _ => yields_pure hlines
  · refine (declarationLine_sourced hb).bind fun line t hline => yields_pure ?_
    exact List.forall_mem_singleton.2 hline

theorem declaration_sourced : Yields c s (declaration below) (Sourced .statement) := by
  refine yields_advance_bind fun _ => ?_
  refine (declarationLines_sourced hb).bind fun lines _ hlines => yields_pure (.simple ?_)
  refine .declaration (fun n hn => ?_) fun n hn => ?_
  · obtain ⟨line, hline, hn⟩ := List.mem_flatMap.1 hn
    exact (hlines line hline).1 n hn
  · obtain ⟨line, hline, hn⟩ := List.mem_flatMap.1 hn
    exact (hlines line hline).2 n hn

theorem typeDeclarationStatement_sourced :
    Yields c s (typeDeclarationStatement below) (Sourced .statement) := by
  refine yields_terminated (yields_expect_bind fun _ _ => ?_)
  refine yields_expectOr_bind fun hk hspelled => (hb.type _).bind fun _ _ htype => ?_
  exact yields_pure (.typeDeclaration (hspelled.name hk) htype)

theorem namedFunction_sourced (hk : s.kindAhead 1 = .identifier) :
    Yields c s (namedFunction below) (Sourced .statement) := by
  have hnext : s.next.current.kind = .identifier := by
    unfold State.kindAhead at hk
    unfold State.next
    cases hl : s.later with
    | nil => simp [hl] at hk
    | cons t ts => simpa [hl] using hk
  refine yields_expect_bind fun _ _ => yields_advance_bind fun hspelled => ?_
  refine (functionRest_sourced hb ?_).mono fun _ h => h.2
  exact forall_mem_some (.name (hspelled.name hnext))

theorem functionLiteralStatement_sourced (hc : c.table = .standard) :
    Yields c s (functionLiteralStatement below) (Sourced .statement) := by
  refine (yields_measured (functionLiteral_sourced hb)).bind ?_
  rintro ⟨function, h⟩ t ⟨hexpression, hstatement⟩
  refine yields_kind_bind ?_
  split
  · exact yields_pure hstatement
  · exact yields_pure hstatement
  · exact yields_pure hstatement
  · refine (tail_sourced hb hc hexpression).bind fun first _ hfirst => ?_
    refine (moreExpressions_sourced hb).bind fun more _ hmore => ?_
    have hall := List.forall_mem_cons.2 ⟨hfirst, hmore⟩
    exact (finishSimple_sourced hb (List.cons_ne_nil _ _) hall).mono fun _ => .simple

theorem functionStatement_sourced (hc : c.table = .standard) :
    Yields c s (functionStatement below) (Sourced .statement) := by
  refine yields_terminated (yields_kindAhead_bind ?_)
  refine yields_ite (fun hk => namedFunction_sourced hb hk) fun _ => ?_
  exact functionLiteralStatement_sourced hb hc

theorem returnStatement_sourced : Yields c s (returnStatement below) (Sourced .statement) := by
  refine yields_terminated (yields_expect_bind fun _ _ => yields_kind_bind ?_)
  split
  · exact yields_pure (.returnStatement (List.forall_mem_nil _))
  · exact yields_pure (.returnStatement (List.forall_mem_nil _))
  · exact yields_pure (.returnStatement (List.forall_mem_nil _))
  · exact (expressionList_sourced hb).bind fun _ _ h => yields_pure (.returnStatement h.2)

theorem ifHeader_sourced :
    Yields c s (ifHeader below) fun header =>
      (∀ n ∈ header.1, Sourced .simple n) ∧ Sourced .expression header.2 := by
  refine (simpleStatement_sourced hb).bind fun first _ hfirst => ?_
  refine yields_kind_bind (yields_ite (fun _ => ?_) fun _ => ?_)
  · refine yields_advance_bind fun _ => (hb.expression .lowest _).bind fun _ _ hcond => ?_
    exact yields_pure ⟨forall_mem_some hfirst, hcond⟩
  · exact (condition_sourced hfirst).bind fun _ _ hcond => yields_pure ⟨nofun, hcond⟩

theorem alternative_sourced :
    Yields c s (alternative below) fun alt =>
      (∀ body, alt = some (.block body) → ∀ n ∈ body, Sourced .statement n) ∧
        ∀ n, alt = some (.chained n) → Sourced .elseIf n := by
  refine yields_kind_bind (yields_ite (fun _ => ?_) fun _ => yields_pure ⟨nofun, nofun⟩)
  refine yields_advance_bind fun _ => yields_kind_bind ?_
  split
  · refine (hb .elseIf _).bind fun n _ hn => yields_pure ⟨nofun, ?_⟩
    rintro _ ⟨⟩
    exact hn
  · refine (block_sourced hb).bind fun body _ hbody => yields_pure ⟨?_, nofun⟩
    rintro _ ⟨⟩
    exact hbody
  · exact yields_unexpected

theorem ifBody_sourced : Yields c s (ifBody below) (Sourced .elseIf) := by
  refine yields_expect_bind fun _ _ => ?_
  refine (yields_withStructLiterals (ifHeader_sourced hb)).bind ?_
  rintro ⟨short, cond⟩ t ⟨hshort, hcond⟩
  refine (block_sourced hb).bind fun cons _ hcons => ?_
  refine (alternative_sourced hb).bind fun alt _ halt => ?_
  exact yields_pure (.elseIf hshort hcond hcons halt.1 halt.2)

structure ClausesSourced (clauses : Clauses) : Prop where
  init : ∀ n ∈ clauses.init, n ≠ .empty → Sourced .simple n
  cond : ∀ n ∈ clauses.cond, Sourced .expression n
  post : ∀ n ∈ clauses.post, Sourced .simple n

theorem forRest_sourced {init : Node} (hinit : init ≠ .empty → Sourced .simple init) :
    Yields c s (forRest below init) ClausesSourced := by
  refine yields_expect_bind fun _ _ => yields_kind_bind ?_
  have hpost : ∀ cond t, (∀ n ∈ cond, Sourced .expression n) → Yields c t
      (do
        let _ ← expectOr .semicolon "expected `;`"
        let post ← if (← kind) = .openCurly then pure none else some <$> simpleStatement below
        return ⟨some init, cond, post⟩) ClausesSourced := by
    intro cond t hcond
    refine yields_expectOr_bind fun _ _ => yields_kind_bind ?_
    have hclauses : ∀ post t, (∀ n ∈ post, Sourced .simple n) →
        Yields c t (pure ⟨some init, cond, post⟩) ClausesSourced :=
      fun _ _ hpost => yields_pure ⟨forall_mem_some hinit, hcond, hpost⟩
    refine yields_ite (fun _ => ?_) fun _ => ?_
    · exact (yields_pure nofun).bind hclauses
    · exact ((simpleStatement_sourced hb).map fun _ h => forall_mem_some h).bind hclauses
  refine yields_ite (fun _ => ?_) fun _ => ?_
  · exact (yields_pure nofun).bind hpost
  · exact ((hb.expression .lowest _).map fun _ h => forall_mem_some h).bind hpost

theorem forHeader_sourced : Yields c s (forHeader below) ClausesSourced := by
  refine yields_kind_bind ?_
  split
  · exact yields_pure ⟨nofun, nofun, nofun⟩
  · exact forRest_sourced hb fun h => absurd rfl h
  · refine (simpleStatement_sourced hb).bind fun first _ hfirst => ?_
    refine yields_kind_bind (yields_ite (fun _ => forRest_sourced hb fun _ => hfirst) fun _ => ?_)
    refine (condition_sourced hfirst).bind fun cond _ hcond => ?_
    exact yields_pure ⟨nofun, forall_mem_some hcond, nofun⟩

theorem forStatement_sourced : Yields c s (forStatement below) (Sourced .statement) := by
  refine yields_terminated (yields_expect_bind fun _ _ => ?_)
  refine (yields_withStructLiterals (forHeader_sourced hb)).bind fun clauses _ hclauses => ?_
  refine (block_sourced hb).bind fun body _ hbody => ?_
  exact yields_pure (.forStatement hclauses.init hclauses.cond hclauses.post hbody)

theorem goStatement_sourced : Yields c s (goStatement below) (Sourced .statement) := by
  refine yields_terminated (yields_expect_bind fun _ _ => yields_current_bind ?_)
  refine (hb.expression .lowest _).bind fun app _ happ => ?_
  split
  · exact yields_pure (.goStatement happ)
  · exact yields_refuse

omit hb in
theorem guardReceive?_sourced {n g : Node} (h : Sourced .expression n)
    (hg : guardReceive? n = some g) : ∃ chan, g = .receive chan true ∧ Sourced .expression chan := by
  cases h with
  | receive h =>
    cases hg
    exact ⟨_, rfl, h⟩
  | _ => cases hg

omit hb in
theorem guard?_sourced {n g : Node} (h : Sourced .simple n) (hg : guard? n = some g) :
    Sourced .guard g := by
  cases h with
  | send hchan hval =>
    cases hg
    exact .guardSend hchan hval
  | expressionStatement h =>
    obtain ⟨chan, rfl, hchan⟩ := guardReceive?_sourced h hg
    exact .guardReceive hchan
  | @declaration kind ids vals hids hvals =>
    obtain _ | ⟨val, _ | _⟩ := vals
    · cases hg
    · obtain ⟨v, hv, rfl⟩ := Option.map_eq_some_iff.1 hg
      obtain ⟨chan, rfl, hchan⟩ := guardReceive?_sourced (hvals val List.mem_cons_self) hv
      exact .guardDeclaration hids hchan
    · cases hg
  | @assignment targets vals hne htargets hvals =>
    obtain _ | ⟨val, _ | _⟩ := vals
    · cases hg
    · obtain ⟨v, hv, rfl⟩ := Option.map_eq_some_iff.1 hg
      obtain ⟨chan, rfl, hchan⟩ := guardReceive?_sourced (hvals val List.mem_cons_self) hv
      exact .guardAssignment hne htargets hchan
    · cases hg

theorem caseGuard_sourced : Yields c s (caseGuard below) (Sourced .guard) := by
  refine yields_current_bind ((simpleStatement_sourced hb).bind fun n _ hn => ?_)
  split
  · rename_i g hg
    exact yields_pure (guard?_sourced hn hg)
  · exact yields_refuse

theorem caseBody_sourced :
    Yields c s (caseBody below) fun ns => ∀ n ∈ ns, Sourced .statement n := by
  refine yields_withStructLiterals (yields_many fun t => ?_)
  refine yields_skipSemicolons.bind fun _ t _ => yields_kind_bind ?_
  split
  · exact yields_pure nofun
  · exact yields_pure nofun
  · exact yields_pure nofun
  · exact yields_pure nofun
  · exact (hb .statement t).bind fun _ _ hn => yields_pure (forall_mem_some hn)

theorem selectArm_sourced (s : State) :
    Yields c s (selectArm below) fun o => ∀ n ∈ o, Sourced .arm n := by
  refine yields_skipSemicolons.bind fun _ t _ => yields_kind_bind ?_
  split
  · exact yields_pure nofun
  · refine yields_advance_bind fun _ => (caseGuard_sourced hb).bind fun guard _ hguard => ?_
    refine yields_expectOr_bind fun _ _ => (caseBody_sourced hb).bind fun body _ hbody => ?_
    exact yields_pure (forall_mem_some (.selectCase hguard hbody))
  · refine yields_advance_bind fun _ => yields_expectOr_bind fun _ _ => ?_
    refine (caseBody_sourced hb).bind fun body _ hbody => ?_
    exact yields_pure (forall_mem_some (.defaultCase hbody))
  · exact yields_unexpected

theorem selectStatement_sourced : Yields c s (selectStatement below) (Sourced .statement) := by
  refine yields_terminated (yields_expect_bind fun _ _ => yields_expectOr_bind fun _ _ => ?_)
  refine (yields_many (selectArm_sourced hb)).bind fun cases _ hcases => ?_
  exact yields_expect_bind fun _ _ => yields_pure (.selectStatement hcases)

theorem statementBody_sourced (hc : c.table = .standard) :
    Yields c s (statementBody below) (Sourced .statement) := by
  refine yields_read_bind (yields_kind_bind ?_)
  split
  · rename_i form _
    cases form with
    | declaration => exact yields_terminated (declaration_sourced hb)
    | typeDeclaration => exact typeDeclarationStatement_sourced hb
    | function => exact functionStatement_sourced hb hc
    | ret => exact returnStatement_sourced hb
    | ifThen => exact (yields_terminated (ifBody_sourced hb)).mono fun _ => .ifStatement
    | loop => exact forStatement_sourced hb
    | go => exact goStatement_sourced hb
    | select => exact selectStatement_sourced hb
  · exact (yields_terminated (simpleStatement_sourced hb)).mono fun _ => .simple

end Statements

/-- Whatever the number of levels left, the rules yield what may stand in the place of their goal. -/
theorem produce_sourced (hc : c.table = .standard) (levels : Nat) :
    YieldsSourced c (produce levels) := by
  induction levels with
  | zero =>
    intro goal s
    exact yields_read_bind yields_fail
  | succ levels ih =>
    intro goal s
    refine yields_nested ?_
    cases goal with
    | statement => exact statementBody_sourced ih hc
    | expression p => exact expressionBody_sourced ih hc
    | type => exact typeBody_sourced ih
    | elseIf => exact ifBody_sourced ih

theorem program_sourced (hc : c.table = .standard) :
    Yields c s program fun tree => ∃ items, tree = .program items ∧
      ∀ n ∈ items, Sourced .statement n := by
  refine Yields.bind (P := fun items => ∀ n ∈ items, Sourced .statement n)
    (yields_many fun s => ?_) fun items _ hitems => yields_pure ⟨items, rfl, hitems⟩
  refine yields_skipSemicolons.bind fun _ t _ => ?_
  refine yields_kind_bind (yields_ite (fun _ => yields_pure nofun) fun _ => ?_)
  have hstatement : Yields c t statement (Sourced .statement) := produce_sourced hc _ .statement t
  exact hstatement.bind fun _ _ hn => yields_pure (forall_mem_some hn)

theorem State.Spelled.ofTokens {tokens : List Token} (h : ∀ k ∈ tokens, k.Spelled) :
    (State.ofTokens tokens).Spelled := by
  unfold State.Spelled
  rcases State.tokens_ofTokens tokens with heq | ⟨offset, heq⟩
  · rwa [heq]
  · rw [heq]
    exact List.forall_mem_append.2
      ⟨h, List.forall_mem_singleton.2 (Lexer.spelled_endOfInput offset)⟩

end MiniGo.Grammar

namespace MiniGo

theorem parseTree_sourced {source : String} {o : Options} {tree : Node}
    (h : parseTree source o = .ok tree) :
    ∃ items, tree = .program items ∧ ∀ n ∈ items, Sourced .statement n := by
  unfold parseTree at h
  cases htokens : tokenize source o.file with
  | error e =>
    rw [htokens] at h
    cases h
  | ok tokens =>
    rw [htokens] at h
    change Node.ofTokens tokens o.file o.maxDepth = .ok tree at h
    unfold Node.ofTokens at h
    split at h
    · rename_i tree' t hrun
      cases h
      have hspelled := Grammar.State.Spelled.ofTokens (tokenize_spelled htokens)
      exact (Grammar.program_sourced rfl hspelled tree t hrun).1
    · cases h

/-- A tree that was read from a source passes the check under a limit, or fails with one of the five
defects that the grammar leaves to the check or with the limit. -/
theorem check_of_parseTree (source : String) (o : Options) (tree : Node)
    (h : parseTree source o = .ok tree) (limit : Nat) :
    tree.check limit = .ok () ∨
      ∃ cause, tree.check limit = .error ⟨cause, .null⟩ ∧ Defect limit cause := by
  obtain ⟨items, rfl, hitems⟩ := parseTree_sourced h
  exact Node.check_of_sourced hitems limit

theorem check_of_emptyGroup :
    parseTree "var()" {} = .ok (.program [.declaration .var [] []]) ∧
      (Node.program [.declaration .var [] []]).check 256 =
        .error ⟨.invalidNode .declaration "declaration needs at least one identifier", .null⟩ ∧
      Defect 256 (.invalidNode .declaration "declaration needs at least one identifier") := by
  have hclose : Lexer.tokensFrom "shell" 4 false [')'] =
      .ok [⟨.closeParen, ")", 4, 5⟩, Token.lineBreak 5, Token.endOfInput 5] :=
    Lexer.tokensFrom_token (n := 0) rfl (Lexer.tokensFrom_nil "shell" 5 true)
  have hopen : Lexer.tokensFrom "shell" 3 false ['(', ')'] =
      .ok [⟨.openParen, "(", 3, 4⟩, ⟨.closeParen, ")", 4, 5⟩, Token.lineBreak 5,
        Token.endOfInput 5] := Lexer.tokensFrom_token (n := 0) rfl hclose
  have htokens : Lexer.tokensFrom "shell" 0 false ['v', 'a', 'r', '(', ')'] =
      .ok [⟨.varWord, "var", 0, 3⟩, ⟨.openParen, "(", 3, 4⟩, ⟨.closeParen, ")", 4, 5⟩,
        Token.lineBreak 5, Token.endOfInput 5] := Lexer.tokensFrom_token (n := 2) rfl hopen
  have hparse : parseTree "var()" {} = .ok (.program [.declaration .var [] []]) := by
    unfold parseTree
    rw [show tokenize "var()" "shell" = _ from htokens]
    rfl
  refine ⟨hparse, rfl, ?_⟩
  rcases check_of_parseTree "var()" {} _ hparse 256 with hok | ⟨cause, herror, hdefect⟩
  · cases hok
  · cases herror
    exact hdefect

end MiniGo
