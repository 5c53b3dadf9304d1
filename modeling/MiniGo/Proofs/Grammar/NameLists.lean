import MiniGo.Proofs.Grammar.Brackets
import MiniGo.Proofs.Grammar.Recovery.Expressions

/-!
Lists of names with the type behind them. A type belongs to all names since the type before it, so the
names that wait for one are either given the next type or left over at the end; what becomes of those
depends on where the list stands.
-/
namespace MiniGo.Grammar

/-- The tokens that may end a list of names where it stands. -/
def NameList.terminators : NameList → List TokenKind
  | .declaration => declarationEnd
  | .parameters => [.closeParen]
  | .structFields => [.semicolon, .closeCurly]

/-- Names, each with a comma behind it, stand between two states. -/
inductive Names : State → List String → State → Prop where
  | nil {s : State} : Names s [] s
  | cons {s t : State} {names : List String} (hname : s.current.kind = .identifier)
      (hcomma : s.next.current.kind = .comma) (h : Names s.next.next names t) :
      Names s (s.current.value :: names) t

/-- Some names with one type. -/
structure NameGroup where
  names : List String
  type : Node

def NameGroup.nodes (g : NameGroup) : List Node := g.names.map (Node.identifier · (some g.type))

/-- A list of names from one state up to a terminator at another: groups, each with a type that the rule
for types reads, and names without a type. A comma may stand behind the last of them, whether that is a
type or a name. -/
inductive Listing (below : Below) (c : Setting) (terminators : List TokenKind) :
    State → List NameGroup → List String → State → Prop where
  | names {s t : State} {names : List String} (hnames : Names s names t)
      (hend : t.current.kind ∈ terminators) : Listing below c terminators s [] names t
  | name {s t : State} {names : List String} (hnames : Names s names t)
      (hname : t.current.kind = .identifier) (hend : t.next.current.kind ∈ terminators) :
      Listing below c terminators s [] (names ++ [t.current.value]) t.next
  | group {s t u : State} {names : List String} {type : Node} (hnames : Names s names t)
      (hname : t.current.kind = .identifier) (htype : Rule.Runs (below .type) c t.next type u)
      (hend : u.current.kind ∈ terminators) :
      Listing below c terminators s [⟨names ++ [t.current.value], type⟩] [] u
  | cons {s t u z : State} {names : List String} {type : Node} {groups : List NameGroup}
      {untyped : List String} (hnames : Names s names t) (hname : t.current.kind = .identifier)
      (htype : Rule.Runs (below .type) c t.next type u) (hcomma : u.current.kind = .comma)
      (h : Listing below c terminators u.next groups untyped z) :
      Listing below c terminators s (⟨names ++ [t.current.value], type⟩ :: groups) untyped z

section Turns

variable {c : Setting} {below : Below} {terminators : List TokenKind} {s t : State} {type : Node}
  {ids : List Node} {pending : List String}

private theorem runs_nameTurn_end (hend : s.current.kind ∈ terminators) :
    Rule.Runs (nameTurn below terminators (ids, pending)) c s (.done (ids, pending)) s := by
  rw [nameTurn, runs_kind_bind, runs_ite]
  exact .inl ⟨List.contains_iff_mem.2 hend, runs_pure.2 ⟨rfl, rfl⟩⟩

private theorem runs_nameEnd_comma {found : List Node × List String} (hcomma : s.current.kind = .comma) :
    Rule.Runs (nameEnd found) c s (.more found) s.next := by
  rw [nameEnd, runs_kind_bind, if_pos hcomma, runs_advance_bind, runs_pure]
  exact ⟨rfl, rfl⟩

private theorem runs_nameEnd {found : List Node × List String} (hcomma : s.current.kind ≠ .comma) :
    Rule.Runs (nameEnd found) c s (.done found) s := by
  rw [nameEnd, runs_kind_bind, if_neg hcomma, runs_pure]
  exact ⟨rfl, rfl⟩

variable {x : Turn (List Node × List String)} (hterminators : EndsNames terminators)
  (hname : s.current.kind = .identifier)
include hterminators hname

theorem runs_nameTurn_name (hnext : s.next.current.kind = .comma ∨ s.next.current.kind ∈ terminators)
    (hx : Rule.Runs (nameEnd (ids, pending ++ [s.current.value])) c s.next x t) :
    Rule.Runs (nameTurn below terminators (ids, pending)) c s x t := by
  rw [nameTurn, runs_kind_bind, if_neg (hterminators.not_contains (by rw [hname]; rfl)),
    runs_expectOr_bind]
  refine ⟨hname, runs_kind_bind.2 ?_⟩
  rw [if_neg ?_]
  · exact hx
  · rw [Bool.and_eq_true, decide_eq_true_iff, Bool.not_eq_true', Bool.eq_false_iff]
    rintro ⟨hcomma, hend⟩
    rcases hnext with hnext | hnext
    · exact hcomma hnext
    · exact hend (List.contains_iff_mem.2 hnext)

theorem runs_nameTurn_type {u : State} (hstarts : (Table.standard.type s.next.current.kind).isSome)
    (htype : Rule.Runs (below .type) c s.next type u)
    (hx : Rule.Runs (nameEnd (ids ++ NameGroup.nodes ⟨pending ++ [s.current.value], type⟩, [])) c u x t) :
    Rule.Runs (nameTurn below terminators (ids, pending)) c s x t := by
  rw [nameTurn, runs_kind_bind, if_neg (hterminators.not_contains (by rw [hname]; rfl)),
    runs_expectOr_bind]
  refine ⟨hname, runs_kind_bind.2 ?_⟩
  rw [if_pos ?_]
  · exact runs_bind.2 ⟨_, u, htype, hx⟩
  · rw [Bool.and_eq_true, decide_eq_true_iff, Bool.not_eq_true', Bool.eq_false_iff]
    refine ⟨fun hcomma => ?_, hterminators.not_contains hstarts⟩
    rw [hcomma] at hstarts
    cases hstarts

end Turns

section Types

variable {v : Course} {s t : State} {levels : Nat} {type : Node}

theorem starts_of_runs_type (h : Rule.Runs (produce levels .type) v.setting s type t) :
    (Table.standard.type s.current.kind).isSome := by
  cases levels with
  | zero => exact absurd h nofun
  | succ levels =>
    obtain ⟨-, u, hbody, -⟩ := runs_nested.1 h
    unfold goalBody typeBody at hbody
    rw [runs_read_bind, runs_kind_bind, v.standard] at hbody
    cases hform : Table.standard.type s.current.kind with
    | none =>
      simp only [hform, not_runs_unexpected] at hbody
    | some form => rfl

private theorem advances_of_runs_type (hs : s.Within v)
    (h : Rule.Runs (produce levels .type) v.setting s type t) : ∃ w, v.Advances s w t := by
  obtain ⟨w, hst, -⟩ := ((produce_behaves v levels).type s).advances hs h
  exact ⟨w, hst⟩

end Types

section Lists

variable {v : Course} {levels : Nat} {terminators : List TokenKind} {s t : State} {names : List String}
  {groups : List NameGroup} {untyped : List String}

private theorem advances_name_comma (hs : s.Within v) (hname : s.current.kind = .identifier)
    (hcomma : s.next.current.kind = .comma) :
    v.Advances s ([s.current] ++ [s.next.current]) s.next.next := by
  have hnext := hs.advances_next (by rw [hname]; decide)
  exact hnext.trans ((hnext.within hs).advances_next (by rw [hcomma]; decide))

theorem Names.advances (h : Names s names t) (hs : s.Within v) : ∃ w, v.Advances s w t := by
  induction h with
  | nil => exact ⟨[], .refl v _⟩
  | cons hname hcomma _ ih =>
    have hname := advances_name_comma hs hname hcomma
    obtain ⟨w, hrest⟩ := ih (hname.within hs)
    exact ⟨_, hname.trans hrest⟩

private theorem advances_type_comma {type : Node} (hs : s.Within v) (hname : s.current.kind = .identifier)
    (htype : Rule.Runs (produce levels .type) v.setting s.next type t)
    (hcomma : t.current.kind = .comma) : ∃ w, v.Advances s ([s.current] ++ w) t.next := by
  have hnext := hs.advances_next (by rw [hname]; decide)
  obtain ⟨w, hst⟩ := advances_of_runs_type (hnext.within hs) htype
  have hcomma := (hst.within (hnext.within hs)).advances_next (by rw [hcomma]; decide)
  exact ⟨w ++ [t.current], hnext.trans (hst.trans hcomma)⟩

variable (hterminators : EndsNames terminators)
include hterminators

theorem Names.turns {below : Below} {ids : List Node} {pending : List String}
    {b : List Node × List String} {u : State} (h : Names s names t) (hs : s.Within v)
    (hrest : Turns (nameTurn below terminators) v.setting t (ids, pending ++ names) b u) :
    Turns (nameTurn below terminators) v.setting s (ids, pending) b u := by
  induction h generalizing pending with
  | nil => rwa [List.append_nil] at hrest
  | cons hname hcomma _ ih =>
    have hadvances := advances_name_comma hs hname hcomma
    refine .more (runs_nameTurn_name hterminators hname (.inl hcomma) (runs_nameEnd_comma hcomma))
      (hadvances.passes.length_lt (List.cons_ne_nil _ _)) (ih (hadvances.within hs) ?_)
    rwa [List.append_assoc]

/-- Every name is found once, in the order of the source, and those without a type are left over. -/
theorem Listing.turns (h : Listing (produce levels) v.setting terminators s groups untyped t)
    (hs : s.Within v) (ids : List Node) :
    Turns (nameTurn (produce levels) terminators) v.setting s (ids, [])
      (ids ++ groups.flatMap NameGroup.nodes, untyped) t := by
  -- Group by group: where one starts, no name waits for a type.
  induction h generalizing ids with
  | names hnames hend =>
    refine hnames.turns hterminators hs (.done ?_)
    rw [List.flatMap_nil, List.append_nil]
    exact runs_nameTurn_end hend
  | name hnames hname hend =>
    refine hnames.turns hterminators hs (.done ?_)
    rw [List.flatMap_nil, List.append_nil]
    exact runs_nameTurn_name hterminators hname (.inr hend) (runs_nameEnd (hterminators _ hend).1)
  | group hnames hname htype hend =>
    refine hnames.turns hterminators hs (.done ?_)
    rw [List.flatMap_singleton]
    exact runs_nameTurn_type hterminators hname (starts_of_runs_type htype) htype
      (runs_nameEnd (hterminators _ hend).1)
  | cons hnames hname htype hcomma _ ih =>
    obtain ⟨w, hst⟩ := hnames.advances hs
    obtain ⟨w', hgroup⟩ := advances_type_comma (hst.within hs) hname htype hcomma
    refine hnames.turns hterminators hs (.more (runs_nameTurn_type hterminators hname
      (starts_of_runs_type htype) htype (runs_nameEnd_comma hcomma))
      (hgroup.passes.length_lt (List.cons_ne_nil _ _)) ?_)
    rw [List.flatMap_cons, ← List.append_assoc]
    exact ih (hgroup.within (hst.within hs)) _

omit hterminators in
theorem Listing.nodes_ne_nil {below : Below} {c : Setting}
    (h : Listing below c terminators s groups untyped t) (hne : groups ≠ []) :
    groups.flatMap NameGroup.nodes ≠ [] := by
  cases h with
  | names | name => exact absurd rfl hne
  | group => simp [NameGroup.nodes]
  | cons => simp [NameGroup.nodes]

end Lists

theorem NameList.endsNames (list : NameList) : EndsNames list.terminators := by
  cases list <;> decide

section TypedNames

variable {c : Setting} {levels : Nat} {list : NameList} {s t : State} {groups : List NameGroup}
  {untyped : List String}

def namesEnd (list : NameList) : List Node × List String → Rule (List Node)
  | (ids, []) =>
    if ids.isEmpty && list ≠ .parameters then unexpected "expected identifier" else pure ids
  | (ids, name :: names) =>
    if list = .declaration then pure (ids ++ (name :: names).map Node.name)
    else fail (.missingType name)

theorem typedNames_eq (below : Below) (terminators : List TokenKind) (list : NameList) :
    typedNames below terminators list =
      loop ([], []) (nameTurn below terminators) >>= namesEnd list := by
  unfold typedNames
  congr 1
  funext ⟨ids, pending⟩
  cases pending <;> rfl

private theorem namesEnd_nil {ids : List Node} (h : ids ≠ [] ∨ list = .parameters) :
    namesEnd list (ids, []) = pure ids := by
  rw [namesEnd, if_neg]
  rcases h with h | h <;> simp [h]

/-- The rule for a list of names stops at its terminator. Every name has the type behind its group. Names
that are left over have none in a declaration, and elsewhere the first of them is reported at the
terminator. Only parameters may be missing altogether. -/
theorem typedNames_listing (hc : c.table = .standard) (hs : s.Ended)
    (h : Listing (produce levels) c list.terminators s groups untyped t) :
    let run := typedNames (produce levels) list.terminators list c s
    let typed := groups.flatMap NameGroup.nodes
    let place : Position := ⟨t.current.start, c.file⟩
    (list = .declaration → groups ≠ [] ∨ untyped ≠ [] →
        run = .ok (typed ++ untyped.map Node.name) t) ∧
      (list ≠ .declaration → untyped = [] → groups ≠ [] ∨ list = .parameters →
        run = .ok typed t) ∧
      (list ≠ .declaration → ∀ name ∈ untyped.head?, run = .error ⟨.missingType name, place⟩ t) ∧
      (list ≠ .parameters → groups = [] → untyped = [] →
        run = .error ⟨.unexpectedTokenDetailed t.current.describe "expected identifier", place⟩ t) := by
  intro run typed place
  let v : Course := ⟨c, hc, s.tokens⟩
  have hloop : Rule.Runs (loop ([], []) (nameTurn (produce levels) list.terminators)) c s
      (typed, untyped) t :=
    (h.turns (v := v) list.endsNames ⟨hs, fun _ hk => hk⟩ []).loop_runs
  have hrun : run = namesEnd list (typed, untyped) c t := by
    change typedNames _ _ _ c s = _
    rw [typedNames_eq, bind_apply, hloop]
  have htyped : groups ≠ [] → typed ≠ [] := h.nodes_ne_nil
  refine ⟨fun hlist hsome => ?_, fun hlist huntyped hsome => ?_, fun hlist name hname => ?_,
    fun hlist hgroups huntyped => ?_⟩
  · cases untyped with
    | nil =>
      rw [hrun, namesEnd_nil (.inl (htyped (hsome.resolve_right (absurd rfl)))), List.map_nil,
        List.append_nil]
      rfl
    | cons name names =>
      rw [hrun, namesEnd, if_pos hlist]
      rfl
  · rw [hrun, huntyped, namesEnd_nil (hsome.imp_left htyped)]
    rfl
  · obtain ⟨names, rfl⟩ := List.head?_eq_some_iff.1 hname
    rw [hrun, namesEnd, if_neg hlist]
    rfl
  · subst hgroups huntyped
    rw [hrun, namesEnd, if_pos (by simpa [typed] using hlist)]
    rfl

def someTyped : List Token := [⟨.identifier, "a", 0, 1⟩, ⟨.comma, ",", 1, 2⟩, ⟨.identifier, "b", 3, 4⟩,
  ⟨.identifier, "number", 5, 11⟩, ⟨.comma, ",", 11, 12⟩, ⟨.identifier, "c", 13, 14⟩]

theorem typedNames_someTyped :
    let c : Setting := ⟨"shell", 4, .standard⟩
    let semicolon : Token := ⟨.semicolon, ";", 14, 15⟩
    let s := State.ofTokens (someTyped ++ [semicolon])
    let t : State := ⟨someTyped.reverse, semicolon, [Token.endOfInput 15], 0, 1, true⟩
    typedNames (produce 4) declarationEnd .declaration c s =
        .ok [.identifier "a" (some (.basicType .number)), .identifier "b" (some (.basicType .number)),
          .identifier "c" none] t ∧
      typedNames (produce 4) [.semicolon, .closeCurly] .structFields c s =
        .error ⟨.missingType "c", ⟨14, "shell"⟩⟩ t := by
  intro c semicolon s t
  have hlisting : ∀ list : NameList, .semicolon ∈ list.terminators →
      Listing (produce 4) c list.terminators s [⟨["a", "b"], .basicType .number⟩] ["c"] t :=
    fun list hmem => .cons (.cons rfl rfl .nil) rfl rfl rfl (.name .nil rfl hmem)
  have hs : s.Ended := State.ended_ofTokens _
  have hdeclaration := (typedNames_listing rfl hs (hlisting .declaration (by decide))).1
  have hfields := (typedNames_listing rfl hs (hlisting .structFields (by decide))).2.2.1
  exact ⟨hdeclaration rfl (.inr (List.cons_ne_nil _ _)), hfields nofun "c" rfl⟩

end TypedNames

end MiniGo.Grammar
