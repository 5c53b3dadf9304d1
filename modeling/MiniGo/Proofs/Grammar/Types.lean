import MiniGo.FrontEnd
import MiniGo.Proofs.Grammar.Limit.Threshold
import MiniGo.Proofs.Grammar.Recovery.Statements
import MiniGo.Proofs.Token.Lexeme

/-!
The types that the rule for types can yield, said of the trees alone. Each of them is read from its
canonical tokens, in front of whatever cannot go on with a type, and on the tokens of a source the rule
yields no others.
-/
namespace MiniGo

open Grammar

/-- An identifier that is no reserved word. -/
structure IsName (s : String) : Prop where
  word : Lexer.IsWord s.toList
  free : reserved? s = none

/-- The types that can be written. Types nest without parentheses, and a two-way channel of channels to
receive from would be read as a channel to send to. -/
inductive Expressible : Node → Prop where
  | basicType {b : BasicType} : Expressible (.basicType b)
  | customType {s : String} (hname : IsName s) (hbasic : BasicType.ofName? s = none) :
      Expressible (.customType s)
  | sliceType {element : Node} (h : Expressible element) : Expressible (.sliceType element)
  | arrayType {element : Node} {size : UInt64} (h : Expressible element) :
      Expressible (.arrayType element size)
  | chanType {direction : Direction} {element : Node} (h : Expressible element)
      (hboth : direction = .both → ∀ e, element ≠ .chanType .receive e) :
      Expressible (.chanType direction element)
  | procedureType {params : List Node} (hparams : ∀ n ∈ params, Expressible n) :
      Expressible (.functionType (.tupleType params) .voidType)
  | functionType {params : List Node} {result : Node} (hparams : ∀ n ∈ params, Expressible n)
      (hresult : Expressible result) : Expressible (.functionType (.tupleType params) result)
  | functionsType {params results : List Node} (hparams : ∀ n ∈ params, Expressible n)
      (hresults : ∀ n ∈ results, Expressible n) :
      Expressible (.functionType (.tupleType params) (.tupleType results))
  | structType {fields : List (String × Node)} (hnames : ∀ f ∈ fields, IsName f.1)
      (htypes : ∀ f ∈ fields, Expressible f.2) :
      Expressible (.structType (fields.map fun f => .structElement (.identifier f.1 (some f.2))))

namespace Grammar

section Written

variable {spelled : Prop} {p : Phrase} {n : Node}

theorem exists_levels {ns : List Node} (h : ∀ n ∈ ns, ∃ r, Parsed spelled r p n) :
    ∃ r, ∀ n ∈ ns, Parsed spelled r p n := by
  induction ns with
  | nil => exact ⟨0, List.forall_mem_nil _⟩
  | cons n ns ih =>
    obtain ⟨⟨r, hn⟩, hrest⟩ := List.forall_mem_cons.1 h
    obtain ⟨r', hns⟩ := ih hrest
    refine ⟨max r r', List.forall_mem_cons.2 ⟨hn.mono (Nat.le_max_left r r'), fun m hm => ?_⟩⟩
    exact (hns m hm).mono (Nat.le_max_right r r')

theorem exists_parsed_of_expressible (h : Expressible n) : ∃ r, Parsed spelled r .type n := by
  induction h with
  | basicType => exact ⟨1, .basicType⟩
  | customType _ hbasic => exact ⟨1, .customType hbasic⟩
  | sliceType _ ih =>
    obtain ⟨r, hr⟩ := ih
    exact ⟨r + 1, .sliceType hr⟩
  | arrayType _ ih =>
    obtain ⟨r, hr⟩ := ih
    exact ⟨r + 1, .arrayType hr⟩
  | chanType _ hboth ih =>
    obtain ⟨r, hr⟩ := ih
    exact ⟨r + 1, .chanType hr hboth⟩
  | procedureType _ ih =>
    obtain ⟨r, hr⟩ := exists_levels ih
    exact ⟨r + 1, .procedureType hr⟩
  | functionType _ _ ihparams ihresult =>
    obtain ⟨r, hr⟩ := exists_levels ihparams
    obtain ⟨r', hr'⟩ := ihresult
    refine ⟨max r r' + 1, .functionType (fun n hn => ?_) (.resultType ?_)⟩
    · exact (hr n hn).mono (Nat.le_max_left r r')
    · exact hr'.mono (Nat.le_max_right r r')
  | functionsType _ _ ihparams ihresults =>
    obtain ⟨r, hr⟩ := exists_levels ihparams
    obtain ⟨r', hr'⟩ := exists_levels ihresults
    refine ⟨max r r' + 1, .functionType (fun n hn => ?_) (.resultTypes fun n hn => ?_)⟩
    · exact (hr n hn).mono (Nat.le_max_left r r')
    · exact (hr' n hn).mono (Nat.le_max_right r r')
  | @structType fields _ _ ih =>
    have htypes : ∀ n ∈ fields.map Prod.snd, ∃ r, Parsed spelled r .type n :=
      List.forall_mem_map.2 ih
    obtain ⟨r, hr⟩ := exists_levels htypes
    have hnames : ∀ n ∈ fields.map fun f => Node.identifier f.1 (some f.2),
        Parsed spelled (r + 1) .typedName n :=
      List.forall_mem_map.2 fun f hf => .typed (hr f.2 (List.mem_map_of_mem hf))
    have hstruct := Parsed.structType hnames
    rw [List.map_map] at hstruct
    exact ⟨r + 1, hstruct⟩

end Written

section Printed

variable {r : Nat} {n : Node} {k : Token} {rest : List Token} {s : State}

/-- Where a run comes to one result or fails by the limit under every limit, and to the same under all
limits that are large enough, it comes to that result under all of these. -/
theorem type_runs_print (h : Parsed True r .type n) (numerals : Numerals) (file : String)
    (hs : s.Ended) (hdepth : s.depth ≤ s.peak) (htokens : s.tokens = n.print numerals ++ k :: rest)
    (hk : EndsType k.kind) :
    ∃ threshold, ∀ limit, threshold ≤ limit →
      ∃ t, Rule.Runs type ⟨file, limit, .standard⟩ s n t ∧ t.tokens = k :: rest := by
  obtain ⟨init, last, hsplit⟩ : ∃ init last, k :: rest = init ++ [last] :=
    ⟨_, _, (List.dropLast_concat_getLast (List.cons_ne_nil k rest)).symm⟩
  have hlast : last.kind = .eof := by
    unfold State.Ended at hs
    rw [htokens, hsplit, ← List.append_assoc, List.getLast?_concat] at hs
    exact Option.some.inj hs
  have hend : EndsType (headKind init) := by
    cases init with
    | nil =>
      obtain rfl : k = last := (List.cons.inj hsplit).1
      rwa [hlast] at hk
    | cons l init =>
      obtain rfl : k = l := (List.cons.inj hsplit).1
      exact hk
  have hread : ∀ limit, (∃ t, Rule.Runs type ⟨file, limit, .standard⟩ s n t ∧ t.tokens = k :: rest) ∨
      ∃ l place t, type ⟨file, limit, .standard⟩ s = .error ⟨.limitExceeded l, place⟩ t := by
    intro limit
    let c : Reader := ⟨⟨file, limit, .standard⟩, last, rfl, hlast⟩
    have hrecovers : Recovers c s.structLiterals (produce (limit - s.depth) .type)
        (Print.node numerals false n ++ init) n init :=
      (goals_recover c numerals (limit - s.depth)).type h hend
    have htokens' : s.tokens = Print.node numerals false n ++ init ++ [c.last] := by
      rw [List.append_assoc, ← hsplit]
      exact htokens
    rcases hrecovers s htokens' rfl with ⟨t, hrun, ht, -⟩ | herror
    · exact .inl ⟨t, hrun, ht.trans hsplit.symm⟩
    · exact .inr herror
  let terms : Terms := ⟨file, False, s.peak + s.later.length + 1⟩
  have hsound : s.Sound terms := ⟨hs, False.elim, hdepth, Nat.le_succ _⟩
  have haffords : s.Affords terms s.depth Goal.type.cost := by
    refine ⟨rfl, ?_⟩
    simp only [terms, Goal.cost]
    omega
  cases goals_settle terms s.depth .type s haffords hsound with
  | ok a t hrun =>
    refine ⟨t.peak, fun limit hlimit => ?_⟩
    rcases hread limit with hok | ⟨l, place, u, herror⟩
    · exact hok
    · cases herror.symm.trans (hrun.within limit hlimit)
  | error e t p hrun _ _ he =>
    rcases hread p with ⟨u, hok, -⟩ | ⟨l, place, u, herror⟩
    · cases hok.symm.trans (hrun.within p (Nat.le_refl p))
    · cases herror.symm.trans (hrun.within p (Nat.le_refl p))
      exact absurd rfl (he l)

theorem State.tokens_ofTokens_append (w : List Token) (k : Token) (rest : List Token) :
    (State.ofTokens (w ++ k :: rest)).tokens = w ++ (State.ofTokens (k :: rest)).tokens := by
  have hlast : (w ++ k :: rest).getLast? = some (rest.getLast?.getD k) := by
    rw [List.getLast?_append, List.getLast?_cons]
    rfl
  unfold State.ofTokens
  rw [hlast, List.getLast?_cons]
  by_cases heof : (rest.getLast?.getD k).kind = .eof <;> cases w <;> simp [heof, State.tokens]

/-- A type is read from its canonical tokens, up to whatever cannot go on with it. -/
theorem type_runs_expressible (h : Expressible n) (numerals : Numerals) (file : String)
    (hk : EndsType k.kind) :
    ∃ threshold, ∀ limit, threshold ≤ limit →
      ∃ t, Rule.Runs type ⟨file, limit, .standard⟩ (.ofTokens (n.print numerals ++ k :: rest)) n t ∧
        t.tokens = (State.ofTokens (k :: rest)).tokens := by
  obtain ⟨r, hparsed⟩ : ∃ r, Parsed True r .type n := exists_parsed_of_expressible h
  have hdepth : (State.ofTokens (n.print numerals ++ k :: rest)).depth = 0 := State.depth_ofTokens _
  have htokens := State.tokens_ofTokens_append (n.print numerals) k rest
  obtain ⟨rest', hrest⟩ : ∃ rest', (State.ofTokens (k :: rest)).tokens = k :: rest' := by
    rcases State.tokens_ofTokens (k :: rest) with heq | ⟨offset, heq⟩
    · exact ⟨rest, heq⟩
    · exact ⟨rest ++ [Token.endOfInput offset], heq⟩
  rw [hrest] at htokens ⊢
  exact type_runs_print hparsed numerals file (State.ended_ofTokens _) (hdepth ▸ Nat.zero_le _) htokens hk

end Printed

section Names

variable {c : Char} {cs : List Char} {n : Nat}

private theorem reserved?_ne_identifier (word : String) : reserved? word ≠ some .identifier := by
  intro h
  have hall : ∀ p ∈ reservedWords, p.2 ≠ .identifier := by decide
  obtain ⟨before, after, hwords, -⟩ := List.lookup_eq_some_iff.1 h
  refine hall (word, .identifier) ?_ rfl
  rw [hwords]
  exact List.mem_append_right before List.mem_cons_self

private theorem operator?_ne_identifier (c : Char) (next : Option Char) :
    ∀ p ∈ Lexer.operator? c next, p.1 ≠ .identifier := by
  unfold Lexer.operator?
  repeat' apply Lexer.forall_mem_ite
  all_goals decide

theorem isName_of_piece {value : String} (h : Lexer.piece c cs = .ok (.token .identifier value, n)) :
    IsName value := by
  have hcut := Lexer.cut_of_piece h
  generalize hrole : Lexer.Role.token .identifier value = role at hcut
  cases hcut with
  | word hc =>
    obtain ⟨hkind, rfl⟩ := Lexer.Role.token.inj hrole
    cases hword : reserved? (String.ofList (c :: cs.takeWhile Lexer.isWordPart)) with
    | some kind =>
      rw [hword] at hkind
      exact absurd (hword.trans (congrArg some hkind.symm)) (reserved?_ne_identifier _)
    | none =>
      refine ⟨⟨c, cs.takeWhile Lexer.isWordPart, String.toList_ofList, hc, fun d hd => ?_⟩, hword⟩
      exact Lexer.mem_takeWhile hd
  | operator _ _ _ hop =>
    obtain ⟨hkind, rfl⟩ := Lexer.Role.token.inj hrole
    exact absurd hkind.symm (operator?_ne_identifier _ _ _ hop)
  | _ => cases hrole

theorem names_of_tokenize {source file : String} {tokens : List Token}
    (h : tokenize source file = .ok tokens) : ∀ t ∈ tokens, t.kind = .identifier → IsName t.value := by
  refine Lexer.forall_mem_of_tokensFrom h (fun c cs kind value n start stop hpiece => ?_)
    (fun _ => nofun) fun _ => nofun
  rintro rfl
  exact isName_of_piece hpiece

end Names

def State.Named (s : State) : Prop := ∀ k ∈ s.tokens, k.kind = .identifier → IsName k.value

def YieldsExpressible (c : Setting) (below : Below) : Prop :=
  ∀ s n t, s.Named → Rule.Runs (below .type) c s n t →
    (Expressible n ∧ Opens s.current.kind n) ∧ t.Named

section Image

variable {c : Setting} {below : Below} {s t : State} {n : Node}

theorem State.Named.next (hs : s.Named) : s.next.Named := by
  unfold State.next
  cases hl : s.later with
  | nil => exact hs
  | cons k ks =>
    intro l hmem
    refine hs l ?_
    rw [State.tokens, hl]
    exact List.mem_cons_of_mem _ hmem

theorem State.Named.current (hs : s.Named) (hk : s.current.kind = .identifier) :
    IsName s.current.value := hs _ List.mem_cons_self hk

variable (hb : YieldsExpressible c below)
include hb

theorem typeList_expressible {ns : List Node} (hs : s.Named)
    (h : Rule.Runs (typeList below) c s ns t) : (∀ n ∈ ns, Expressible n) ∧ t.Named := by
  rw [typeList, separated_eq, many_eq] at h
  refine loop_invariant (I := fun ns s => (∀ n ∈ ns, Expressible n) ∧ s.Named) ?_ ?_ h
    ⟨List.forall_mem_nil _, hs⟩
  · rintro found s ns t ⟨hfound, hs⟩ h
    simp only [runs_manyTurn, runs_separatedItem_some, Turn.more.injEq, reduceCtorEq, and_false,
      or_false] at h
    obtain ⟨n, ⟨-, u, hn, hcase⟩, rfl⟩ := h
    obtain ⟨⟨hn, -⟩, hu⟩ := hb s n u hs hn
    refine ⟨List.forall_mem_append.2 ⟨hfound, List.forall_mem_singleton.2 hn⟩, ?_⟩
    rcases hcase with ⟨-, rfl⟩ | ⟨-, -, rfl⟩
    · exact hu
    · exact hu.next
  · rintro found s ns t ⟨hfound, hs⟩ h
    simp only [runs_manyTurn, runs_separatedItem_none, Turn.done.injEq, reduceCtorEq, and_false,
      exists_false, false_or] at h
    obtain ⟨⟨-, rfl⟩, rfl⟩ := h
    exact ⟨hfound, hs⟩

omit hb in
theorem namedType_expressible (hs : s.Named) (h : Rule.Runs namedType c s n t) :
    (Expressible n ∧ ∀ e, n ≠ .chanType .receive e) ∧ t.Named := by
  rw [namedType, runs_expect_bind] at h
  obtain ⟨hk, h⟩ := h
  split at h
  · obtain ⟨rfl, rfl⟩ := runs_pure.1 h
    exact ⟨⟨.basicType, nofun⟩, hs.next⟩
  · rename_i hbasic
    obtain ⟨rfl, rfl⟩ := runs_pure.1 h
    exact ⟨⟨.customType (hs.current hk) hbasic, nofun⟩, hs.next⟩

theorem element_expressible {g : Node → Node} (hs : s.Named)
    (h : Rule.Runs (do return g (← below .type)) c s n t) :
    ∃ element, n = g element ∧ Expressible element ∧ Opens s.current.kind element ∧ t.Named := by
  obtain ⟨element, u, helement, h⟩ := runs_bind.1 h
  obtain ⟨rfl, rfl⟩ := runs_pure.1 h
  obtain ⟨⟨helement, hopens⟩, hu⟩ := hb s element _ hs helement
  exact ⟨element, rfl, helement, hopens, hu⟩

theorem arrayType_expressible (hs : s.Named) (h : Rule.Runs (arrayType below) c s n t) :
    (Expressible n ∧ ∀ e, n ≠ .chanType .receive e) ∧ t.Named := by
  simp only [arrayType, runs_expect_bind, runs_kind_bind, runs_ite, runs_advance_bind] at h
  obtain ⟨-, ⟨-, h⟩ | ⟨-, h⟩⟩ := h
  · obtain ⟨element, rfl, helement, -, ht⟩ := element_expressible hb hs.next.next h
    exact ⟨⟨.sliceType helement, by simp⟩, ht⟩
  · split at h
    · exact absurd h not_runs_failAt
    · obtain ⟨-, h⟩ := runs_expectOr_bind.1 h
      obtain ⟨element, rfl, helement, -, ht⟩ := element_expressible hb hs.next.next.next h
      exact ⟨⟨.arrayType helement, by simp⟩, ht⟩

theorem chanType_expressible (hs : s.Named) (h : Rule.Runs (chanType below) c s n t) :
    (Expressible n ∧ ∀ e, n ≠ .chanType .receive e) ∧ t.Named := by
  simp only [chanType, runs_expect_bind, runs_kind_bind, runs_ite, runs_advance_bind] at h
  obtain ⟨-, ⟨-, h⟩ | ⟨harrow, h⟩⟩ := h
  · obtain ⟨element, rfl, helement, -, ht⟩ := element_expressible hb hs.next.next h
    exact ⟨⟨.chanType helement (by simp), by simp⟩, ht⟩
  · obtain ⟨element, rfl, helement, hopens, ht⟩ := element_expressible hb hs.next h
    exact ⟨⟨.chanType helement fun _ e he => harrow (hopens e he), by simp⟩, ht⟩

theorem receiveChanType_expressible (hs : s.Named) (h : Rule.Runs (receiveChanType below) c s n t) :
    (Expressible n ∧ Opens s.current.kind n) ∧ t.Named := by
  simp only [receiveChanType, runs_expect_bind, runs_expectOr_bind] at h
  obtain ⟨hk, -, h⟩ := h
  obtain ⟨element, rfl, helement, -, ht⟩ := element_expressible hb hs.next.next h
  exact ⟨⟨.chanType helement (by simp), fun _ _ => hk⟩, ht⟩

theorem functionType_expressible (hs : s.Named) (h : Rule.Runs (functionType below) c s n t) :
    (Expressible n ∧ ∀ e, n ≠ .chanType .receive e) ∧ t.Named := by
  simp only [functionType, startsResultType, runs_expect_bind, runs_expectOr_bind] at h
  obtain ⟨-, -, h⟩ := h
  obtain ⟨params, u, hparams, h⟩ := runs_bind.1 h
  obtain ⟨hparams, hu⟩ := typeList_expressible hb hs.next.next hparams
  simp only [runs_expect_bind, bind_assoc, runs_kind_bind, runs_read_bind, pure_bind, runs_ite,
    runs_pure] at h
  obtain ⟨-, ⟨-, h⟩ | ⟨-, rfl, rfl⟩⟩ := h
  · obtain ⟨result, z, hresult, h⟩ := runs_bind.1 h
    obtain ⟨rfl, rfl⟩ := runs_pure.1 h
    simp only [resultType, runs_kind_bind, runs_ite, runs_advance_bind] at hresult
    rcases hresult with ⟨-, hresult⟩ | ⟨-, hresult⟩
    · obtain ⟨results, y, hresults, h⟩ := runs_bind.1 hresult
      obtain ⟨-, h⟩ := runs_expectOr_bind.1 h
      obtain ⟨rfl, rfl⟩ := runs_pure.1 h
      obtain ⟨hresults, hy⟩ := typeList_expressible hb hu.next.next hresults
      exact ⟨⟨.functionsType hparams hresults, by simp⟩, hy.next⟩
    · obtain ⟨⟨hresult, -⟩, hz⟩ := hb _ _ _ hu.next hresult
      exact ⟨⟨.functionType hparams hresult, by simp⟩, hz⟩
  · exact ⟨⟨.procedureType hparams, by simp⟩, hu.next⟩

structure FieldsNamed (found : List Node × List String) : Prop where
  typed : ∃ fields : List (String × Node), found.1 = fields.map (fun f => .identifier f.1 (some f.2)) ∧
    (∀ f ∈ fields, IsName f.1) ∧ ∀ f ∈ fields, Expressible f.2
  pending : ∀ v ∈ found.2, IsName v

theorem nameTurn_named {terminators : List TokenKind} {found found' : List Node × List String}
    {x : Turn (List Node × List String)} (hfound : FieldsNamed found) (hs : s.Named)
    (hx : x = .more found' ∨ x = .done found')
    (h : Rule.Runs (nameTurn below terminators found) c s x t) : FieldsNamed found' ∧ t.Named := by
  obtain ⟨ids, pending⟩ := found
  obtain ⟨⟨fields, rfl, hnames, htypes⟩, hpending⟩ := hfound
  have hend : ∀ {found u}, FieldsNamed found → u.Named → Rule.Runs (nameEnd found) c u x t →
      FieldsNamed found' ∧ t.Named := by
    intro found u hfound hu h
    simp only [nameEnd, runs_kind_bind, runs_ite, runs_advance_bind, runs_pure] at h
    rcases h with ⟨-, rfl, rfl⟩ | ⟨-, rfl, rfl⟩ <;> rcases hx with hx | hx <;> cases hx
    · exact ⟨hfound, hu.next⟩
    · exact ⟨hfound, hu⟩
  simp only [nameTurn, runs_kind_bind, runs_ite, runs_pure] at h
  rcases h with ⟨-, rfl, rfl⟩ | ⟨-, h⟩
  · rcases hx with hx | hx <;> cases hx
    exact ⟨⟨⟨fields, rfl, hnames, htypes⟩, hpending⟩, hs⟩
  · rw [runs_expectOr_bind, runs_kind_bind] at h
    obtain ⟨hk, h⟩ := h
    have hwaiting : ∀ v ∈ pending ++ [s.current.value], IsName v :=
      List.forall_mem_append.2 ⟨hpending, List.forall_mem_singleton.2 (hs.current hk)⟩
    split at h
    · obtain ⟨type, u, htype, h⟩ := runs_bind.1 h
      obtain ⟨⟨htype, -⟩, hu⟩ := hb _ _ _ hs.next htype
      refine hend (u := u) ⟨⟨fields ++ (pending ++ [s.current.value]).map (·, type), ?_, ?_, ?_⟩,
        List.forall_mem_nil _⟩ hu h
      · simp only [List.map_append, List.map_map]
        rfl
      · exact List.forall_mem_append.2 ⟨hnames, List.forall_mem_map.2 hwaiting⟩
      · exact List.forall_mem_append.2 ⟨htypes, List.forall_mem_map.2 fun _ _ => htype⟩
    · exact hend (u := s.next) ⟨⟨fields, rfl, hnames, htypes⟩, hwaiting⟩ hs.next h

theorem typedNames_named {terminators : List TokenKind} {list : NameList} {ns : List Node}
    (hlist : list ≠ .declaration) (hs : s.Named)
    (h : Rule.Runs (typedNames below terminators list) c s ns t) : FieldsNamed (ns, []) ∧ t.Named := by
  obtain ⟨⟨ids, pending⟩, u, hloop, h⟩ := runs_bind.1 h
  obtain ⟨hfound, hu⟩ : FieldsNamed (ids, pending) ∧ u.Named := by
    refine loop_invariant (I := fun found s => FieldsNamed found ∧ s.Named) ?_ ?_ hloop
      ⟨⟨⟨[], rfl, List.forall_mem_nil _, List.forall_mem_nil _⟩, List.forall_mem_nil _⟩, hs⟩
    · rintro found s found' t ⟨hfound, hs⟩ h
      exact nameTurn_named hb hfound hs (.inl rfl) h
    · rintro found s found' t ⟨hfound, hs⟩ h
      exact nameTurn_named hb hfound hs (.inr rfl) h
  cases pending with
  | nil =>
    simp only [runs_ite, not_runs_unexpected, and_false, false_or, runs_pure] at h
    obtain ⟨-, rfl, rfl⟩ := h
    exact ⟨hfound, hu⟩
  | cons untyped pending =>
    simp only [if_neg hlist, not_runs_fail] at h

omit hb in
theorem skipSemicolons_named (hs : s.Named) {i : Unit} (h : Rule.Runs skipSemicolons c s i t) :
    t.Named := by
  refine loop_invariant (I := fun _ s => s.Named) ?_ ?_ h hs
  all_goals
    rintro _ s _ t hs h
    simp only [runs_kind_bind, runs_ite, runs_advance_bind, runs_pure] at h
    rcases h with ⟨-, -, rfl⟩ | ⟨-, -, rfl⟩
    · exact hs.next
    · exact hs

omit hb in
theorem FieldsNamed.append {ids names : List Node} (hids : FieldsNamed (ids, []))
    (hnames : FieldsNamed (names, [])) : FieldsNamed (ids ++ names, []) := by
  obtain ⟨⟨fields, rfl, hfields, htypes⟩, -⟩ := hids
  obtain ⟨⟨fields', rfl, hfields', htypes'⟩, -⟩ := hnames
  refine ⟨⟨fields ++ fields', ?_, ?_, ?_⟩, List.forall_mem_nil _⟩
  · exact List.map_append.symm
  · exact List.forall_mem_append.2 ⟨hfields, hfields'⟩
  · exact List.forall_mem_append.2 ⟨htypes, htypes'⟩

theorem fieldLine_named {line : Option (List Node)} (hs : s.Named)
    (h : Rule.Runs
      (do
        skipSemicolons
        if (← kind) = .closeCurly then return none
        else
          let fields ← typedNames below [.semicolon, .closeCurly] .structFields
          if (← kind) = .closeCurly then return some fields
          else
            let _ ← expectOr .semicolon "expected `;` or newline"
            return some fields) c s line t) :
    (∀ names ∈ line, FieldsNamed (names, [])) ∧ t.Named := by
  obtain ⟨_, u, hskip, h⟩ := runs_bind.1 h
  have hu := skipSemicolons_named hs hskip
  simp only [runs_kind_bind, runs_ite, runs_pure] at h
  rcases h with ⟨-, rfl, rfl⟩ | ⟨-, h⟩
  · exact ⟨by simp, hu⟩
  · obtain ⟨names, z, hrun, h⟩ := runs_bind.1 h
    obtain ⟨hnames, hz⟩ := typedNames_named hb (by decide) hu hrun
    simp only [runs_kind_bind, runs_ite, runs_expectOr_bind, runs_pure] at h
    rcases h with ⟨-, rfl, rfl⟩ | ⟨-, -, rfl, rfl⟩
    · exact ⟨forall_mem_some hnames, hz⟩
    · exact ⟨forall_mem_some hnames, hz.next⟩

theorem structType_expressible (hs : s.Named) (h : Rule.Runs (structType below) c s n t) :
    (Expressible n ∧ ∀ e, n ≠ .chanType .receive e) ∧ t.Named := by
  simp only [structType, runs_expect_bind, runs_expectOr_bind] at h
  obtain ⟨-, -, h⟩ := h
  obtain ⟨groups, u, hgroups, h⟩ := runs_bind.1 h
  obtain ⟨-, h⟩ := runs_expect_bind.1 h
  obtain ⟨rfl, rfl⟩ := runs_pure.1 h
  rw [many_eq] at hgroups
  obtain ⟨⟨⟨fields, hfields, hnames, htypes⟩, -⟩, hu⟩ : FieldsNamed (groups.flatten, []) ∧ u.Named := by
    refine loop_invariant (I := fun groups s => FieldsNamed (groups.flatten, []) ∧ s.Named) ?_ ?_ hgroups
      ⟨⟨⟨[], rfl, List.forall_mem_nil _, List.forall_mem_nil _⟩, List.forall_mem_nil _⟩, hs.next.next⟩
    · rintro groups s _ t ⟨hgroups, hs⟩ h
      simp only [runs_manyTurn, Turn.more.injEq, reduceCtorEq, and_false, or_false] at h
      obtain ⟨names, h, rfl⟩ := h
      obtain ⟨hline, ht⟩ := fieldLine_named hb hs h
      rw [List.flatten_append, List.flatten_singleton]
      exact ⟨hgroups.append (hline names rfl), ht⟩
    · rintro groups s _ t ⟨hgroups, hs⟩ h
      simp only [runs_manyTurn, Turn.done.injEq, reduceCtorEq, and_false, exists_false, false_or] at h
      obtain ⟨h, rfl⟩ := h
      exact ⟨hgroups, (fieldLine_named hb hs h).2⟩
  have hfields : groups.flatten = _ := hfields
  rw [hfields, List.map_map]
  exact ⟨⟨.structType hnames htypes, by simp⟩, hu.next⟩

theorem typeBody_expressible (hs : s.Named) (h : Rule.Runs (typeBody below) c s n t) :
    (Expressible n ∧ Opens s.current.kind n) ∧ t.Named := by
  have hother : (Expressible n ∧ ∀ e, n ≠ .chanType .receive e) ∧ t.Named →
      (Expressible n ∧ Opens s.current.kind n) ∧ t.Named :=
    fun ⟨⟨hn, hne⟩, ht⟩ => ⟨⟨hn, fun e he => absurd he (hne e)⟩, ht⟩
  rw [typeBody, runs_read_bind, runs_kind_bind] at h
  split at h
  · rename_i form _
    cases form with
    | named => exact hother (namedType_expressible hs h)
    | array => exact hother (arrayType_expressible hb hs h)
    | chan => exact hother (chanType_expressible hb hs h)
    | receiveChan => exact receiveChanType_expressible hb hs h
    | function => exact hother (functionType_expressible hb hs h)
    | struct => exact hother (structType_expressible hb hs h)
  · exact absurd h not_runs_unexpected

omit hb in
/-- No tree is too deep: with more levels below, the rules yield deeper types. -/
theorem produce_expressible (c : Setting) (levels : Nat) : YieldsExpressible c (produce levels) := by
  induction levels with
  | zero =>
    intro s n t _ h
    exact absurd h nofun
  | succ levels ih =>
    intro s n t hs h
    obtain ⟨-, u, hbody, rfl⟩ := runs_nested.1 h
    let deeper : State := { s with depth := s.depth + 1, peak := max s.peak (s.depth + 1) }
    exact typeBody_expressible ih (s := deeper) (t := u) hs hbody

end Image

end Grammar

/-- The rule for types reads exactly the types that can be written. Each of them is read from its canonical
tokens, up to any token that can neither start a type nor open a parenthesis, under every limit that is large
enough; and wherever the rule stands in the tokens of a source, it yields no other types. -/
theorem type_reads_exactly_expressible (numerals : Numerals) (file : String) :
    (∀ n, Expressible n → ∀ k rest, EndsType k.kind → ∃ threshold, ∀ limit, threshold ≤ limit →
      ∃ t, Rule.Runs type ⟨file, limit, .standard⟩ (.ofTokens (n.print numerals ++ k :: rest)) n t ∧
        t.tokens = (State.ofTokens (k :: rest)).tokens) ∧
    ∀ source tokens, tokenize source file = .ok tokens → ∀ limit s n t, s.tokens <:+ tokens →
      Rule.Runs type ⟨file, limit, .standard⟩ s n t → Expressible n := by
  refine ⟨fun n h k rest hk => type_runs_expressible h numerals file hk, ?_⟩
  intro source tokens htokens limit s n t hsuffix hrun
  have hnamed : s.Named := fun k hk => names_of_tokenize htokens k (hsuffix.mem hk)
  exact (produce_expressible _ (limit - s.depth) s n t hnamed hrun).1.1

theorem runs_type {c : Setting} {s t : State} {n : Node} :
    Rule.Runs type c s n t ↔ Rule.Runs (produce (c.limit - s.depth) .type) c s n t := Iff.rfl

theorem type_reads_exactly_expressible_function :
    let T : Node := .customType "T"
    let n : Node := .functionType (.tupleType [.chanType .send T]) (.sliceType T)
    let tokens : List Token := [⟨.funcWord, "func", 0, 4⟩, ⟨.openParen, "(", 4, 5⟩,
      ⟨.chanWord, "chan", 5, 9⟩, ⟨.arrow, "<-", 9, 11⟩, ⟨.identifier, "T", 11, 12⟩,
      ⟨.closeParen, ")", 12, 13⟩, ⟨.openBracket, "[", 13, 14⟩, ⟨.closeBracket, "]", 14, 15⟩,
      ⟨.identifier, "T", 15, 16⟩, Token.lineBreak 16, Token.endOfInput 16]
    let comma : Token := ⟨.comma, ",", 0, 1⟩
    (Expressible n ∧ EndsType comma.kind ∧ ∃ threshold, ∀ limit, threshold ≤ limit →
      ∃ t, Rule.Runs type ⟨"shell", limit, .standard⟩ (.ofTokens (n.print .chosen ++ [comma])) n t ∧
        t.tokens = (State.ofTokens [comma]).tokens) ∧
    tokenize "func(chan<-T)[]T" "shell" = .ok tokens ∧
    (∃ t, Rule.Runs type ⟨"shell", 4, .standard⟩ (.ofTokens tokens) n t) ∧ Expressible n := by
  intro T n tokens comma
  have hT : Expressible T := .customType ⟨⟨'T', [], by decide, by decide, nofun⟩, rfl⟩ rfl
  have hn : Expressible n :=
    .functionType (List.forall_mem_singleton.2 (.chanType hT nofun)) (.sliceType hT)
  have htokens : tokenize "func(chan<-T)[]T" "shell" = .ok tokens := by
    refine Lexer.tokensFrom_token (n := 3) rfl (Lexer.tokensFrom_token (n := 0) rfl ?_)
    refine Lexer.tokensFrom_token (n := 3) rfl (Lexer.tokensFrom_token (n := 1) rfl ?_)
    iterate 5 refine Lexer.tokensFrom_token (n := 0) rfl ?_
    exact Lexer.tokensFrom_nil "shell" 16 true
  let c : Setting := ⟨"shell", 4, .standard⟩
  let parameters : State := ⟨[⟨.openParen, "(", 4, 5⟩, ⟨.funcWord, "func", 0, 4⟩], ⟨.chanWord, "chan", 5, 9⟩,
    tokens.drop 3, 1, 1, true⟩
  let close : State := ⟨[⟨.identifier, "T", 11, 12⟩, ⟨.arrow, "<-", 9, 11⟩, ⟨.chanWord, "chan", 5, 9⟩] ++
    parameters.behind, ⟨.closeParen, ")", 12, 13⟩, tokens.drop 6, 1, 3, true⟩
  let behind : State := ⟨[⟨.identifier, "T", 15, 16⟩, ⟨.closeBracket, "]", 14, 15⟩,
    ⟨.openBracket, "[", 13, 14⟩, ⟨.closeParen, ")", 12, 13⟩] ++ close.behind, Token.lineBreak 16,
    [Token.endOfInput 16], 1, 3, true⟩
  have hparameters : Rule.Runs (typeList (produce 3)) c parameters [.chanType .send T] close := rfl
  have hresult : Rule.Runs (resultType (produce 3)) c close.next (.sliceType T) behind := rfl
  have hrun : ∃ t, Rule.Runs type c (.ofTokens tokens) n t := by
    have hfunction : Rule.Runs (functionType (produce 3)) c
        { State.ofTokens tokens with depth := 1, peak := 1 } n behind := by
      refine runs_expect_bind.2 ⟨rfl, runs_expectOr_bind.2 ⟨rfl, ?_⟩⟩
      refine runs_bind.2 ⟨_, close, hparameters, runs_expect_bind.2 ⟨rfl, ?_⟩⟩
      refine runs_bind.2 ⟨true, close.next, rfl, ?_⟩
      exact runs_bind.2 ⟨_, behind, hresult, rfl⟩
    have hbody : Rule.Runs (typeBody (produce 3)) c { State.ofTokens tokens with depth := 1, peak := 1 }
        n behind := runs_read_bind.2 (runs_kind_bind.2 hfunction)
    refine ⟨{ behind with depth := 0 }, runs_type.2 ?_⟩
    rw [State.depth_ofTokens]
    exact runs_nested.2 ⟨by decide, behind, hbody, rfl⟩
  obtain ⟨hreads, honly⟩ := type_reads_exactly_expressible .chosen "shell"
  have hends : EndsType comma.kind := by decide
  refine ⟨⟨hn, hends, hreads n hn comma [] hends⟩, htokens, hrun, ?_⟩
  obtain ⟨t, hrun⟩ := hrun
  exact honly _ tokens htokens 4 (.ofTokens tokens) n t (List.suffix_refl tokens) hrun

end MiniGo
