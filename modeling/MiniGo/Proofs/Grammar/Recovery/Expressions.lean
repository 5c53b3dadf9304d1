import MiniGo.Proofs.Grammar.Parsed
import MiniGo.Proofs.Grammar.Print
import MiniGo.Proofs.Grammar.Recovery

/-!
Types and expressions are recovered from their canonical tokens. Every rule gets one lemma: if the rules
one level down recover what they are given, so does the rule, whatever follows in its place.
-/
namespace MiniGo.Grammar

open Print (node nodes parens braces joined mark named)

section Separators

variable {α : Type} {c : Reader} {flag : Bool} {rest : List Token}

theorem recovers_separated {close : TokenKind} {message : String} {item : Rule α} {as : List α}
    {text : α → List Token} (Follows : TokenKind → Prop) (hne : close ≠ .comma)
    (hclose : Follows close) (hcomma : Follows .comma)
    (hitem : ∀ a ∈ as, ∀ more, Follows (headKind more) →
      headKind (text a ++ more) ≠ close ∧ Recovers c flag item (text a ++ more) a more) :
    Recovers c flag (separated close message item)
      (joined .comma (as.map text) ++ mark close :: rest) as (mark close :: rest) := by
  rw [separated_eq]
  refine recovers_many ?_
  have hend : RecoversMany c flag (separatedItem close message item) (mark close :: rest) []
      (mark close :: rest) := .nil (recovers_kind_bind (recovers_if_pos rfl recovers_pure))
  induction as with
  | nil => exact hend
  | cons a as ih =>
    obtain ⟨ha, has⟩ := List.forall_mem_cons.1 hitem
    cases as with
    | nil =>
      obtain ⟨hhead, hread⟩ := ha (mark close :: rest) hclose
      have htext : text a ≠ [] := by
        intro hnil
        rw [hnil] at hhead
        exact hhead rfl
      refine .cons (recovers_kind_bind (recovers_if_neg hhead (hread.bind ?_))) ?_ hend
      · exact recovers_kind_bind (recovers_if_pos rfl recovers_pure)
      · rw [List.map_singleton, joined, List.length_append]
        exact Nat.lt_add_of_pos_left (List.length_pos_iff.2 htext)
    | cons b as =>
      rw [List.map_cons, List.map_cons, joined, List.append_assoc, List.cons_append]
      · obtain ⟨hhead, hread⟩ :=
          ha (mark .comma :: (joined .comma ((b :: as).map text) ++ mark close :: rest)) hcomma
        refine .cons (recovers_kind_bind (recovers_if_neg hhead (hread.bind ?_))) ?_ (ih has)
        · refine recovers_kind_bind (recovers_if_neg hne.symm ?_)
          exact recovers_expectOr_bind rfl recovers_pure
        · simp only [List.map_cons, List.length_append, List.length_cons]
          omega
      · rintro ⟨⟩

end Separators

/-- What may follow a type: nothing that could be the result of a function. -/
def EndsType (k : TokenKind) : Prop := k ≠ .openParen ∧ Table.standard.type k = none

instance (k : TokenKind) : Decidable (EndsType k) := inferInstanceAs (Decidable (_ ∧ _))

theorem endsType_comma : EndsType .comma := by decide

/-- What may follow an expression in parentheses: no operator, and where no struct literal may stand
also the brace of a body. -/
def EndsExpression (flag : Bool) (k : TokenKind) : Prop :=
  (k = .openCurly ∧ flag = false) ∨ Table.standard.operator k = none

instance (flag : Bool) (k : TokenKind) : Decidable (EndsExpression flag k) :=
  inferInstanceAs (Decidable (_ ∨ _))

/-- The rules one level down recover what was built before, if what follows cannot be taken for more of
it. Expressions stand in parentheses; a bare one is read only where a struct literal may stand, unless
it is a name. -/
structure GoalsRecover (c : Reader) (numerals : Numerals) (below : Below) : Prop where
  type {flag : Bool} {r : Nat} {n : Node} {rest : List Token} (h : Parsed True r .type n)
    (hend : EndsType (headKind rest)) :
    Recovers c flag (below .type) (node numerals false n ++ rest) n rest
  expression {flag : Bool} {r : Nat} {power : Power} {n : Node} {rest : List Token}
    (h : Parsed True r .expression n) (hend : EndsExpression flag (headKind rest)) :
    Recovers c flag (below (.expression power)) (parens (node numerals false n) ++ rest) n rest
  bare {flag : Bool} {r : Nat} {n : Node} {rest : List Token} (h : Parsed True r .expression n)
    (hflag : flag = true ∨ isIdentifier n = true)
    (hend : Table.standard.operator (headKind rest) = none) :
    Recovers c flag (below (.expression .lowest)) (node numerals false n ++ rest) n rest
  statement {flag : Bool} {r : Nat} {n : Node} {rest : List Token} (h : Parsed True r .statement n) :
    Recovers c flag (below .statement) (node numerals false n ++ mark .semicolon :: rest) n rest
  elseIf {flag : Bool} {r : Nat} {n : Node} {rest : List Token} (h : Parsed True r .elseIf n)
    (hend : headKind rest ≠ .elseWord) :
    Recovers c flag (below .elseIf) (node numerals false n ++ rest) n rest

variable {c : Reader} {numerals : Numerals} {below : Below} (hb : GoalsRecover c numerals below)
  {flag : Bool} {r : Nat} {n : Node} {w rest : List Token}

section Types

theorem recovers_typeBody {form : TypeForm} (hform : Table.standard.type (headKind w) = some form)
    (h : Recovers c flag (typeOf below form) w n rest) : Recovers c flag (typeBody below) w n rest := by
  refine recovers_read_bind (recovers_kind_bind ?_)
  rw [c.standard, hform]
  exact h

theorem Parsed.type_head (h : Parsed True r .type n) (numerals : Numerals) (rest : List Token) :
    (Table.standard.type (headKind (node numerals false n ++ rest))).isSome := by
  cases h with
  | @chanType _ direction => cases direction <;> rfl
  | _ => rfl

theorem Parsed.type_head_ne_arrow (h : Parsed True r .type n) (hn : ∀ e, n ≠ .chanType .receive e) :
    headKind (node numerals false n ++ rest) ≠ .arrow := by
  cases h with
  | @chanType _ direction element =>
    cases direction with
    | receive => exact absurd rfl (hn element)
    | _ => rintro ⟨⟩
  | _ => rintro ⟨⟩

theorem Parsed.name_head (h : Parsed True r .typedName n) (numerals : Numerals) (rest : List Token) :
    headKind (node numerals false n ++ rest) = .identifier := by
  cases h
  rfl

theorem Parsed.result_head (h : Parsed True r .result n) (numerals : Numerals) (rest : List Token) :
    headKind (node numerals false n ++ rest) = .openParen ∨
      (Table.standard.type (headKind (node numerals false n ++ rest))).isSome := by
  cases h with
  | resultType h => exact .inr (h.type_head numerals rest)
  | resultTypes => exact .inl rfl

theorem Parsed.ends_ne_type_head {k : TokenKind} (h : Parsed True r .type n) (hk : EndsType k) :
    headKind (node numerals false n ++ rest) ≠ k := by
  intro heq
  have := h.type_head numerals rest
  rw [heq, hk.2] at this
  cases this

theorem Parsed.ends_ne_result_head {k : TokenKind} (h : Parsed True r .result n) (hk : EndsType k) :
    headKind (node numerals false n ++ rest) ≠ k := by
  rintro rfl
  rcases h.result_head numerals rest with hparen | htype
  · exact hk.1 hparen
  · rw [hk.2] at htype
    cases htype

include hb

theorem typeList_recovers {elements : List Node} (h : ∀ n ∈ elements, Parsed True r .type n) :
    Recovers c flag (typeList below)
      (joined .comma (nodes numerals elements) ++ mark .closeParen :: rest) elements
      (mark .closeParen :: rest) := by
  rw [Print.nodes_eq_map]
  refine recovers_separated EndsType (by decide) (by decide) endsType_comma fun n hn more hmore => ?_
  exact ⟨(h n hn).ends_ne_type_head (by decide), hb.type (h n hn) hmore⟩

theorem resultType_recovers (h : Parsed True r .result n) (hend : EndsType (headKind rest)) :
    Recovers c flag (resultType below) (node numerals false n ++ rest) n rest := by
  cases h with
  | resultType h =>
    refine recovers_kind_bind (recovers_if_neg ?_ (hb.type h hend))
    intro hparen
    have := h.type_head numerals rest
    rw [hparen] at this
    cases this
  | resultTypes h =>
    rw [node, Print.parens_append]
    refine recovers_kind_bind (recovers_if_pos rfl (recovers_advance_bind ?_))
    refine (typeList_recovers hb h).bind ?_
    exact recovers_expectOr_bind rfl recovers_pure

omit hb in
theorem isDigit_of_mem_toDigits {size : Nat} {ch : Char} (h : ch ∈ Nat.toDigits 10 size) :
    Decimal.isDigit ch = true :=
  Nat.isDigit_of_mem_toDigits (by decide) (by decide) h

omit hb in
private theorem natural?_toDigits (size : Nat) : Decimal.natural? (Nat.toDigits 10 size) = some size := by
  have hne : (Nat.toDigits 10 size).isEmpty = false := by
    simp [Nat.toDigits_ne_nil]
  have hall : (Nat.toDigits 10 size).all Decimal.isDigit = true :=
    List.all_eq_true.2 fun _ => isDigit_of_mem_toDigits
  have hvalue : Decimal.digitsValue (Nat.toDigits 10 size) = size :=
    Nat.ofDigitChars_toDigits (by decide) (by decide)
  rw [Decimal.natural?, hne, hall, hvalue]
  rfl

omit hb in
private theorem arraySize?_size (size : UInt64) : arraySize? (Print.size size).value = some size := by
  have hdigits : (Print.size size).value.toList = Nat.toDigits 10 size.toNat := by
    simp [Print.size]
  rw [arraySize?, hdigits]
  split
  · rename_i cs hcs
    have hsign : Decimal.isDigit '+' = true := isDigit_of_mem_toDigits (hcs ▸ List.mem_cons_self)
    exact absurd hsign (by decide)
  · rw [natural?_toDigits]
    simp [size.toNat_lt]

def EndsNames (terminators : List TokenKind) : Prop := ∀ k ∈ terminators, k ≠ .comma ∧ EndsType k

omit hb in
instance (terminators : List TokenKind) : Decidable (EndsNames terminators) :=
  inferInstanceAs (Decidable (∀ k ∈ terminators, _))

omit hb in
theorem EndsNames.not_contains {terminators : List TokenKind} {k : TokenKind}
    (h : EndsNames terminators) (hk : (Table.standard.type k).isSome) :
    ¬ terminators.contains k = true := by
  intro hmem
  rw [(h k (List.contains_iff_mem.1 hmem)).2.2] at hk
  cases hk

theorem recovers_nameTurn {terminators : List TokenKind} {ids : List Node} {more : List Token}
    {x : Turn (List Node × List String)} (hterminators : EndsNames terminators)
    (h : Parsed True r .typedName n) (hmore : EndsType (headKind more))
    (hx : Recovers c flag (do
      if (← kind) = .comma then
        let _ ← advance
        return .more (ids ++ [n], [])
      else return .done (ids ++ [n], [])) more x rest) :
    Recovers c flag (nameTurn below terminators (ids, [])) (node numerals false n ++ more) x rest := by
  cases h with
  | typed h =>
    have hhead := h.type_head numerals more
    have htype : ∀ k, EndsType k → headKind (node numerals false _ ++ more) ≠ k := fun k hk =>
      h.ends_ne_type_head hk
    rw [node, Print.optional, List.cons_append]
    refine recovers_kind_bind (recovers_if_neg (hterminators.not_contains rfl) ?_)
    refine recovers_expectOr_bind rfl (recovers_kind_bind (recovers_if_pos ?_ ?_))
    · rw [Bool.and_eq_true, decide_eq_true_iff, Bool.not_eq_true', Bool.eq_false_iff]
      exact ⟨htype .comma endsType_comma, hterminators.not_contains hhead⟩
    · exact (hb.type h hmore).bind (recovers_pure.bind hx)

theorem nameTurn_recovers {terminators : List TokenKind} {names : List Node}
    (hterminators : EndsNames terminators) (h : ∀ n ∈ names, Parsed True r .typedName n)
    (hrest : headKind rest ∈ terminators) (ids : List Node) :
    RecoversLoop c flag (nameTurn below terminators) (joined .comma (nodes numerals names) ++ rest)
      (ids, []) (ids ++ names, []) rest := by
  obtain ⟨hcomma, hend⟩ := hterminators _ hrest
  induction names generalizing ids with
  | nil =>
    rw [List.append_nil]
    refine .done (recovers_kind_bind (recovers_if_pos ?_ recovers_pure))
    exact List.contains_iff_mem.2 hrest
  | cons n names ih =>
    obtain ⟨hn, hnames⟩ := List.forall_mem_cons.1 h
    cases names with
    | nil =>
      refine .done (recovers_nameTurn hb hterminators hn hend ?_)
      exact recovers_kind_bind (recovers_if_neg hcomma recovers_pure)
    | cons m names =>
      have hmore := ih hnames (ids ++ [n])
      rw [List.append_assoc] at hmore
      rw [nodes, nodes, joined, List.append_assoc, List.cons_append]
      · refine .more (recovers_nameTurn hb hterminators hn endsType_comma ?_) ?_ hmore
        · exact recovers_kind_bind (recovers_if_pos rfl (recovers_advance_bind recovers_pure))
        · simp only [nodes, List.length_append, List.length_cons]
          omega
      · rintro ⟨⟩

theorem typedNames_recovers {terminators : List TokenKind} {list : NameList} {names : List Node}
    (hterminators : EndsNames terminators) (h : ∀ n ∈ names, Parsed True r .typedName n)
    (hne : names = [] → list = .parameters) (hrest : headKind rest ∈ terminators) :
    Recovers c flag (typedNames below terminators list)
      (joined .comma (nodes numerals names) ++ rest) names rest := by
  refine (recovers_loop (nameTurn_recovers hb hterminators h hrest [])).bind ?_
  refine recovers_if_neg ?_ recovers_pure
  simpa using hne

theorem typedName_recovers {terminators : List TokenKind} {list : NameList}
    (hterminators : EndsNames terminators) (h : Parsed True r .typedName n)
    (hrest : headKind rest ∈ terminators) :
    Recovers c flag (typedNames below terminators list) (node numerals false n ++ rest) [n] rest := by
  have hnames : ∀ m ∈ [n], Parsed True r .typedName m := List.forall_mem_singleton.2 h
  exact typedNames_recovers hb hterminators hnames (by rintro ⟨⟩) hrest

theorem structType_recovers {names : List Node} (h : ∀ n ∈ names, Parsed True r .typedName n) :
    Recovers c flag (structType below)
      (node numerals false (.structType (names.map .structElement)) ++ rest)
      (.structType (names.map .structElement)) rest := by
  have htext : Print.ended (nodes numerals (names.map .structElement)) =
      names.flatMap fun n => node numerals false n ++ [mark .semicolon] := by
    rw [Print.ended, Print.nodes_eq_map, List.map_map, List.flatMap_map]
    rfl
  rw [node, htext, List.cons_append, Print.braces_append]
  refine recovers_expect_bind rfl (recovers_expectOr_bind rfl ?_)
  refine (recovers_many_map (fun _ => True) trivial ?_ ?_ (g := fun n => [n])).bind ?_
    (v := mark .closeCurly :: rest)
  · refine recovers_skipSemicolons_bind (by rintro ⟨⟩) ?_
    exact recovers_kind_bind (recovers_if_pos rfl recovers_pure)
  · intro n hn more _
    have hn := h n hn
    have hhead := hn.name_head numerals (mark .semicolon :: more)
    have hend : headKind (mark .semicolon :: more) ∈ [TokenKind.semicolon, .closeCurly] :=
      List.mem_cons_self
    refine ⟨trivial, List.append_ne_nil_of_right_ne_nil _ (List.cons_ne_nil _ _), ?_⟩
    rw [List.append_assoc, List.singleton_append]
    refine recovers_skipSemicolons_bind (by rw [hhead]; rintro ⟨⟩) ?_
    refine recovers_kind_bind (recovers_if_neg (by rw [hhead]; rintro ⟨⟩) ?_)
    refine (typedName_recovers hb (by decide) hn hend).bind ?_
    refine recovers_kind_bind (recovers_if_neg (by rintro ⟨⟩) ?_)
    exact recovers_expectOr_bind rfl recovers_pure
  · have hflatten : (names.map fun n => [n]).flatten = names := List.flatMap_singleton' names
    rw [hflatten]
    exact recovers_expect_bind rfl recovers_pure

omit hb in
theorem startsResultType_recovers :
    Recovers c flag startsResultType w
      (decide (headKind w = .openParen) || (Table.standard.type (headKind w)).isSome) w := by
  refine recovers_kind_bind (recovers_read_bind ?_)
  rw [c.standard]
  exact recovers_pure

theorem typeBody_recovers (h : Parsed True r .type n) (hend : EndsType (headKind rest)) :
    Recovers c flag (typeBody below) (node numerals false n ++ rest) n rest := by
  cases h with
  | @basicType _ b =>
    refine recovers_typeBody rfl (recovers_expect_bind rfl ?_)
    have hname : BasicType.ofName? b.keyword = some b := by cases b <;> rfl
    simp only [named, hname]
    exact recovers_pure
  | customType hs =>
    refine recovers_typeBody rfl (recovers_expect_bind rfl ?_)
    simp only [named, hs]
    exact recovers_pure
  | sliceType h =>
    refine recovers_typeBody rfl (recovers_expect_bind rfl ?_)
    refine recovers_kind_bind (recovers_if_pos rfl (recovers_advance_bind ?_))
    exact (hb.type h hend).bind recovers_pure
  | @arrayType _ element size h =>
    refine recovers_typeBody rfl (recovers_expect_bind rfl ?_)
    refine recovers_kind_bind (recovers_if_neg (by rintro ⟨⟩) (recovers_advance_bind ?_))
    have hsize : (if (Print.size size).kind = .number then arraySize? (Print.size size).value
        else none) = some size := (if_pos rfl).trans (arraySize?_size size)
    rw [hsize]
    exact recovers_expectOr_bind rfl ((hb.type h hend).bind recovers_pure)
  | @chanType _ direction element h hboth =>
    cases direction with
    | both =>
      refine recovers_typeBody rfl (recovers_expect_bind rfl ?_)
      refine recovers_kind_bind (recovers_if_neg (h.type_head_ne_arrow (hboth rfl)) ?_)
      exact (hb.type h hend).bind recovers_pure
    | send =>
      refine recovers_typeBody rfl (recovers_expect_bind rfl ?_)
      refine recovers_kind_bind (recovers_if_pos rfl (recovers_advance_bind ?_))
      exact (hb.type h hend).bind recovers_pure
    | receive =>
      refine recovers_typeBody rfl (recovers_expect_bind rfl ?_)
      exact recovers_expectOr_bind rfl ((hb.type h hend).bind recovers_pure)
  | @functionType _ params result hparams hresult =>
    rw [node, node, List.cons_append, List.append_assoc, Print.parens_append]
    refine recovers_typeBody rfl ?_
    refine recovers_expect_bind rfl (recovers_expectOr_bind rfl ?_)
    refine (typeList_recovers hb hparams).bind (recovers_expect_bind rfl ?_)
    refine startsResultType_recovers.bind (recovers_if_pos ?_ ?_)
    · simpa using hresult.result_head numerals rest
    · exact (resultType_recovers hb hresult hend).bind recovers_pure
  | procedureType hparams =>
    rw [node, node, node, List.append_nil, List.cons_append, Print.parens_append]
    refine recovers_typeBody rfl ?_
    refine recovers_expect_bind rfl (recovers_expectOr_bind rfl ?_)
    refine (typeList_recovers hb hparams).bind (recovers_expect_bind rfl ?_)
    refine startsResultType_recovers.bind (recovers_if_neg ?_ recovers_pure)
    simp [hend.1, hend.2]
  | structType h => exact recovers_typeBody rfl (structType_recovers hb h)

end Types

section Blocks

def StartsStatement (k : TokenKind) : Prop :=
  k = .openParen ∨ (Table.standard.statement k).isSome = true

instance (k : TokenKind) : Decidable (StartsStatement k) := inferInstanceAs (Decidable (_ ∨ _))

theorem StartsStatement.ne {k k' : TokenKind} (h : StartsStatement k) (hk : ¬ StartsStatement k') :
    k ≠ k' := by
  rintro rfl
  exact hk h

theorem operands_head {ns : List Node} (hne : ns ≠ []) :
    headKind (Print.operands (nodes numerals ns) ++ rest) = .openParen := by
  obtain ⟨n, ns, rfl⟩ := List.exists_cons_of_ne_nil hne
  rw [Print.operands, nodes, List.map_cons, Print.joined_cons]
  rfl

theorem Parsed.simple_head (h : Parsed True r .simple n) (hn : n.kind ≠ .declaration) :
    headKind (node numerals false n ++ rest) = .openParen := by
  cases h with
  | shortDeclaration => exact absurd rfl hn
  | assignment hne =>
    rw [node, List.append_assoc]
    exact operands_head hne
  | send | expressionStatement => rfl

theorem Parsed.statement_head (h : Parsed True r .statement n) :
    StartsStatement (headKind (node numerals false n ++ rest)) := by
  cases h with
  | simple h hn => exact .inl (h.simple_head hn)
  | @declaration _ kind => cases kind <;> exact .inr rfl
  | ifStatement h =>
    cases h
    exact .inr rfl
  | _ => exact .inr rfl

theorem recovers_ended {rule : Rule (Option Node)} {ns : List Node} {more : List Token}
    (hend : Recovers c flag rule more none rest)
    (hitem : ∀ n ∈ ns, ∀ more,
      Recovers c flag rule (node numerals false n ++ mark .semicolon :: more) (some n) more) :
    Recovers c flag (many rule) (Print.ended (nodes numerals ns) ++ more) ns rest := by
  rw [Print.ended, Print.nodes_eq_map, List.flatMap_map]
  refine recovers_many_flatMap (fun _ => True) trivial hend fun n hn more _ => ?_
  refine ⟨trivial, List.append_ne_nil_of_right_ne_nil _ (List.cons_ne_nil _ _), ?_⟩
  rw [List.append_assoc]
  exact hitem n hn more

include hb

theorem block_recovers {body : List Node} (h : ∀ n ∈ body, Parsed True r .statement n) :
    Recovers c flag (block below) (braces (Print.ended (nodes numerals body)) ++ rest) body rest := by
  rw [Print.braces_append]
  refine recovers_expectOr_bind rfl ?_
  refine (recovers_withStructLiterals (recovers_ended ?_ fun n hn more => ?_)).bind
    (recovers_expect_bind rfl recovers_pure) (v := mark .closeCurly :: rest)
  · exact recovers_skipSemicolons_bind (by rintro ⟨⟩) (recovers_kind_bind recovers_pure)
  · have hn := h n hn
    have hhead : StartsStatement (headKind (node numerals false n ++ mark .semicolon :: more)) :=
      hn.statement_head
    refine recovers_skipSemicolons_bind (hhead.ne (by decide)) (recovers_kind_bind ?_)
    split
    · exact absurd ‹_› (hhead.ne (by decide))
    · exact absurd ‹_› (hhead.ne (by decide))
    · exact (hb.statement hn).bind recovers_pure

theorem functionRest_recovers {name : Option Node} {formals body : List Node} {result : Option Node}
    (h : Parsed True r .expression (.function none formals result body)) :
    Recovers c flag (functionRest below name) (parens (joined .comma (nodes numerals formals)) ++
        Print.optional numerals result ++ braces (Print.ended (nodes numerals body)) ++ rest)
      (.function name formals result body) rest := by
  cases h with
  | function hformals hresult hbody =>
    have hend : ∀ more : List Token, headKind (mark .closeParen :: more) ∈ [TokenKind.closeParen] :=
      fun _ => List.mem_cons_self
    rw [List.append_assoc, List.append_assoc, Print.parens_append]
    refine recovers_expectOr_bind rfl ?_
    refine (typedNames_recovers hb (by decide) hformals (fun _ => rfl) (hend _)).bind ?_
    refine recovers_expectOr_bind rfl (recovers_kind_bind ?_)
    have hblock : Recovers c flag (block below)
        (braces (Print.ended (nodes numerals body)) ++ rest) body rest := block_recovers hb hbody
    cases result with
    | none => exact recovers_if_pos rfl (hblock.bind recovers_pure)
    | some result =>
      have hresult := hresult result rfl
      have hbrace : EndsType .openCurly := by decide
      have hread : Recovers c flag (resultType below)
          (node numerals false result ++ (braces (Print.ended (nodes numerals body)) ++ rest)) result
          (braces (Print.ended (nodes numerals body)) ++ rest) := resultType_recovers hb hresult hbrace
      refine recovers_if_neg ?_ (hread.map.bind (hblock.bind recovers_pure))
      exact hresult.ends_ne_result_head hbrace

end Blocks

section Expressions

/-- Behind the first operand the rest of an expression is read, whatever levels it has reached. -/
def RecoversTail (c : Reader) (below : Below) (flag : Bool) (power : Power) (left : Node)
    (w : List Token) (n : Node) (rest : List Token) : Prop :=
  ∀ height, ∀ turns : List Token, w.length ≤ turns.length →
    Recovers c flag (do return (← loopFrom (tailTurn below power) turns (left, height)).1) w n rest

theorem tail_recovers {power : Power} {left : Node} {height : Nat}
    (h : RecoversTail c below flag power left w n rest) :
    Recovers c flag (tail below left height power) w n rest := by
  intro s hs hflag
  exact h height s.later (Nat.le_of_eq (length_later hs)) s hs hflag

def OpensBody (flag : Bool) (left : Node) (k : TokenKind) : Prop :=
  (k = .openCurly && !(flag && isIdentifier left)) = true

theorem RecoversTail.done {power : Power} {left : Node}
    (h : OpensBody flag left (headKind rest) ∨ Table.standard.operator (headKind rest) = none) :
    RecoversTail c below flag power left rest left rest := by
  intro height turns hturns
  refine (RecoversLoop.done ?_ turns hturns).bind recovers_pure (a := (left, height))
  refine recovers_kind_bind (recovers_get_bind fun s hs => ?_)
  rw [hs]
  by_cases hbody : OpensBody flag left (headKind rest)
  · exact recovers_if_pos hbody recovers_pure
  · refine recovers_if_neg hbody (recovers_read_bind ?_)
    rw [c.standard, h.resolve_left hbody]
    exact recovers_pure

theorem RecoversTail.more {power tighter : Power} {form : OperatorForm} {left folded : Node}
    {v : List Token} (hbody : ¬ OpensBody flag left (headKind w))
    (hform : Table.standard.operator (headKind w) = some (tighter, form))
    (hrank : power.rank < tighter.rank)
    (h : Recovers c flag (operatorOf below left tighter form) w folded v) (hlt : v.length < w.length)
    (hrest : RecoversTail c below flag power folded v n rest) :
    RecoversTail c below flag power left w n rest := by
  intro height turns hturns
  cases turns with
  | nil =>
    rw [List.length_nil] at hturns
    omega
  | cons k turns =>
    rw [List.length_cons] at hturns
    refine recovers_bind_assoc ?_
    refine recovers_bind_assoc (recovers_kind_bind ?_)
    refine recovers_bind_assoc (recovers_get_bind fun s hs => ?_)
    unfold OpensBody at hbody
    rw [hs, if_neg hbody]
    refine recovers_bind_assoc (recovers_read_bind ?_)
    rw [c.standard, hform]
    dsimp only
    rw [if_neg (Nat.not_le.2 hrank)]
    -- What the operator has reached is not known here, so the rest is read for all heights.
    refine recovers_bind_assoc (recovers_measured_bind h fun reached => ?_)
    refine recovers_bind_assoc (recovers_reach.bind ?_)
    exact recovers_pure.bind (hrest _ turns (by omega))

theorem recovers_expressionBody {power : Power} {form : OperandForm} {left : Node} {v : List Token}
    (hform : Table.standard.operand (headKind w) = some form)
    (h : Recovers c flag (operandOf below form) w left v)
    (htail : RecoversTail c below flag power left v n rest) :
    Recovers c flag (expressionBody below power) w n rest := by
  refine recovers_read_bind (recovers_kind_bind ?_)
  rw [c.standard, hform]
  exact recovers_measured_bind h fun height => tail_recovers htail

private theorem lowest_rank_lt {k : TokenKind} {tighter : Power} {form : OperatorForm}
    (h : Table.standard.operator k = some (tighter, form)) : Power.lowest.rank < tighter.rank := by
  cases k <;> cases h <;> decide

private theorem operands_eq_joined (ns : List Node) : Print.operands (nodes numerals ns) =
    joined .comma (ns.map fun n => parens (node numerals false n)) := by
  rw [Print.operands, Print.nodes_eq_map, List.map_map]
  rfl

include hb

theorem grouping_recovers (h : Parsed True r .expression n) :
    Recovers c flag (grouping below) (parens (node numerals false n) ++ rest) n rest := by
  rw [Print.parens_append]
  refine recovers_expect_bind rfl ?_
  refine (recovers_withStructLiterals (hb.bare h (.inl rfl) rfl)).bind ?_
  exact recovers_expectOr_bind rfl recovers_pure

theorem parens_recovers {power : Power} (h : Parsed True r .expression n)
    (hend : EndsExpression flag (headKind rest)) :
    Recovers c flag (expressionBody below power) (parens (node numerals false n) ++ rest) n rest := by
  refine recovers_expressionBody rfl (grouping_recovers hb h) (.done ?_)
  rcases hend with ⟨hcurly, rfl⟩ | hnone
  · exact .inl (by simp [OpensBody, hcurly])
  · exact .inr hnone

theorem operator_recovers {left : Node} {tighter : Power} {form : OperatorForm} {t : Token}
    {v : List Token} (hleft : Parsed True r .expression left) (ht : t.kind ≠ .openCurly)
    (hform : Table.standard.operator t.kind = some (tighter, form))
    (h : Recovers c flag (operatorOf below left tighter form) (t :: (v ++ rest)) n rest)
    (hend : Table.standard.operator (headKind rest) = none) :
    Recovers c flag (expressionBody below .lowest)
      (parens (node numerals false left) ++ (t :: v ++ rest)) n rest := by
  refine recovers_expressionBody rfl (grouping_recovers hb hleft) (.more ?_ hform ?_ h ?_ ?_)
  · simp [OpensBody, headKind, ht]
  · exact lowest_rank_lt hform
  · simp only [List.cons_append, List.length_cons, List.length_append]
    omega
  · exact .done (.inr hend)

theorem call_recovers {left : Node} {operands : List Node}
    (h : ∀ n ∈ operands, Parsed True r .expression n) :
    Recovers c flag (call below left) (parens (Print.operands (nodes numerals operands)) ++ rest)
      (.application left operands) rest := by
  rw [operands_eq_joined, Print.parens_append]
  refine recovers_expect_bind rfl (Recovers.bind (recovers_withStructLiterals
    (recovers_separated (EndsExpression true) (by decide) (.inr rfl) (.inr rfl)
      fun n hn more hmore => ⟨by rintro ⟨⟩, hb.expression (h n hn) hmore⟩)) ?_)
  exact recovers_expect_bind rfl recovers_pure

theorem fieldValue_recovers (h : Parsed True r .fieldValue n)
    (hend : EndsExpression flag (headKind rest)) :
    Recovers c flag (fieldValue below) (node numerals false n ++ rest) n rest := by
  cases h with
  | fieldValue h =>
    rw [node, node, Print.optional, List.append_assoc, List.singleton_append, List.cons_append]
    refine recovers_expectOr_bind rfl (recovers_expectOr_bind rfl ?_)
    exact (hb.expression h hend).bind recovers_pure

theorem structLiteral_recovers {name : String} {fields : List Node}
    (h : ∀ n ∈ fields, Parsed True r .fieldValue n) :
    Recovers c flag (structLiteral below (.name name))
      (braces (joined .comma (nodes numerals fields)) ++ rest)
      (.structLiteral (.customType name) fields) rest := by
  rw [Print.nodes_eq_map, Print.braces_append]
  refine recovers_expect_bind rfl (Recovers.bind (recovers_withStructLiterals
    (recovers_separated (EndsExpression true) (by decide) (.inr rfl) (.inr rfl)
      fun n hn more hmore => ⟨?_, fieldValue_recovers hb (h n hn) hmore⟩)) ?_)
  · cases h n hn
    rintro ⟨⟩
  · exact recovers_expect_bind rfl recovers_pure

omit hb in
private theorem operand_operator {opcode : String} (h : opcode ∈ Check.unaryOperators) :
    Table.standard.operand (Print.operator opcode).kind = some .unary := by
  revert opcode
  decide

omit hb in
private theorem operator_operator {opcode : String} (h : opcode ∈ Check.binaryOperators) :
    (Table.standard.operator (Print.operator opcode).kind).map Prod.snd = some .binary := by
  revert opcode
  decide

theorem bare_recovers (h : Parsed True r .expression n) (hflag : flag = true ∨ isIdentifier n = true)
    (hend : Table.standard.operator (headKind rest) = none) :
    Recovers c flag (expressionBody below .lowest) (node numerals false n ++ rest) n rest := by
  cases h with
  | identifier =>
    refine recovers_expressionBody rfl (recovers_advance_bind ?_) (.done (.inr hend))
    exact recovers_pure
  | @number _ text x hx =>
    refine recovers_expressionBody rfl (recovers_advance_bind ?_) (.done (.inr hend))
    simp only [Print.literal, numerals.reads text x hx]
    exact recovers_pure
  | string =>
    refine recovers_expressionBody rfl (recovers_advance_bind ?_) (.done (.inr hend))
    exact recovers_pure
  | @bool _ b =>
    refine recovers_expressionBody rfl (recovers_advance_bind ?_) (.done (.inr hend))
    cases b <;> exact recovers_pure
  | application hoperator hoperands =>
    rw [node, List.append_assoc]
    exact operator_recovers hb hoperator (by rintro ⟨⟩) rfl (call_recovers hb hoperands) hend
  | unary hopcode h =>
    rw [node, List.cons_append]
    refine recovers_expressionBody (operand_operator (hopcode trivial)) (recovers_advance_bind ?_)
      (.done (.inr hend))
    exact (hb.expression h (.inr hend)).bind recovers_pure
  | @binary _ opcode left right hopcode hleft hright =>
    rw [node, List.append_assoc]
    obtain ⟨⟨power, form⟩, hform, ⟨⟩⟩ := Option.map_eq_some_iff.1 (operator_operator (hopcode trivial))
    refine operator_recovers hb hleft ?_ hform (recovers_advance_bind ?_) hend
    · intro hcurly
      rw [hcurly] at hform
      cases hform
    · exact (hb.expression hright (.inr hend)).bind recovers_pure
  | index haccessed hindex =>
    rw [node, List.append_assoc]
    refine operator_recovers hb haccessed (by rintro ⟨⟩) rfl (recovers_expect_bind rfl ?_) hend
    rw [List.append_assoc]
    refine Recovers.bind (recovers_withStructLiterals (hb.expression hindex (.inr rfl))) ?_
    exact recovers_expectOr_bind rfl recovers_pure
  | member h =>
    rw [node, List.append_assoc]
    refine operator_recovers hb h (by rintro ⟨⟩) rfl (recovers_expect_bind rfl ?_) hend
    exact recovers_expectOr_bind rfl recovers_pure
  | receive h =>
    refine recovers_expressionBody rfl (recovers_expect_bind rfl ?_) (.done (.inr hend))
    exact (hb.expression h (.inr hend)).bind recovers_pure
  | @structLiteral _ name fields h =>
    have hflag : flag = true := hflag.resolve_right (by rintro ⟨⟩)
    subst hflag
    rw [node, node, List.append_assoc, List.singleton_append]
    refine recovers_expressionBody rfl (recovers_advance_bind recovers_pure) ?_
    refine .more (by rintro ⟨⟩) rfl (by decide) (structLiteral_recovers hb h) ?_ (.done (.inr hend))
    simp only [Print.braces_append, List.length_cons, List.length_append]
    omega
  | function hformals hresult hbody =>
    rw [node, Print.optional, List.nil_append, List.cons_append]
    refine recovers_expressionBody rfl (recovers_expect_bind rfl ?_) (.done (.inr hend))
    exact functionRest_recovers hb (.function hformals hresult hbody)

omit hb in
theorem recovers_expressionList {ns : List Node} {text : Node → List Token}
    (Follows : TokenKind → Prop) (hne : ns ≠ []) (hcomma : Follows .comma)
    (hitem : ∀ n ∈ ns, ∀ more, Follows (headKind more) →
      Recovers c flag (below (.expression .lowest)) (text n ++ more) n more)
    (hrest : Follows (headKind rest)) (hend : headKind rest ≠ .comma) :
    Recovers c flag (expressionList below) (joined .comma (ns.map text) ++ rest) ns rest := by
  obtain ⟨n, ns, rfl⟩ := List.exists_cons_of_ne_nil hne
  obtain ⟨hn, hns⟩ := List.forall_mem_cons.1 hitem
  have hmore : Recovers c flag (moreExpressions below)
      (ns.flatMap (fun n => mark .comma :: text n) ++ rest) ns rest := by
    refine recovers_many_flatMap (fun w => Follows (headKind w)) hrest ?_ fun n hn more hmore => ?_
    · exact recovers_kind_bind (recovers_if_neg hend recovers_pure)
    · refine ⟨hcomma, List.cons_ne_nil _ _, ?_⟩
      refine recovers_kind_bind (recovers_if_pos rfl (recovers_advance_bind ?_))
      exact (hns n hn more hmore).bind recovers_pure
  rw [List.map_cons, Print.joined_cons, List.flatMap_map, List.append_assoc]
  refine Recovers.bind (hn _ ?_) (hmore.bind recovers_pure)
  cases ns with
  | nil => exact hrest
  | cons m ns => exact hcomma

theorem operands_recovers {ns : List Node} (hne : ns ≠ [])
    (h : ∀ n ∈ ns, Parsed True r .expression n) (hrest : EndsExpression flag (headKind rest))
    (hend : headKind rest ≠ .comma) :
    Recovers c flag (expressionList below) (Print.operands (nodes numerals ns) ++ rest) ns rest := by
  rw [operands_eq_joined]
  exact recovers_expressionList (EndsExpression flag) hne (.inr rfl)
    (fun n hn more => hb.expression (h n hn)) hrest hend

theorem operand_recovers (h : Parsed True r .expression n)
    (hrest : EndsExpression flag (headKind rest)) (hend : headKind rest ≠ .comma) :
    Recovers c flag (expressionList below) (parens (node numerals false n) ++ rest) [n] rest := by
  have hns : ∀ m ∈ [n], Parsed True r .expression m := List.forall_mem_singleton.2 h
  exact operands_recovers hb (List.cons_ne_nil n []) hns hrest hend

end Expressions

end MiniGo.Grammar
