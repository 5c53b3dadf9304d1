import MiniGo.Grammar
import MiniGo.Proofs.Grammar.Recovery.Expressions

/-!
Statements, and with them whole programs, are recovered from their canonical tokens.
-/
namespace MiniGo.Grammar

open Print (node nodes parens braces joined mark named)

variable {c : Reader} {numerals : Numerals} {below : Below} (hb : GoalsRecover c numerals below)
  {flag : Bool} {r : Nat} {n : Node} {w rest : List Token}

theorem terminator_recovers : Recovers c flag terminator (mark .semicolon :: rest) () rest :=
  recovers_kind_bind (recovers_advance_bind recovers_pure)

theorem recovers_terminated {rule : Rule Node}
    (h : Recovers c flag rule w n (mark .semicolon :: rest)) :
    Recovers c flag (terminated rule) w n rest :=
  h.bind (terminator_recovers.bind recovers_pure)

section Headers

/-- What may follow a simple statement: no operator and nothing that would make it another one. -/
def EndsSimple (flag : Bool) (k : TokenKind) : Prop :=
  EndsExpression flag k ∧ k ∉ [TokenKind.comma, .define, .assign, .arrow]

instance (flag : Bool) (k : TokenKind) : Decidable (EndsSimple flag k) :=
  inferInstanceAs (Decidable (_ ∧ _))

theorem endsSimple_openCurly (h : headKind rest = .openCurly) : EndsSimple false (headKind rest) := by
  rw [h]
  decide

theorem endsSimple_semicolon : EndsSimple flag .semicolon := by cases flag <;> decide

private theorem endsSimple_colon : EndsSimple flag .colon := by cases flag <;> decide

theorem EndsSimple.ne {k k' : TokenKind} (h : EndsSimple flag k)
    (hk : k' ∈ [TokenKind.comma, .define, .assign, .arrow]) : k ≠ k' := by
  rintro rfl
  exact h.2 hk

theorem Parsed.simple_head_ne {k : TokenKind} (h : Parsed True r .simple n)
    (hk : k ∉ [TokenKind.identifier, .openParen]) : headKind (node numerals true n ++ rest) ≠ k := by
  have hhead : headKind (node numerals true n ++ rest) ∈ [TokenKind.identifier, .openParen] := by
    cases h with
    | shortDeclaration hnames =>
      obtain ⟨name, names, rfl⟩ := List.exists_cons_of_ne_nil hnames
      rw [node, if_pos rfl, List.map_cons, nodes, Print.joined_cons]
      exact List.mem_cons_self
    | assignment hne =>
      rw [node, List.append_assoc, operands_head hne]
      decide
    | send => exact List.mem_cons_of_mem _ List.mem_cons_self
    | expressionStatement => exact List.mem_cons_of_mem _ List.mem_cons_self
  rintro rfl
  exact hk hhead

include hb

theorem names_recovers {names : List String} (hne : names ≠ [])
    (hrest : Table.standard.operator (headKind rest) = none) (hend : headKind rest ≠ .comma) :
    Recovers c flag (expressionList below)
      (joined .comma (nodes numerals (names.map Node.name)) ++ rest) (names.map Node.name) rest := by
  have hname : ∀ n ∈ names.map Node.name, ∀ more, Table.standard.operator (headKind more) = none →
      Recovers c flag (below (.expression .lowest)) (node numerals false n ++ more) n more := by
    intro n hn more hmore
    obtain ⟨name, -, rfl⟩ := List.mem_map.1 hn
    exact hb.bare (r := 1) .identifier (.inr rfl) hmore
  rw [Print.nodes_eq_map]
  exact recovers_expressionList (fun k => Table.standard.operator k = none) (by simpa using hne) rfl
    hname hrest hend

theorem simpleStatement_recovers (h : Parsed True r .simple n) (hend : EndsSimple flag (headKind rest)) :
    Recovers c flag (simpleStatement below) (node numerals true n ++ rest) n rest := by
  cases h with
  | shortDeclaration hnames hvals h =>
    rw [node, if_pos rfl, List.append_assoc, List.cons_append]
    refine Recovers.bind (names_recovers hb hnames rfl (by rintro ⟨⟩)) (recovers_kind_bind ?_)
    refine recovers_if_pos ?_ (recovers_advance_bind ?_)
    · simp [Node.name, isIdentifier]
    · exact (operands_recovers hb hvals h hend.1 (hend.ne (by decide))).bind recovers_pure
  | assignment hne hvals hassignable htargets h =>
    rw [node, List.append_assoc, List.cons_append]
    refine Recovers.bind (operands_recovers hb hne htargets (.inr rfl) (by rintro ⟨⟩))
      (recovers_kind_bind ?_)
    refine recovers_if_pos (List.all_eq_true.2 hassignable) (recovers_advance_bind ?_)
    exact (operands_recovers hb hvals h hend.1 (hend.ne (by decide))).bind recovers_pure
  | send hchan hval =>
    rw [node, List.append_assoc, List.cons_append]
    refine Recovers.bind (operand_recovers hb hchan (.inr rfl) (by rintro ⟨⟩)) (recovers_kind_bind ?_)
    exact recovers_advance_bind ((hb.expression hval hend.1).bind recovers_pure)
  | expressionStatement h =>
    rw [node]
    refine Recovers.bind (operand_recovers hb h hend.1 (hend.ne (by decide))) (recovers_kind_bind ?_)
    split
    · exact absurd ‹_› (hend.ne (by decide))
    · exact absurd ‹_› (hend.ne (by decide))
    · exact absurd ‹_› (hend.ne (by decide))
    · exact recovers_pure

/-- An expression in parentheses alone is read as a statement first and then taken for a condition. -/
theorem condition_recovers (h : Parsed True r .expression n) (hend : EndsSimple flag (headKind rest)) :
    Recovers c flag (simpleStatement below) (parens (node numerals false n) ++ rest)
      (.expressionStatement n) rest :=
  simpleStatement_recovers hb (.expressionStatement h) hend

theorem ifHeader_recovers {short : Option Node} {cond : Node}
    (hshort : ∀ n ∈ short, Parsed True r .simple n) (hcond : Parsed True r .expression cond)
    (hrest : headKind rest = .openCurly) :
    Recovers c false (ifHeader below)
      (Print.before numerals short ++ (parens (node numerals false cond) ++ rest)) (short, cond)
      rest := by
  have hend := endsSimple_openCurly hrest
  cases short with
  | none =>
    refine Recovers.bind (condition_recovers hb hcond hend) ?_
    refine recovers_kind_bind (recovers_if_neg ?_ (recovers_pure.bind recovers_pure))
    rw [hrest]
    rintro ⟨⟩
  | some first =>
    rw [Print.before, List.append_assoc, List.singleton_append]
    refine Recovers.bind (simpleStatement_recovers hb (hshort first rfl) endsSimple_semicolon) ?_
    refine recovers_kind_bind (recovers_if_pos rfl (recovers_advance_bind ?_))
    exact (hb.expression hcond hend.1).bind recovers_pure

theorem forRest_recovers {init : Node} {cond post : Option Node}
    (hcond : ∀ n ∈ cond, Parsed True r .expression n) (hpost : ∀ n ∈ post, Parsed True r .simple n)
    (hrest : headKind rest = .openCurly) :
    Recovers c false (forRest below init)
      (mark .semicolon :: (Print.condition numerals cond ++
        mark .semicolon :: ((Print.header numerals post).getD [] ++ rest)))
      ⟨some init, cond, post⟩ rest := by
  refine recovers_expect_bind rfl (recovers_kind_bind ?_)
  have hlast : Recovers c false (do
        let _ ← expectOr .semicolon "expected `;`"
        let post ← if (← kind) = .openCurly then pure none else some <$> simpleStatement below
        return Clauses.mk (some init) cond post)
      (mark .semicolon :: ((Print.header numerals post).getD [] ++ rest)) ⟨some init, cond, post⟩
      rest := by
    refine recovers_expectOr_bind rfl (recovers_kind_bind ?_)
    cases post with
    | none => exact recovers_if_pos hrest recovers_pure
    | some post =>
      have hpost := hpost post rfl
      refine recovers_if_neg (hpost.simple_head_ne (by decide)) ?_
      refine Recovers.bind (Recovers.map ?_) recovers_pure
      exact simpleStatement_recovers hb hpost (endsSimple_openCurly hrest)
  cases cond with
  | none => exact recovers_if_pos rfl (recovers_pure.bind hlast)
  | some cond =>
    have hcond := hcond cond rfl
    exact recovers_if_neg (by rintro ⟨⟩) ((hb.expression hcond (.inr rfl)).map.bind hlast)

theorem forHeader_recovers {init cond post : Option Node}
    (hinit : ∀ n ∈ init, n ≠ .empty → Parsed True r .simple n)
    (hcond : ∀ n ∈ cond, Parsed True r .expression n) (hpost : ∀ n ∈ post, Parsed True r .simple n)
    (hclauses : init = none → post = none) (hrest : headKind rest = .openCurly) :
    Recovers c false (forHeader below)
      (Print.clauses (Print.header numerals init) (Print.condition numerals cond)
        ((Print.header numerals post).getD []) ++ rest) ⟨init, cond, post⟩ rest := by
  cases init with
  | none =>
    rw [hclauses rfl, Print.header, Print.clauses]
    refine recovers_kind_bind ?_
    cases cond with
    | none =>
      rw [Print.condition, List.nil_append, hrest]
      exact recovers_pure
    | some cond =>
      refine Recovers.bind (condition_recovers hb (hcond cond rfl) (endsSimple_openCurly hrest)) ?_
      refine recovers_kind_bind (recovers_if_neg ?_ (recovers_pure.bind recovers_pure))
      rw [hrest]
      rintro ⟨⟩
  | some init =>
    rw [Print.header, Print.clauses, List.append_assoc, List.cons_append, List.append_assoc,
      List.cons_append]
    refine recovers_kind_bind ?_
    -- Nothing is printed for an empty first clause: its semicolon comes first.
    by_cases hempty : init = .empty
    · rw [hempty]
      exact forRest_recovers hb hcond hpost hrest
    · have hinit := hinit init rfl hempty
      split
      · exact absurd ‹_› (hinit.simple_head_ne (by decide))
      · exact absurd ‹_› (hinit.simple_head_ne (by decide))
      · refine Recovers.bind (simpleStatement_recovers hb hinit endsSimple_semicolon) ?_
        exact recovers_kind_bind (recovers_if_pos rfl (forRest_recovers hb hcond hpost hrest))

theorem caseGuard_recovers (h : Parsed True r .guard n) (hend : EndsSimple flag (headKind rest)) :
    Recovers c flag (caseGuard below) (node numerals true n ++ rest) n rest := by
  cases h with
  | @guard _ statement _ h hguard =>
    have htext : node numerals true n = node numerals true statement := by
      cases guards_of_guard? hguard <;> rfl
    rw [htext]
    refine recovers_current_bind fun start => ?_
    refine Recovers.bind (simpleStatement_recovers hb h hend) ?_
    rw [hguard]
    exact recovers_pure

end Headers

section Declarations

theorem untypedName_recovers {name : String} (hrest : headKind rest ∈ declarationEnd) :
    Recovers c flag (typedNames below declarationEnd .declaration) (named name :: rest)
      [.identifier name none] rest := by
  have hterminators : EndsNames declarationEnd := by decide
  have hturn : Recovers c flag (nameTurn below declarationEnd ([], [])) (named name :: rest)
      (.done ([], [name])) rest := by
    refine recovers_kind_bind (recovers_if_neg (hterminators.not_contains rfl) ?_)
    refine recovers_expectOr_bind rfl (recovers_kind_bind (recovers_if_neg ?_ ?_))
    · rw [List.contains_iff_mem.2 hrest]
      simp
    · refine recovers_pure.bind (recovers_kind_bind (recovers_if_neg ?_ recovers_pure))
      exact (hterminators _ hrest).1
  exact (recovers_loop (.done hturn)).bind (recovers_if_pos rfl recovers_pure)

include hb

theorem name_recovers (h : Parsed True r .name n) (hrest : headKind rest ∈ declarationEnd) :
    Recovers c flag (typedNames below declarationEnd .declaration) (node numerals false n ++ rest)
      [n] rest := by
  cases h with
  | name => exact untypedName_recovers hrest
  | typedName h => exact typedName_recovers hb (by decide) h hrest

theorem line_recovers (h : Parsed True r .name n) (hrest : headKind rest ∈ declarationEnd)
    (hassign : headKind rest ≠ .assign) :
    Recovers c flag (declarationLine below) (node numerals false n ++ rest) ([n], []) rest := by
  refine Recovers.bind (name_recovers hb h hrest) ?_
  exact recovers_kind_bind (recovers_if_neg hassign recovers_pure)

theorem lastLine_recovers {vals : List Node} (h : Parsed True r .name n)
    (hvals : ∀ n ∈ vals, Parsed True r .expression n) :
    Recovers c flag (declarationLine below)
      (node numerals false n ++ (Print.values (nodes numerals vals) ++ mark .closeParen :: rest))
      ([n], vals) (mark .closeParen :: rest) := by
  cases vals with
  | nil =>
    have hend : TokenKind.closeParen ∈ declarationEnd := by decide
    exact line_recovers hb h hend (by rintro ⟨⟩)
  | cons val vals =>
    rw [nodes, Print.values, ← nodes, List.cons_append]
    refine Recovers.bind (name_recovers hb h List.mem_cons_self) ?_
    refine recovers_kind_bind (recovers_if_pos rfl (recovers_advance_bind ?_))
    refine Recovers.bind (operands_recovers hb (List.cons_ne_nil _ _) hvals (.inr rfl) (by rintro ⟨⟩)) ?_
    exact recovers_pure

omit hb in
theorem Parsed.line_head (h : Parsed True r .name n) (numerals : Numerals) (rest : List Token) :
    headKind (node numerals false n ++ rest) = .identifier := by
  cases h with
  | name => rfl
  | typedName h => exact h.name_head numerals rest

omit hb in
theorem Parsed.text_ne_nil (h : Parsed True r .name n) (numerals : Numerals) :
    node numerals false n ≠ [] := by
  intro hnil
  have hhead := h.line_head numerals []
  rw [hnil] at hhead
  cases hhead

omit hb in
theorem groupLine_recovers {line : List Node × List Node} {v : List Token} {u : List Token}
    (hhead : headKind w = .identifier) (h : Recovers c flag (declarationLine below) w line v)
    (hend : Recovers c flag terminator v () u) : Recovers c flag (groupLine below) w (some line) u := by
  refine recovers_skipSemicolons_bind (by rw [hhead]; rintro ⟨⟩) (recovers_kind_bind ?_)
  rw [hhead]
  exact h.bind (hend.bind recovers_pure)

/-- A group has one line for each name; the lines together are the declaration. -/
theorem lines_recover {ids vals : List Node} (hids : ∀ n ∈ ids, Parsed True r .name n)
    (hvals : ∀ n ∈ vals, Parsed True r .expression n) (hempty : ids = [] → vals = []) :
    ∃ lines, lines.flatMap (·.1) = ids ∧ lines.flatMap (·.2) = vals ∧
      RecoversMany c flag (groupLine below) (joined .semicolon (nodes numerals ids) ++
        (Print.values (nodes numerals vals) ++ mark .closeParen :: rest)) lines
        (mark .closeParen :: rest) := by
  have hend : RecoversMany c flag (groupLine below) (mark .closeParen :: rest) []
      (mark .closeParen :: rest) :=
    .nil (recovers_skipSemicolons_bind (by rintro ⟨⟩) (recovers_kind_bind recovers_pure))
  induction ids with
  | nil =>
    rw [hempty rfl]
    exact ⟨[], rfl, rfl, hend⟩
  | cons n ids ih =>
    obtain ⟨hn, hids⟩ := List.forall_mem_cons.1 hids
    cases ids with
    | nil =>
      refine ⟨[([n], vals)], List.append_nil _, List.append_nil _, .cons ?_ ?_ hend⟩
      · exact groupLine_recovers (hn.line_head numerals _) (lastLine_recovers hb hn hvals)
          (recovers_kind_bind recovers_pure)
      · have hne := List.length_pos_iff.2 (hn.text_ne_nil numerals)
        simp only [nodes, joined, List.length_append]
        omega
    | cons m ids =>
      obtain ⟨lines, hlines, hlines', hrest⟩ := ih hids (by rintro ⟨⟩)
      have hsemicolon : TokenKind.semicolon ∈ declarationEnd := by decide
      refine ⟨([n], []) :: lines, ?_, hlines', ?_⟩
      · rw [List.flatMap_cons, hlines]
        rfl
      · rw [nodes, nodes, joined, ← nodes, List.append_assoc, List.cons_append]
        · refine .cons (groupLine_recovers (hn.line_head numerals _) ?_ terminator_recovers) ?_ hrest
          · exact line_recovers hb hn hsemicolon (by rintro ⟨⟩)
          · simp only [List.length_append, List.length_cons]
            omega
        · rintro ⟨⟩

theorem declaration_recovers {kind : DeclarationKind} {ids vals : List Node}
    (hids : ∀ n ∈ ids, Parsed True r .name n) (hvals : ∀ n ∈ vals, Parsed True r .expression n)
    (hempty : ids = [] → vals = []) :
    Recovers c flag (declaration below) (node numerals false (.declaration kind ids vals) ++ rest)
      (.declaration kind ids vals) rest := by
  obtain ⟨lines, hlines, hlines', hread⟩ := lines_recover hb hids hvals hempty
  have hgroup : Recovers c flag (declarationLines below)
      (mark .openParen :: (joined .semicolon (nodes numerals ids) ++
        (Print.values (nodes numerals vals) ++ mark .closeParen :: rest))) lines rest := by
    refine recovers_kind_bind (recovers_if_pos rfl (recovers_advance_bind ?_))
    exact Recovers.bind (recovers_many hread) (recovers_expect_bind rfl recovers_pure)
  rw [node, if_neg (by rintro ⟨⟩), Print.group, List.cons_append, Print.parens_append, List.append_assoc]
  refine recovers_advance_bind (hgroup.bind ?_)
  rw [hlines, hlines']
  cases kind <;> exact recovers_pure

end Declarations

section Statements

theorem Parsed.header_text (h : Parsed True r .simple n) (hn : n.kind ≠ .declaration) :
    node numerals false n = node numerals true n := by
  cases h with
  | shortDeclaration => exact absurd rfl hn
  | assignment | send | expressionStatement => rfl

theorem Parsed.elseIf_head (h : Parsed True r .elseIf n) (numerals : Numerals) (rest : List Token) :
    headKind (node numerals false n ++ rest) = .ifWord := by
  cases h
  rfl

include hb

theorem alternative_recovers {alt : Option Alternative}
    (hblock : ∀ body, alt = some (.block body) → ∀ n ∈ body, Parsed True r .statement n)
    (hchained : ∀ n, alt = some (.chained n) → Parsed True r .elseIf n)
    (hend : headKind rest ≠ .elseWord) :
    Recovers c flag (alternative below) (Print.alternative numerals alt ++ rest) alt rest := by
  cases alt with
  | none => exact recovers_kind_bind (recovers_if_neg hend recovers_pure)
  | some alt =>
    cases alt with
    | block body =>
      refine recovers_kind_bind (recovers_if_pos rfl (recovers_advance_bind (recovers_kind_bind ?_)))
      exact (block_recovers hb (hblock body rfl)).bind recovers_pure
    | chained n =>
      have hn := hchained n rfl
      rw [Print.alternative, List.cons_append]
      refine recovers_kind_bind (recovers_if_pos rfl (recovers_advance_bind (recovers_kind_bind ?_)))
      rw [hn.elseIf_head]
      exact (hb.elseIf hn hend).bind recovers_pure

theorem ifBody_recovers (h : Parsed True r .elseIf n) (hend : headKind rest ≠ .elseWord) :
    Recovers c flag (ifBody below) (node numerals false n ++ rest) n rest := by
  cases h with
  | elseIf hshort hcond hcons hblock hchained =>
    rw [node, List.cons_append]
    simp only [List.append_assoc]
    refine recovers_expect_bind rfl ?_
    refine Recovers.bind (recovers_withStructLiterals (ifHeader_recovers hb hshort hcond.succ rfl)) ?_
    refine (block_recovers hb hcons).bind ?_
    exact (alternative_recovers hb hblock hchained hend).bind recovers_pure

theorem forStatement_recovers {init cond post : Option Node} {body : List Node}
    (hinit : ∀ n ∈ init, n ≠ .empty → Parsed True r .simple n)
    (hcond : ∀ n ∈ cond, Parsed True r .expression n) (hpost : ∀ n ∈ post, Parsed True r .simple n)
    (hbody : ∀ n ∈ body, Parsed True r .statement n) (hclauses : init = none → post = none) :
    Recovers c flag (forStatement below)
      (node numerals false (.forStatement init cond post body) ++ mark .semicolon :: rest)
      (.forStatement init cond post body) rest := by
  refine recovers_terminated ?_
  rw [node, List.cons_append, List.append_assoc]
  refine recovers_expect_bind rfl (Recovers.bind (recovers_withStructLiterals
    (forHeader_recovers hb hinit hcond hpost hclauses rfl)) ?_)
  exact (block_recovers hb hbody).bind recovers_pure

theorem functionStatement_recovers (name : Option String) {formals body : List Node}
    {result : Option Node} (h : Parsed True r .expression (.function none formals result body)) :
    Recovers c flag (functionStatement below)
      (node numerals false (.function (name.map Node.name) formals result body) ++
        mark .semicolon :: rest)
      (.function (name.map Node.name) formals result body) rest := by
  refine recovers_terminated ?_
  cases name with
  | none =>
    refine recovers_kindAhead_bind (recovers_if_neg (by rintro ⟨⟩) ?_)
    refine recovers_measured_bind (recovers_expect_bind rfl (functionRest_recovers hb h)) fun _ => ?_
    exact recovers_kind_bind recovers_pure
  | some name =>
    refine recovers_kindAhead_bind (recovers_if_pos rfl ?_)
    exact recovers_expect_bind rfl (recovers_advance_bind (functionRest_recovers hb h))

def armEnd : List TokenKind := [.caseWord, .defaultWord, .closeCurly]

theorem caseBody_recovers {body : List Node} (h : ∀ n ∈ body, Parsed True r .statement n)
    (hrest : headKind rest ∈ armEnd) :
    Recovers c flag (caseBody below) (Print.ended (nodes numerals body) ++ rest) body rest := by
  refine recovers_withStructLiterals (recovers_ended ?_ fun n hn more => ?_)
  · have hends : headKind rest = .caseWord ∨ headKind rest = .defaultWord ∨
        headKind rest = .closeCurly := by
      simpa [armEnd] using hrest
    refine recovers_skipSemicolons_bind ?_ (recovers_kind_bind ?_)
    · rcases hends with hk | hk | hk <;> rw [hk] <;> rintro ⟨⟩
    · rcases hends with hk | hk | hk <;> rw [hk] <;> exact recovers_pure
  · have hhead : StartsStatement (headKind (node numerals false n ++ mark .semicolon :: more)) :=
      (h n hn).statement_head
    refine recovers_skipSemicolons_bind (hhead.ne (by decide)) (recovers_kind_bind ?_)
    split
    · exact absurd ‹_› (hhead.ne (by decide))
    · exact absurd ‹_› (hhead.ne (by decide))
    · exact absurd ‹_› (hhead.ne (by decide))
    · exact absurd ‹_› (hhead.ne (by decide))
    · exact (hb.statement (h n hn)).bind recovers_pure

omit hb in
theorem Parsed.arm_head (h : Parsed True r .arm n) :
    headKind (node numerals false n ++ rest) ∈ armEnd := by
  cases h with
  | selectCase => exact List.mem_cons_self
  | defaultCase => exact List.mem_cons_of_mem _ List.mem_cons_self

theorem selectArm_recovers (h : Parsed True r .arm n) (hrest : headKind rest ∈ armEnd) :
    Recovers c flag (selectArm below) (node numerals false n ++ rest) (some n) rest := by
  cases h with
  | selectCase hguard hbody =>
    rw [node, List.cons_append, List.append_assoc, List.cons_append]
    refine recovers_skipSemicolons_bind (by rintro ⟨⟩) (recovers_kind_bind (recovers_advance_bind ?_))
    refine Recovers.bind (caseGuard_recovers hb hguard endsSimple_colon) (recovers_expectOr_bind rfl ?_)
    exact (caseBody_recovers hb hbody hrest).bind recovers_pure
  | defaultCase hbody =>
    refine recovers_skipSemicolons_bind (by rintro ⟨⟩) (recovers_kind_bind (recovers_advance_bind ?_))
    exact recovers_expectOr_bind rfl ((caseBody_recovers hb hbody hrest).bind recovers_pure)

theorem selectStatement_recovers {arms : List Node} (h : ∀ n ∈ arms, Parsed True r .arm n) :
    Recovers c flag (selectStatement below)
      (node numerals false (.selectStatement arms) ++ mark .semicolon :: rest) (.selectStatement arms)
      rest := by
  refine recovers_terminated ?_
  rw [node, Print.nodes_eq_map, ← List.flatMap_def, List.cons_append, Print.braces_append]
  refine recovers_expect_bind rfl (recovers_expectOr_bind rfl ?_)
  refine Recovers.bind (recovers_many_flatMap (fun w => headKind w ∈ armEnd) ?_ ?_ ?_) ?_
    (v := mark .closeCurly :: mark .semicolon :: rest)
  · change TokenKind.closeCurly ∈ armEnd
    decide
  · exact recovers_skipSemicolons_bind (by rintro ⟨⟩) (recovers_kind_bind recovers_pure)
  · intro n hn more hmore
    have harm := h n hn
    refine ⟨harm.arm_head, ?_, selectArm_recovers hb harm hmore⟩
    cases harm <;> exact List.cons_ne_nil _ _
  · exact recovers_expect_bind rfl recovers_pure

omit hb in
theorem recovers_statementBody {form : StatementForm}
    (hform : Table.standard.statement (headKind w) = some form)
    (h : Recovers c flag (statementOf below form) w n rest) :
    Recovers c flag (statementBody below) w n rest := by
  refine recovers_read_bind (recovers_kind_bind ?_)
  rw [c.standard, hform]
  exact h

theorem returnStatement_recovers {es : List Node} (h : ∀ n ∈ es, Parsed True r .expression n) :
    Recovers c flag (returnStatement below)
      (node numerals false (.returnStatement es) ++ mark .semicolon :: rest) (.returnStatement es)
      rest := by
  refine recovers_terminated ?_
  by_cases hne : es = []
  · rw [hne]
    exact recovers_expect_bind rfl (recovers_kind_bind recovers_pure)
  · rw [node, List.cons_append]
    refine recovers_expect_bind rfl (recovers_kind_bind ?_)
    rw [operands_head hne]
    exact Recovers.bind (operands_recovers hb hne h (.inr rfl) (by rintro ⟨⟩)) recovers_pure

theorem statementBody_recovers (h : Parsed True r .statement n) :
    Recovers c flag (statementBody below) (node numerals false n ++ mark .semicolon :: rest) n rest := by
  cases h with
  | simple h hn =>
    refine recovers_read_bind (recovers_kind_bind ?_)
    rw [c.standard, h.simple_head hn, h.header_text hn]
    exact recovers_terminated (simpleStatement_recovers hb h endsSimple_semicolon)
  | @declaration _ kind _ _ hids hvals hempty =>
    have hform : Table.standard.statement (Print.declarationWord kind) = some .declaration := by
      cases kind <;> rfl
    refine recovers_statementBody hform (recovers_terminated ?_)
    exact declaration_recovers hb hids (fun n hn => (hvals n hn).succ) hempty
  | typeDeclaration h =>
    have hend : EndsType .semicolon := by decide
    rw [node, node, List.singleton_append, List.cons_append, List.cons_append]
    refine recovers_statementBody rfl (recovers_terminated (recovers_expect_bind rfl ?_))
    exact recovers_expectOr_bind rfl (Recovers.bind (hb.type h hend) recovers_pure)
  | functionStatement h => exact recovers_statementBody rfl (functionStatement_recovers hb none h)
  | @namedFunction _ name _ _ _ h =>
    exact recovers_statementBody rfl (functionStatement_recovers hb (some name) h)
  | returnStatement h => exact recovers_statementBody rfl (returnStatement_recovers hb h)
  | ifStatement h =>
    have hform : Table.standard.statement
        (headKind (node numerals false n ++ mark .semicolon :: rest)) = some .ifThen := by
      rw [h.elseIf_head]
      rfl
    exact recovers_statementBody hform (recovers_terminated (ifBody_recovers hb h (by rintro ⟨⟩)))
  | forStatement hinit hcond hpost hbody hclauses =>
    have hcond := fun n hn => (hcond n hn).succ
    have hbody := fun n hn => (hbody n hn).succ
    exact recovers_statementBody rfl (forStatement_recovers hb hinit hcond hpost hbody hclauses)
  | goStatement h =>
    refine recovers_statementBody rfl (recovers_terminated (recovers_expect_bind rfl ?_))
    refine recovers_current_bind fun start => ?_
    exact (hb.expression h (.inr rfl)).bind recovers_pure
  | selectStatement h => exact recovers_statementBody rfl (selectStatement_recovers hb h)

end Statements

theorem produce_zero_recovers {goal : Goal} : Recovers c flag (produce 0 goal) w n rest := by
  intro s _ _
  exact .inr ⟨c.setting.limit, ⟨s.current.start, c.setting.file⟩, s, rfl⟩

/-- No tree is too deep to be recovered: with more levels below, more of it is read before the limit
stops the rules. -/
theorem goals_recover (c : Reader) (numerals : Numerals) (levels : Nat) :
    GoalsRecover c numerals (produce levels) := by
  induction levels with
  | zero =>
    constructor <;> intros <;> exact produce_zero_recovers
  | succ levels ih =>
    exact {
      type := fun h hend => recovers_nested (typeBody_recovers ih h hend)
      expression := fun h hend => recovers_nested (parens_recovers ih h hend)
      bare := fun h hflag hend => recovers_nested (bare_recovers ih h hflag hend)
      statement := fun h => recovers_nested (statementBody_recovers ih h)
      elseIf := fun h hend => recovers_nested (ifBody_recovers ih h hend) }

theorem program_recovers {items : List Node} (h : ∀ n ∈ items, Parsed True r .statement n) :
    Recovers c true program (Node.print numerals (.program items)) (.program items) [] := by
  have hitems : Recovers c true (many do
        skipSemicolons
        if (← kind) = .eof then return none else return some (← statement))
      (Print.ended (nodes numerals items) ++ []) items [] := by
    refine recovers_ended ?_ fun n hn more => ?_
    · refine recovers_skipSemicolons_bind (by rintro ⟨⟩) ?_
      exact recovers_kind_bind (recovers_if_pos rfl recovers_pure)
    · have hhead : StartsStatement (headKind (node numerals false n ++ mark .semicolon :: more)) :=
        (h n hn).statement_head
      refine recovers_skipSemicolons_bind (hhead.ne (by decide)) ?_
      refine recovers_kind_bind (recovers_if_neg (hhead.ne (by decide)) ?_)
      refine Recovers.bind ?_ recovers_pure
      refine recovers_read_bind (recovers_get_bind fun s _ => ?_)
      exact (goals_recover c numerals _).statement (h n hn)
  rw [List.append_nil] at hitems
  exact hitems.bind recovers_pure

end MiniGo.Grammar
