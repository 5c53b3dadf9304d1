import MiniGo.Proofs.Grammar.Concatenation
import MiniGo.Proofs.Grammar.LineEnds
import MiniGo.Proofs.Grammar.Lookahead.Statements
import MiniGo.Proofs.Grammar.NameLists

/-!
A declaration in parentheses is the concatenation of its lines. A line that is read as a declaration of its
own has a semicolon behind it there and another one in the group; the rule for lines looks at the kind of it
and at nothing behind it, so what is read of the line is the same in both places.
-/
namespace MiniGo.Grammar

/-- The rule for statements reads all of the tokens: of them and the end of the input that is added to
them only the last is left. -/
def Accepts (file : String) (limit : Nat) (tokens : List Token) (n : Node) : Prop :=
  ∃ t, Rule.Runs statement ⟨file, limit, .standard⟩ (.ofTokens tokens) n t ∧ t.later = []

/-- A line of a declaration, the semicolon that ends it, and the names and values that it stands for. -/
structure Line where
  tokens : List Token
  semicolon : Token
  ids : List Node
  vals : List Node

def Line.ended (l : Line) : List Token := l.tokens ++ [l.semicolon]

/-- A line that is also a declaration of its own, without parentheses: with the word in front of it and a
semicolon behind it. The tokens of that may be at other places. -/
structure Line.Stands (l : Line) (file : String) (limit : Nat) (kind : DeclarationKind) : Prop where
  semicolon : l.semicolon.kind = .semicolon
  alone : ∃ (word : Token) (tokens : List Token) (semicolon : Token),
    word.kind = Print.declarationWord kind ∧ semicolon.kind = .semicolon ∧
      tokens.map Token.content = l.tokens.map Token.content ∧
      (∀ k ∈ tokens.head?, k.kind ≠ .openParen) ∧
      Accepts file limit (word :: (tokens ++ [semicolon])) (.declaration kind l.ids l.vals)

def State.inDeclaration (s : State) : State := { s with depth := 1, peak := max s.peak 1 }

section Starts

variable {c : Setting} {kind : DeclarationKind} {s t : State} {levels : Nat} {n : Node}

theorem State.ofTokens_cons (k : Token) {ks : List Token} {last : Token} (hlast : ks.getLast? = some last)
    (h : last.kind ≠ .eof) :
    State.ofTokens (k :: ks) = ⟨[], k, ks ++ [Token.endOfInput last.stop], 0, 0, true⟩ := by
  unfold State.ofTokens
  rw [List.getLast?_cons, hlast]
  simp [h]

@[simp] theorem statement_declarationWord (kind : DeclarationKind) :
    Table.standard.statement (Print.declarationWord kind) = some .declaration := by
  cases kind <;> rfl

theorem runs_declaration {below : Below} (hword : s.current.kind = Print.declarationWord kind) :
    Rule.Runs (declaration below) c s n t ↔
      ∃ lines, Rule.Runs (declarationLines below) c s.next lines t ∧
        n = .declaration kind (lines.flatMap (·.1)) (lines.flatMap (·.2)) := by
  have hkind : (if s.current.kind = .constWord then DeclarationKind.const else .var) = kind := by
    rw [hword]
    cases kind <;> rfl
  unfold declaration
  rw [runs_advance_bind, runs_bind, hkind]
  simp only [runs_pure]
  constructor
  · rintro ⟨lines, u, hlines, rfl, rfl⟩
    exact ⟨lines, hlines, rfl⟩
  · rintro ⟨lines, hlines, rfl⟩
    exact ⟨lines, t, hlines, rfl, rfl⟩

theorem runs_statement_declaration (hc : c.table = .standard) (hlimit : c.limit = levels + 1)
    (hdepth : s.depth = 0) (hword : s.current.kind = Print.declarationWord kind) :
    Rule.Runs statement c s n t ↔
      ∃ lines u v, Rule.Runs (declarationLines (produce levels)) c s.inDeclaration.next lines u ∧
        Rule.Runs terminator c u () v ∧
        n = .declaration kind (lines.flatMap (·.1)) (lines.flatMap (·.2)) ∧
        t = { v with depth := v.depth - 1 } := by
  have hword' : s.inDeclaration.current.kind = Print.declarationWord kind := hword
  have hbody : ∀ v, Rule.Runs (goalBody (produce levels) .statement) c s.inDeclaration n v ↔
      Rule.Runs (terminated (declaration (produce levels))) c s.inDeclaration n v := by
    intro v
    change Rule.Runs (statementBody (produce levels)) c s.inDeclaration n v ↔ _
    rw [statementBody, runs_read_bind, runs_kind_bind, hc, hword', statement_declarationWord]
    rfl
  change Rule.Runs (produce (c.limit - s.depth) .statement) c s n t ↔ _
  rw [hlimit, hdepth, Nat.sub_zero, produce, runs_nested, hlimit, hdepth]
  constructor
  · rintro ⟨-, v, hrun, rfl⟩
    obtain ⟨u, hdeclaration, hend⟩ := runs_terminated.1 ((hbody v).1 hrun)
    obtain ⟨lines, hlines, hn⟩ := (runs_declaration hword').1 hdeclaration
    exact ⟨lines, u, v, hlines, hend, hn, rfl⟩
  · rintro ⟨lines, u, v, hlines, hend, hn, rfl⟩
    refine ⟨Nat.succ_le_succ (Nat.zero_le _), v, (hbody v).2 (runs_terminated.2 ⟨u, ?_, hend⟩), rfl⟩
    exact (runs_declaration hword').2 ⟨lines, hlines, hn⟩

theorem not_runs_statement_zero (hc : c.limit = 0) : ¬ Rule.Runs statement c s n t := by
  change ¬ Rule.Runs (produce (c.limit - s.depth) .statement) c s n t
  rw [hc, Nat.zero_sub]
  exact not_runs_fail

private theorem runs_declarationLines_one {below : Below} {lines : List (List Node × List Node)}
    (hopen : s.current.kind ≠ .openParen) :
    Rule.Runs (declarationLines below) c s lines t ↔
      ∃ line, Rule.Runs (declarationLine below) c s line t ∧ lines = [line] := by
  unfold declarationLines
  rw [runs_kind_bind, if_neg hopen]
  simp only [runs_bind, runs_pure]
  constructor
  · rintro ⟨line, u, hline, rfl, rfl⟩
    exact ⟨line, hline, rfl⟩
  · rintro ⟨line, hline, rfl⟩
    exact ⟨line, t, hline, rfl, rfl⟩

private theorem runs_declarationLines_group {below : Below} {lines : List (List Node × List Node)}
    (hopen : s.current.kind = .openParen) (h : Repeats (groupLine below) c s.next lines t)
    (hclose : t.current.kind = .closeParen) : Rule.Runs (declarationLines below) c s lines t.next := by
  unfold declarationLines
  rw [runs_kind_bind, if_pos hopen, runs_advance_bind]
  exact runs_bind.2 ⟨lines, t, h.runs_many, runs_expect_bind.2 ⟨hclose, runs_pure.2 ⟨rfl, rfl⟩⟩⟩

end Starts

/-- The tokens of a line in front of a semicolon and the end of the input. The rule for lines comes from
their first one to the semicolon. -/
structure ReadsLine (c : Setting) (levels : Nat) (tokens : List Token) (line : List Node × List Node)
    (s t : State) : Prop where
  run : Rule.Runs (declarationLine (produce levels)) c s line t
  ends : ∃ semicolon e : Token, semicolon.kind = .semicolon ∧ e.kind = .eof ∧
    s.tokens = tokens ++ [semicolon, e] ∧ t.tokens = [semicolon, e]
  passage : Passage tokens
  start : s.current.kind ∉ declarationEnd
  returns : s.Returns t

section Alone

variable {v : Course} {c : Setting} {levels : Nat} {s t u : State} {line : List Node × List Node}
  {tokens : List Token} {semicolon e : Token}

private theorem not_mem_declarationEnd_of_runs_line (hc : c.table = .standard) (hs : s.Ended)
    (h : Rule.Runs (declarationLine (produce levels)) c s line t) : s.current.kind ∉ declarationEnd := by
  intro hend
  obtain ⟨ids, u, hids, -⟩ := runs_bind.1 h
  have hnone : Listing (produce levels) c NameList.declaration.terminators s [] [] s := .names .nil hend
  have herror := (typedNames_listing hc hs hnone).2.2.2 nofun rfl rfl
  cases hids.symm.trans herror

/-- A line that comes to the end of the input together with the semicolon in front of that ends in front
of the semicolon: it does not pass it itself. -/
theorem readsLine_of_runs (hs : s.Within v) (hbehind : s.Unbroken) (hsemi : semicolon.kind = .semicolon)
    (he : e.kind = .eof) (htokens : s.tokens = tokens ++ [semicolon, e])
    (h : Rule.Runs (declarationLine (produce levels)) v.setting s line t)
    (hend : Rule.Runs terminator v.setting t () u) (hu : u.later = []) :
    ReadsLine v.setting levels tokens line s t := by
  obtain ⟨w, hst, hw⟩ := (declarationLine_behaves (produce_behaves v levels)).advances hs h
  have hstart := not_mem_declarationEnd_of_runs_line v.standard hs.ended h
  have hended : t.Ended := (hst.within hs).ended
  have hsplit : w ++ t.tokens = tokens ++ [semicolon, e] := hst.tokens.symm.trans htokens
  rcases runs_terminator.1 hend with ⟨hk, rfl⟩ | ⟨-, rfl⟩
  · obtain ⟨k, hlater⟩ : ∃ k, t.later = [k] := by
      unfold State.next at hu
      cases hl : t.later with
      | nil =>
        rw [State.Ended, State.tokens, hl] at hended
        cases hk.symm.trans (Option.some.inj hended)
      | cons k ks =>
        rw [hl] at hu
        exact ⟨k, by rw [show ks = [] from hu]⟩
    have htwo : t.tokens = [t.current, k] := congrArg (t.current :: ·) hlater
    rw [htwo] at hsplit
    obtain ⟨rfl, hlast⟩ := List.append_inj' hsplit rfl
    exact ⟨h, ⟨semicolon, e, hsemi, he, htokens, htwo.trans hlast⟩, hw, hstart, hst.toReturns⟩
  · exfalso
    rw [State.tokens, hu, List.append_cons tokens] at hsplit
    obtain ⟨rfl, -⟩ := List.append_inj' hsplit rfl
    rcases declarationLine_steady (produce_firm v.setting levels) s line _ hbehind h with hhead | ⟨-, heof⟩
    · refine hhead semicolon ?_ hsemi
      rw [hst.behind, List.reverse_concat]
      rfl
    · rw [State.Ended, State.tokens, hu] at hended
      exact heof (Option.some.inj hended)

end Alone

section Group

variable {c : Setting} {levels : Nat} {s t x : State} {line : List Node × List Node}
  {tokens tokens' later : List Token} {semicolon : Token}

/-- What is read of a line in front of the end of the input is also read of it where it stands in front of
anything else, deeper levels having been reached before. -/
theorem ReadsLine.elsewhere (h : ReadsLine c levels tokens line s t) (hc : c.table = .standard)
    (hx : x.tokens = tokens' ++ semicolon :: later)
    (hcontent : tokens'.map Token.content = tokens.map Token.content)
    (hsemi : semicolon.kind = .semicolon) (hdepth : x.depth = s.depth) (hpeak : s.peak ≤ x.peak)
    (hflag : x.structLiterals = s.structLiterals) :
    x.current.kind = s.current.kind ∧
      ∃ y, Rule.Runs (declarationLine (produce levels)) c x line y ∧ y.tokens = semicolon :: later ∧
        x.Returns y ∧ x.peak ≤ y.peak := by
  obtain ⟨semicolon', e, hsemi', he, hs, ht⟩ := h.ends
  -- First the tokens of the other place in front of the same end, then the other tokens behind them.
  obtain ⟨m, hm, hmdepth, hmpeak, hmflag⟩ : ∃ m : State, m.tokens = tokens' ++ [semicolon', e] ∧
      m.depth = s.depth ∧ m.peak = s.peak ∧ m.structLiterals = s.structLiterals := by
    cases tokens' with
    | nil => exact ⟨{ s with current := semicolon', later := [e] }, rfl, rfl, rfl, rfl⟩
    | cons k ks => exact ⟨{ s with current := k, later := ks ++ [semicolon', e] }, rfl, rfl, rfl, rfl⟩
  let v : View := ⟨c, hc, none, 0⟩
  have hbeside : v.Beside s m := by
    refine ⟨⟨hmdepth, hmpeak.trans (Nat.max_zero _).symm, hmflag⟩, ?_⟩
    rw [hs, hm]
    refine .append h.passage.bracketed.ne_eof hcontent (.cons ?_ (.refl _) (.last rfl he (.refl _)))
    rw [hsemi']
    decide
  let f : Fork := ⟨c, semicolon', semicolon, hsemi.trans hsemi'.symm, [e], later, List.cons_ne_nil _ _⟩
  have hfork : f.Beside x.peak m x :=
    ⟨⟨tokens', hm, hx⟩, hdepth.trans hmdepth.symm, by omega, hflag.trans hmflag.symm⟩
  refine ⟨hfork.kind.trans (hbeside.current_alike rfl).kind, ?_⟩
  have htracks : Tracks v false s m (declarationLine (produce levels)) (declarationLine (produce levels))
      (Fewer s) := declarationLine_tracks (produce_tracks v levels)
  obtain ⟨t', hrun, hbeside', hreturns⟩ := htracks.runs hbeside h.run
  have hlength : t'.tokens.length = 2 := hbeside'.tokens.length_eq.trans (congrArg List.length ht)
  obtain ⟨-, y, hy, hfork'⟩ := (declarationLine_local (produce_local f levels)).follows hfork hrun
    (Nat.le_of_eq (Nat.succ.inj hlength).symm)
  obtain ⟨w, hw, hw'⟩ := hfork'.tokens
  have htwo : 2 = w.length + 2 :=
    hlength.symm.trans ((congrArg List.length hw).trans List.length_append)
  obtain rfl : w = [] := List.eq_nil_of_length_eq_zero (by omega)
  refine ⟨y, hy, hw', ⟨?_, ?_⟩, hfork'.peak ▸ Nat.le_max_right _ _⟩
  · rw [hfork'.depth, hbeside'.depth, hreturns.depth, hdepth]
  · rw [hfork'.structLiterals, hbeside'.structLiterals, hreturns.structLiterals, hflag]

theorem groupLine_runs {below : Below} {k : Token} {ks : List Token}
    (hstart : x.current.kind ∉ declarationEnd) (h : Rule.Runs (declarationLine below) c x line t)
    (ht : t.tokens = semicolon :: k :: ks) (hsemi : semicolon.kind = .semicolon) :
    Rule.Runs (groupLine below) c x (some line) t.next := by
  have hk : t.current.kind = .semicolon := (State.next_of_tokens ht).1 ▸ hsemi
  have hskip : Rule.Runs skipSemicolons c x () x :=
    skipSemicolons_of_ne fun heq => hstart (by rw [heq]; decide)
  refine runs_bind.2 ⟨(), x, hskip, runs_kind_bind.2 ?_⟩
  split
  · rename_i hclose
    exact absurd (by rw [hclose]; decide) hstart
  · rename_i heof
    exact absurd (by rw [heof]; decide) hstart
  · refine runs_bind.2 ⟨line, t, h, runs_bind.2 ⟨(), t.next, ?_, runs_pure.2 ⟨rfl, rfl⟩⟩⟩
    exact runs_terminator.2 (.inl ⟨hk, rfl⟩)

theorem groupLine_runs_none {below : Below} (hclose : x.current.kind = .closeParen) :
    Rule.Runs (groupLine below) c x none x := by
  have hskip : Rule.Runs skipSemicolons c x () x := skipSemicolons_of_ne (by rw [hclose]; decide)
  refine runs_bind.2 ⟨(), x, hskip, runs_kind_bind.2 ?_⟩
  rw [hclose]
  exact runs_pure.2 ⟨rfl, rfl⟩

end Group

section Groups

variable {file : String} {limit levels : Nat} {kind : DeclarationKind} {l : Line} {lines : List Line}
  {closing : Token} {rest : List Token} {x : State}

theorem Line.Stands.limit_pos (h : l.Stands file limit kind) : 0 < limit := by
  obtain ⟨word, tokens, semicolon, -, -, -, -, t, hrun, -⟩ := h.alone
  refine Nat.pos_of_ne_zero ?_
  rintro rfl
  exact not_runs_statement_zero rfl hrun

theorem inDeclaration_ofTokens (word : Token) {ks : List Token} {last : Token}
    (hlast : ks.getLast? = some last) (h : last.kind ≠ .eof) :
    let s := (State.ofTokens (word :: ks)).inDeclaration.next
    s.tokens = ks ++ [Token.endOfInput last.stop] ∧ s.depth = 1 ∧ s.peak = 1 ∧
      s.structLiterals = true ∧ s.behind = [word] := by
  intro s
  have hs : s = (State.mk [] word (ks ++ [Token.endOfInput last.stop]) 1 1 true).next := by
    simp only [s, State.ofTokens_cons word hlast h]
    rfl
  rw [hs]
  cases ks <;> exact ⟨rfl, rfl, rfl, rfl, rfl⟩

theorem Line.Stands.readsLine (h : l.Stands file (levels + 1) kind) :
    ∃ tokens s t, tokens.map Token.content = l.tokens.map Token.content ∧
      ReadsLine ⟨file, levels + 1, .standard⟩ levels tokens (l.ids, l.vals) s t ∧
      s.depth = 1 ∧ s.peak = 1 ∧ s.structLiterals = true := by
  obtain ⟨word, tokens, semicolon, hword, hsemi, hcontent, hopen, t, hrun, hend⟩ := h.alone
  have hlast : (tokens ++ [semicolon]).getLast? = some semicolon := List.getLast?_concat
  have hne : semicolon.kind ≠ .eof := by rw [hsemi]; decide
  have hofTokens := State.ofTokens_cons word hlast hne
  obtain ⟨found, t, u, hfound, hterminator, hn, rfl⟩ := (runs_statement_declaration rfl rfl
    (by rw [hofTokens]) (by rwa [hofTokens])).1 hrun
  obtain ⟨hs, hdepth, hpeak, hflag, hbehind⟩ := inDeclaration_ofTokens word hlast hne
  rw [List.append_assoc] at hs
  have hfirst : (State.ofTokens (word :: (tokens ++ [semicolon]))).inDeclaration.next.current.kind ≠
      .openParen := by
    cases tokens with
    | nil =>
      rw [(List.cons.inj hs).1, hsemi]
      decide
    | cons k ks =>
      rw [(List.cons.inj hs).1]
      exact hopen k rfl
  obtain ⟨line, hline, rfl⟩ := (runs_declarationLines_one hfirst).1 hfound
  rw [List.flatMap_singleton, List.flatMap_singleton] at hn
  obtain ⟨-, hids, hvals⟩ := Node.declaration.inj hn
  obtain rfl : line = (l.ids, l.vals) := Prod.ext hids.symm hvals.symm
  refine ⟨tokens, _, t, hcontent, readsLine_of_runs (v := ⟨_, rfl, _⟩) ⟨?_, fun _ hk => hk⟩ (.inl ?_) hsemi
    rfl hs hline hterminator hend, hdepth, hpeak, hflag⟩
  · rw [State.Ended, hs]
    simp [Token.endOfInput]
  · rw [hbehind]
    intro k hk
    obtain rfl := Option.some.inj hk
    rw [hword]
    cases kind <;> decide

theorem Line.Stands.runs_groupLine (h : l.Stands file (levels + 1) kind) {k : Token} {ks : List Token}
    (hx : x.tokens = l.ended ++ k :: ks) (hdepth : x.depth = 1) (hpeak : 1 ≤ x.peak)
    (hflag : x.structLiterals = true) :
    ∃ y, Rule.Runs (groupLine (produce levels)) ⟨file, levels + 1, .standard⟩ x (some (l.ids, l.vals)) y ∧
      y.tokens = k :: ks ∧ x.Returns y ∧ x.peak ≤ y.peak := by
  obtain ⟨tokens, s, t, hcontent, hreads, hsdepth, hspeak, hsflag⟩ := h.readsLine
  rw [Line.ended, List.append_assoc] at hx
  obtain ⟨hkind, y, hy, hytokens, hreturns, hypeak⟩ := hreads.elsewhere rfl hx hcontent.symm h.semicolon
    (hdepth.trans hsdepth.symm) (hspeak ▸ hpeak) (hflag.trans hsflag.symm)
  obtain ⟨-, hnext, -, hnextpeak, -⟩ := State.next_of_tokens hytokens
  refine ⟨y.next, groupLine_runs (hkind ▸ hreads.start) hy hytokens h.semicolon, hnext,
    hreturns.trans y.returns_next, hnextpeak.symm ▸ hypeak⟩

theorem lines_repeat (h : ∀ l ∈ lines, l.Stands file (levels + 1) kind)
    (hclosing : closing.kind = .closeParen) (hx : x.tokens = lines.flatMap Line.ended ++ closing :: rest)
    (hdepth : x.depth = 1) (hpeak : 1 ≤ x.peak) (hflag : x.structLiterals = true) :
    ∃ y, Repeats (groupLine (produce levels)) ⟨file, levels + 1, .standard⟩ x
      (lines.map fun l => (l.ids, l.vals)) y ∧ y.tokens = closing :: rest ∧ x.Returns y := by
  induction lines generalizing x with
  | nil =>
    have hcurrent : x.current = closing := (List.cons.inj hx).1
    exact ⟨x, .done (groupLine_runs_none (hcurrent ▸ hclosing)), hx, rfl, rfl⟩
  | cons l lines ih =>
    obtain ⟨hl, hlines⟩ := List.forall_mem_cons.1 h
    obtain ⟨k, ks, hk⟩ : ∃ k ks, lines.flatMap Line.ended ++ closing :: rest = k :: ks :=
      List.exists_cons_of_ne_nil (by simp)
    rw [List.flatMap_cons, List.append_assoc, hk] at hx
    obtain ⟨y, hline, hy, hreturns, hypeak⟩ := hl.runs_groupLine hx hdepth hpeak hflag
    obtain ⟨z, hrest, hz, hreturns'⟩ := ih hlines (hy.trans hk.symm) (hreturns.depth.trans hdepth)
      (Nat.le_trans hpeak hypeak) (hreturns.structLiterals.trans hflag)
    refine ⟨z, .more hline ?_ hrest, hz, hreturns.trans hreturns'⟩
    have hxlength := congrArg List.length hx
    have hylength := congrArg List.length hy
    simp only [State.tokens, Line.ended, List.length_append, List.length_cons] at hxlength hylength
    omega

theorem runs_group (h : ∀ l ∈ lines, l.Stands file (levels + 1) kind) {opening k : Token} {ks : List Token}
    (hopening : opening.kind = .openParen) (hclosing : closing.kind = .closeParen)
    (hx : x.tokens = opening :: (lines.flatMap Line.ended ++ closing :: k :: ks)) (hdepth : x.depth = 1)
    (hpeak : 1 ≤ x.peak) (hflag : x.structLiterals = true) :
    ∃ y, Rule.Runs (declarationLines (produce levels)) ⟨file, levels + 1, .standard⟩ x
      (lines.map fun l => (l.ids, l.vals)) y ∧ y.tokens = k :: ks := by
  obtain ⟨l, ls, hl⟩ : ∃ l ls, lines.flatMap Line.ended ++ closing :: k :: ks = l :: ls :=
    List.exists_cons_of_ne_nil (by simp)
  rw [hl] at hx
  obtain ⟨hcurrent, hnext, hnextdepth, hnextpeak, hnextflag⟩ := State.next_of_tokens hx
  obtain ⟨y, hrepeats, hy, -⟩ := lines_repeat h hclosing (hnext.trans hl.symm) (hnextdepth.trans hdepth)
    (hnextpeak.symm ▸ hpeak) (hnextflag.trans hflag)
  obtain ⟨hlast, hbehind, -⟩ := State.next_of_tokens hy
  exact ⟨y.next, runs_declarationLines_group (hcurrent ▸ hopening) hrepeats (hlast ▸ hclosing), hbehind⟩

/-- A declaration in parentheses is read to its end, and it is the concatenation of its lines. -/
theorem group_concatenates (file : String) (limit : Nat) (kind : DeclarationKind) (lines : List Line)
    (hlines : ∀ l ∈ lines, l.Stands file limit kind) (hlimit : lines = [] → 0 < limit)
    {word opening closing last : Token} (hword : word.kind = Print.declarationWord kind)
    (hopening : opening.kind = .openParen) (hclosing : closing.kind = .closeParen)
    (hlast : last.kind = .semicolon) :
    Accepts file limit (word :: opening :: (lines.flatMap Line.ended ++ [closing, last]))
      (.declaration kind (lines.flatMap Line.ids) (lines.flatMap Line.vals)) := by
  obtain ⟨levels, rfl⟩ : ∃ levels, limit = levels + 1 := by
    refine Nat.exists_eq_add_one.2 ?_
    cases lines with
    | nil => exact hlimit rfl
    | cons l lines => exact (hlines l List.mem_cons_self).limit_pos
  have hgetLast : (opening :: (lines.flatMap Line.ended ++ [closing, last])).getLast? = some last := by
    rw [List.getLast?_cons, List.getLast?_append]
    rfl
  have hne : last.kind ≠ .eof := by rw [hlast]; decide
  have hofTokens := State.ofTokens_cons word hgetLast hne
  obtain ⟨hs, hdepth, hpeak, hflag, -⟩ := inDeclaration_ofTokens word hgetLast hne
  rw [List.cons_append, List.append_assoc] at hs
  obtain ⟨y, hgroup, hy⟩ := runs_group hlines hopening hclosing hs hdepth (Nat.le_of_eq hpeak.symm) hflag
  obtain ⟨hcurrent, hend, -⟩ := State.next_of_tokens hy
  refine ⟨_, (runs_statement_declaration rfl rfl (by rw [hofTokens]) (by rwa [hofTokens])).2
    ⟨lines.map fun l => (l.ids, l.vals), y, y.next, hgroup, ?_, ?_, rfl⟩, (List.cons.inj hend).2⟩
  · exact runs_terminator.2 (.inl ⟨hcurrent ▸ hlast, rfl⟩)
  · rw [List.flatMap_map, List.flatMap_map]

def lineWithValue : Line :=
  ⟨[⟨.identifier, "x", 4, 5⟩, ⟨.assign, "=", 5, 6⟩, ⟨.identifier, "y", 6, 7⟩], ⟨.semicolon, ";", 7, 8⟩,
    [.name "x"], [.name "y"]⟩

def lineWithType : Line :=
  ⟨[⟨.identifier, "z", 8, 9⟩, ⟨.identifier, "number", 10, 16⟩], ⟨.semicolon, ";", 16, 17⟩,
    [.identifier "z" (some (.basicType .number))], []⟩

private theorem lineWithValue_stands : lineWithValue.Stands "shell" 2 .var := by
  refine ⟨rfl, ⟨.varWord, "var", 0, 3⟩, lineWithValue.tokens, lineWithValue.semicolon, rfl, rfl, rfl, ?_,
    ⟨[lineWithValue.semicolon, ⟨.identifier, "y", 6, 7⟩, ⟨.assign, "=", 5, 6⟩, ⟨.identifier, "x", 4, 5⟩,
      ⟨.varWord, "var", 0, 3⟩], Token.endOfInput 8, [], 0, 2, true⟩, ?_, rfl⟩
  · rintro k ⟨⟩
    decide
  · rfl

private theorem lineWithType_stands : lineWithType.Stands "shell" 2 .var := by
  refine ⟨rfl, ⟨.varWord, "var", 0, 3⟩, [⟨.identifier, "z", 4, 5⟩, ⟨.identifier, "number", 6, 12⟩],
    ⟨.semicolon, ";", 12, 13⟩, rfl, rfl, rfl, ?_,
    ⟨[⟨.semicolon, ";", 12, 13⟩, ⟨.identifier, "number", 6, 12⟩, ⟨.identifier, "z", 4, 5⟩,
      ⟨.varWord, "var", 0, 3⟩], Token.endOfInput 13, [], 0, 2, true⟩, ?_, rfl⟩
  · rintro k ⟨⟩
    decide
  · rfl

theorem group_concatenates_two :
    (∀ l ∈ [lineWithValue, lineWithType], l.Stands "shell" 2 .var) ∧
      Accepts "shell" 2 (⟨.varWord, "var", 0, 3⟩ :: ⟨.openParen, "(", 3, 4⟩ ::
          ([lineWithValue, lineWithType].flatMap Line.ended ++
            [⟨.closeParen, ")", 17, 18⟩, ⟨.semicolon, ";", 18, 19⟩]))
        (.declaration .var [.name "x", .identifier "z" (some (.basicType .number))] [.name "y"]) := by
  have hlines : ∀ l ∈ [lineWithValue, lineWithType], l.Stands "shell" 2 .var :=
    List.forall_mem_cons.2 ⟨lineWithValue_stands, List.forall_mem_singleton.2 lineWithType_stands⟩
  exact ⟨hlines, group_concatenates "shell" 2 .var _ hlines nofun rfl rfl rfl rfl⟩

/-- A group without lines is a statement too, so it needs one level. -/
theorem not_accepts_group_at_zero :
    (∀ l ∈ ([] : List Line), l.Stands "shell" 0 .var) ∧
      ¬ Accepts "shell" 0 (⟨.varWord, "var", 0, 3⟩ :: ⟨.openParen, "(", 3, 4⟩ ::
          (([] : List Line).flatMap Line.ended ++
            [⟨.closeParen, ")", 4, 5⟩, ⟨.semicolon, ";", 5, 6⟩]))
        (.declaration .var [] []) := by
  refine ⟨List.forall_mem_nil _, ?_⟩
  rintro ⟨t, hrun, -⟩
  exact not_runs_statement_zero rfl hrun

end Groups

end MiniGo.Grammar
