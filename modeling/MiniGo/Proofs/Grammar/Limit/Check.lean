import MiniGo.Proofs.Grammar.Parsed
import MiniGo.Proofs.Tree.Threshold

/-!
The check of the trees that the rules build. It counts levels by rules of its own, but never more than
twice those that the rules have counted.
-/
namespace MiniGo

open Grammar

namespace Check

/-- What the check makes of a part of a tree that is worth `r` levels, by what it was read as. Every
slot has the levels that it needs: twice as many for expressions and types, one more for statements,
one less for what a header or a result adds no level of its own to. -/
def Judged (limit r : Nat) (n : Node) : Phrase → Prop
  | .type => ∀ levels parent field, 2 * r ≤ levels →
    Shallow (check limit levels (.type parent field) n)
  | .result => ∀ levels parent field, 2 * r ≤ levels + 1 →
    Shallow (check limit levels (.type parent field) n)
  | .name | .typedName => ∀ levels parent field, 2 * r ≤ levels + 2 →
    Shallow (identifier (check limit levels) parent field n)
  | .expression => ∀ levels parent field, 2 * r ≤ levels →
    Shallow (check limit levels (.expression parent field) n)
  | .fieldValue => ∀ levels, 2 * r ≤ levels + 2 → Shallow (fieldValue (check limit levels) n)
  | .simple => ∀ levels, 2 * r ≤ levels + 1 →
    (∀ parent field, Shallow (check limit levels (.statement parent field) n)) ∧
      ∀ g, guard? n = some g → Shallow (check limit levels .guard g)
  | .statement => ∀ levels parent field, 2 * r + 1 ≤ levels →
    Shallow (check limit levels (.statement parent field) n)
  | .elseIf => ∀ levels, 2 * r + 1 ≤ levels → Shallow (check limit levels .elseIf n)
  | .arm => ∀ levels, 2 * r ≤ levels → Shallow (check limit levels .arm n)
  | .guard => ∀ levels, 2 * r ≤ levels + 1 → Shallow (check limit levels .guard n)

section Parts

variable {limit r levels : Nat} {below : Below} {parent : NodeKind} {field : String}

theorem shallow_name {s : String} : Shallow (identifier below parent field (.identifier s none)) :=
  shallow_ite shallow_badNode shallow_ok

theorem typedIdentifier_shallow {n : Node} (h : Shallow (identifier below parent field n)) :
    Shallow (typedIdentifier below parent field n) := by
  unfold typedIdentifier
  split
  · exact shallow_badNode
  · exact h

theorem simpleStatement_shallow {n : Node} (h : Shallow (below (.statement parent field) n)) :
    Shallow (simpleStatement below parent field n) := by
  unfold simpleStatement
  split
  · exact h
  · exact h
  · exact h
  · exact h
  · exact shallow_badChild

theorem declaredNames_shallow {ids : List Node}
    (h : ∀ n ∈ ids, Shallow (identifier below .declaration "ids" n)) :
    Shallow (declaredNames below ids) :=
  shallow_ite shallow_badNode (shallow_forM h)

theorem targets_shallow {spelled : Prop} {targets : List Node}
    (hparsed : ∀ n ∈ targets, Parsed spelled r .expression n)
    (h : ∀ n ∈ targets, Shallow (below (.expression .assignment "ids") n)) :
    Shallow (Check.targets below targets) := by
  refine shallow_ite shallow_badNode (shallow_forM fun n hn => ?_)
  have hn' := hparsed n hn
  have hshallow := h n hn
  unfold target
  split
  · cases hn'
    exact shallow_name
  · exact hshallow
  · exact shallow_badChild

theorem tupleType_shallow {elements : List Node} (h : ∀ n ∈ elements, Judged limit r n .type)
    (hlevels : 2 * r + 1 ≤ levels) :
    Shallow (check limit levels (.type parent field) (.tupleType elements)) := by
  cases levels with
  | zero => omega
  | succ l => exact shallow_forM fun n hn => h n hn l _ _ (by omega)

theorem declaration_shallow {kind : DeclarationKind} {ids vals : List Node}
    (hids : ∀ n ∈ ids, Judged limit (r + 1) n .name)
    (hvals : ∀ n ∈ vals, Judged limit r n .expression) (hlevels : 2 * r + 1 ≤ levels) :
    Shallow (check limit levels (.statement parent field) (.declaration kind ids vals)) := by
  cases levels with
  | zero => omega
  | succ l =>
    refine (declaredNames_shallow fun n hn => hids n hn l _ _ (by omega)).bind ?_
    exact shallow_forM fun n hn => hvals n hn l _ _ (by omega)

theorem functionParts_shallow {name result : Option Node} {formals body : List Node}
    (hname : ∀ n ∈ name, Shallow (identifier below .function "name" n))
    (h : Shallow (functionParts below none formals result body)) :
    Shallow (functionParts below name formals result body) :=
  Shallow.bind (shallow_optional hname) h

theorem received_shallow {spelled : Prop} {chan : Node} {mark : Bool}
    (hparsed : Parsed spelled r .expression (.receive chan mark))
    (h : Judged limit r (.receive chan mark) .expression) (hlevels : 2 * r ≤ levels + 1) :
    Shallow (check limit levels (.expression .receive "chan") chan) := by
  cases hparsed
  exact h (levels + 1) .receive "chan" hlevels

end Parts

theorem judged_of_parsed {spelled : Prop} {limit r : Nat} {p : Phrase} {n : Node}
    (h : Parsed spelled r p n) : Judged limit r n p := by
  induction h with
  | basicType =>
    rintro (_ | l) parent field hlevels
    · omega
    · exact shallow_ok
  | customType =>
    rintro (_ | l) parent field hlevels
    · omega
    · exact shallow_ite shallow_badNode shallow_ok
  | sliceType _ ih | arrayType _ ih | chanType _ _ ih =>
    rintro (_ | l) parent field hlevels
    · omega
    · exact ih l _ _ (by omega)
  | functionType _ _ ihparams ihresult =>
    rintro (_ | l) parent field hlevels
    · omega
    · exact (tupleType_shallow ihparams (by omega)).bind (ihresult l _ _ (by omega))
  | procedureType _ ih =>
    rintro (_ | _ | l) parent field hlevels
    · omega
    · omega
    · exact (tupleType_shallow ih (by omega)).bind shallow_ok
  | structType _ ih =>
    rintro (_ | l) parent field hlevels
    · omega
    · refine shallow_forM (List.forall_mem_map.2 fun n hn => ?_)
      exact typedIdentifier_shallow (ih n hn l _ _ (by omega))
  | resultType _ ih =>
    intro levels parent field hlevels
    exact ih levels parent field (by omega)
  | resultTypes _ ih =>
    intro levels parent field hlevels
    exact tupleType_shallow ih (by omega)
  | name =>
    intro levels parent field _
    exact shallow_name
  | typed _ ih =>
    intro levels parent field hlevels
    exact shallow_ite shallow_badNode (ih levels _ _ (by omega))
  | typedName _ ih => exact ih
  | identifier =>
    rintro (_ | l) parent field hlevels
    · omega
    · exact shallow_ite shallow_badNode shallow_ok
  | number | string | bool =>
    rintro (_ | l) parent field hlevels
    · omega
    · exact shallow_ok
  | application _ _ ihoperator ihoperands =>
    rintro (_ | l) parent field hlevels
    · omega
    · refine (ihoperator l _ _ (by omega)).bind (shallow_forM fun n hn => ?_)
      exact ihoperands n hn l _ _ (by omega)
  | unary _ _ ih =>
    rintro (_ | l) parent field hlevels
    · omega
    · exact shallow_ite (ih l _ _ (by omega)) shallow_badNode
  | binary _ _ _ ihleft ihright =>
    rintro (_ | l) parent field hlevels
    · omega
    · exact shallow_ite ((ihleft l _ _ (by omega)).bind (ihright l _ _ (by omega))) shallow_badNode
  | index _ _ ihaccessed ihindex =>
    rintro (_ | l) parent field hlevels
    · omega
    · exact (ihaccessed l _ _ (by omega)).bind (ihindex l _ _ (by omega))
  | member _ ih =>
    rintro (_ | l) parent field hlevels
    · omega
    · exact (ih l _ _ (by omega)).bind shallow_name
  | receive _ ih =>
    rintro (_ | l) parent field hlevels
    · omega
    · exact ih l _ _ (by omega)
  | structLiteral _ ih =>
    rintro (_ | _ | l) parent field hlevels
    · omega
    · omega
    · refine Shallow.bind (shallow_ite shallow_badNode shallow_ok) (shallow_forM fun n hn => ?_)
      exact ih n hn (l + 1) (by omega)
  | fieldValue _ ih =>
    intro levels hlevels
    exact shallow_name.bind (ih levels _ _ (by omega))
  | function _ _ _ ihformals ihresult ihbody =>
    rintro (_ | l) parent field hlevels
    · omega
    · refine shallow_ok.bind (Shallow.bind (shallow_forM fun n hn => ?_) (Shallow.bind
        (shallow_optional fun n hn => ?_) (shallow_forM fun n hn => ?_)))
      · exact typedIdentifier_shallow (ihformals n hn l _ _ (by omega))
      · exact ihresult n hn l _ _ (by omega)
      · exact ihbody n hn l _ _ (by omega)
  | @shortDeclaration _ names _ _ _ hparsed ih =>
    rintro (_ | l) hlevels
    · omega
    · have hnames : ∀ n ∈ names.map Node.name,
          Shallow (identifier (check limit l) .declaration "ids" n) :=
        List.forall_mem_map.2 fun _ _ => shallow_name
      refine ⟨fun parent field => ?_, fun g hg => ?_⟩
      · refine (declaredNames_shallow hnames).bind (shallow_forM fun n hn => ?_)
        exact ih n hn l _ _ (by omega)
      · cases guards_of_guard? hg with
        | declaration =>
          refine (declaredNames_shallow hnames).bind ?_
          exact received_shallow (hparsed _ List.mem_cons_self) (ih _ List.mem_cons_self) (by omega)
  | assignment _ _ _ htargets hparsed ihtargets ih =>
    rintro (_ | l) hlevels
    · omega
    · have hshallow := targets_shallow htargets fun n hn => ihtargets n hn l _ _ (by omega)
      refine ⟨fun parent field => ?_, fun g hg => ?_⟩
      · exact hshallow.bind (shallow_forM fun n hn => ih n hn l _ _ (by omega))
      · cases guards_of_guard? hg with
        | assignment =>
          refine hshallow.bind ?_
          exact received_shallow (hparsed _ List.mem_cons_self) (ih _ List.mem_cons_self) (by omega)
  | send _ _ ihchan ihval =>
    rintro (_ | l) hlevels
    · omega
    · have hshallow := (ihchan l .send "chan" (by omega)).bind (f := fun _ => _)
        (ihval l .send "val" (by omega))
      refine ⟨fun parent field => hshallow, fun g hg => ?_⟩
      cases guards_of_guard? hg with
      | send => exact hshallow
  | expressionStatement hparsed ih =>
    rintro (_ | l) hlevels
    · omega
    · refine ⟨fun parent field => ih l _ _ (by omega), fun g hg => ?_⟩
      cases guards_of_guard? hg with
      | receive => exact received_shallow hparsed ih (by omega)
  | simple _ _ ih =>
    intro levels parent field hlevels
    exact (ih levels (by omega)).1 parent field
  | declaration _ _ _ ihids ihvals =>
    intro levels parent field hlevels
    exact declaration_shallow ihids ihvals (by omega)
  | typeDeclaration _ ih =>
    rintro (_ | l) parent field hlevels
    · omega
    · exact shallow_ite shallow_badNode (ih l _ _ (by omega))
  | functionStatement _ _ =>
    rintro (_ | l) parent field hlevels
    · omega
    · exact shallow_badNode
  | namedFunction _ ih =>
    rintro (_ | l) parent field hlevels
    · omega
    · refine functionParts_shallow ?_ (ih (l + 1) .function "" (by omega))
      rintro n ⟨⟩
      exact shallow_name
  | returnStatement _ ih =>
    rintro (_ | l) parent field hlevels
    · omega
    · exact shallow_forM fun n hn => ih n hn l _ _ (by omega)
  | ifStatement h ih =>
    rintro (_ | l) parent field hlevels
    · omega
    · have hshallow := ih (l + 1) hlevels
      cases h
      exact hshallow
  | elseIf _ _ _ _ _ ihshort ihcond ihcons ihblock ihchained =>
    rintro (_ | l) hlevels
    · omega
    · refine Shallow.bind (shallow_optional fun n hn => ?_) (Shallow.bind
        (ihcond l _ _ (by omega)) (Shallow.bind (shallow_forM fun n hn => ?_) ?_))
      · exact simpleStatement_shallow ((ihshort n hn l (by omega)).1 _ _)
      · exact ihcons n hn l _ _ (by omega)
      · split
        · exact shallow_ok
        · exact shallow_forM fun n hn => ihblock _ rfl n hn l _ _ (by omega)
        · exact ihchained _ rfl l (by omega)
  | forStatement _ _ _ _ _ ihinit ihcond ihpost ihbody =>
    rintro (_ | l) parent field hlevels
    · omega
    · refine Shallow.bind (shallow_optional fun n hn => ?_) (Shallow.bind
        (shallow_optional fun n hn => ?_) (Shallow.bind (shallow_optional fun n hn => ?_)
          (shallow_forM fun n hn => ?_)))
      · unfold forInit
        split
        · exact shallow_ok
        · rename_i hne
          exact simpleStatement_shallow ((ihinit n hn hne l (by omega)).1 _ _)
      · exact ihcond n hn l _ _ (by omega)
      · unfold forPost
        split
        · exact shallow_badChild
        · exact simpleStatement_shallow ((ihpost n hn l (by omega)).1 _ _)
      · exact ihbody n hn l _ _ (by omega)
  | goStatement _ ih =>
    rintro (_ | l) parent field hlevels
    · omega
    · exact ih l _ _ (by omega)
  | selectStatement _ ih =>
    rintro (_ | l) parent field hlevels
    · omega
    · refine Shallow.bind (shallow_forM fun n hn => ih n hn l (by omega)) ?_
      exact shallow_ite shallow_badNode shallow_ok
  | selectCase _ _ ihguard ihbody =>
    rintro (_ | l) hlevels
    · omega
    · refine (ihguard l (by omega)).bind (shallow_forM fun n hn => ?_)
      exact ihbody n hn l _ _ (by omega)
  | defaultCase _ ih =>
    rintro (_ | l) hlevels
    · omega
    · exact shallow_forM fun n hn => ih n hn l _ _ (by omega)
  | guard _ hguard ih =>
    intro levels hlevels
    exact (ih levels hlevels).2 _ hguard

/-- Nothing is built without a level, and a simple statement, which holds an expression, not with
one. -/
theorem levels_of_parsed {spelled : Prop} {r : Nat} {p : Phrase} {n : Node}
    (h : Parsed spelled r p n) : 1 ≤ r ∧ (p = .simple → 2 ≤ r) := by
  induction h with
  | typedName _ ih | functionStatement _ ih | namedFunction _ ih | ifStatement _ ih =>
    exact ⟨ih.1, nofun⟩
  | guard _ _ ih => exact ⟨ih.1, nofun⟩
  | simple _ _ ih => exact ⟨Nat.le_of_succ_le_succ (ih.2 rfl), nofun⟩
  | shortDeclaration _ hvals _ ih =>
    obtain ⟨val, hval⟩ := List.exists_mem_of_ne_nil _ hvals
    exact ⟨Nat.succ_pos _, fun _ => Nat.succ_le_succ (ih val hval).1⟩
  | assignment _ hvals _ _ _ _ ih =>
    obtain ⟨val, hval⟩ := List.exists_mem_of_ne_nil _ hvals
    exact ⟨Nat.succ_pos _, fun _ => Nat.succ_le_succ (ih val hval).1⟩
  | send _ _ ih _ => exact ⟨Nat.succ_pos _, fun _ => Nat.succ_le_succ ih.1⟩
  | expressionStatement _ ih => exact ⟨Nat.succ_pos _, fun _ => Nat.succ_le_succ ih.1⟩
  | _ => exact ⟨Nat.succ_pos _, nofun⟩

/-- At the top only declarations, functions and type declarations are looked into, and these have one
level less than other statements. -/
theorem item_shallow {spelled : Prop} {limit levels r : Nat} {n : Node}
    (h : Parsed spelled r .statement n) (hlevels : 2 * r ≤ levels) :
    Shallow (check limit levels .item n) := by
  have hr := (levels_of_parsed h).1
  cases levels with
  | zero => omega
  | succ l =>
    change Shallow (item (check limit l) n)
    cases h with
    | declaration hids hvals _ =>
      exact declaration_shallow (fun n hn => judged_of_parsed (hids n hn))
        (fun n hn => judged_of_parsed (hvals n hn)) (by omega)
    | typeDeclaration htype =>
      exact shallow_ite shallow_badNode (judged_of_parsed htype l _ _ (by omega))
    | functionStatement _ => exact shallow_badNode
    | namedFunction hfunction =>
      refine functionParts_shallow ?_ (judged_of_parsed hfunction (l + 1) .function "" hlevels)
      rintro n ⟨⟩
      exact shallow_name
    | simple hsimple hn =>
      cases hsimple with
      | shortDeclaration => exact absurd rfl hn
      | _ => exact shallow_badChild
    | ifStatement hif =>
      cases hif
      exact shallow_badChild
    | _ => exact shallow_badChild

end Check

end MiniGo
