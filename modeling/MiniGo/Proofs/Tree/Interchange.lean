import MiniGo.FrontEnd
import MiniGo.Proofs.Json.Reread

/-!
Trees read back from their JSON text. A node is its kind with a list of parts, one for each field, and
what is true of every sort of part is true of every kind of node. Main statement: within the levels of
the reader a tree is read back as itself, if its numbers are, and a tree with a number that is not
finite or with too many levels is not read at all.
-/
namespace MiniGo

/-- The content of a field. -/
inductive Part where
  | text (s : String)
  | declarationKind (k : DeclarationKind)
  | basicType (b : BasicType)
  | direction (d : Direction)
  | mark (b : Bool)
  | size (n : UInt64)
  | literal (l : Literal)
  | node (n : Node)
  | nodes (ns : List Node)
  | child (o : Option Node)
  | alternative (o : Option Alternative)

namespace Part

def toJson : Part → Json
  | .text s => .string s
  | .declarationKind k => .string k.word
  | .basicType b => .string b.word
  | .direction d => .string d.word
  | .mark b => .bool b
  | .size n => .natural n
  | .literal l => l.toJson
  | .node n => n.toJson
  | .nodes ns => .array (Node.listToJson ns)
  | .child o => Node.optionToJson o
  | .alternative o => Alternative.optionToJson o

def read? : Part → Field → Option Part
  | .text _, f => f.text?.map .text
  | .declarationKind _, f => f.declarationKind?.map .declarationKind
  | .basicType _, f => f.basicType?.map .basicType
  | .direction _, f => f.direction?.map .direction
  | .mark _, f => f.mark?.map .mark
  | .size _, f => f.size?.map .size
  | .literal _, f => f.literal?.map .literal
  | .node _, f => f.node?.map .node
  | .nodes _, f => f.nodes?.map .nodes
  | .child _, f => f.child?.map .child
  | .alternative _, f => f.alternative?.map .alternative

def below : Part → List Node
  | .node n => [n]
  | .nodes ns => ns
  | .child (some n) => [n]
  | .alternative (some (.block body)) => body
  | .alternative (some (.chained n)) => [n]
  | _ => []

private theorem sizeOf_lt_of_mem_below {p : Part} {c : Node} (h : c ∈ p.below) : sizeOf c < sizeOf p := by
  cases p with
  | node n => simp_all [below]
  | nodes ns =>
    have hc : sizeOf c < sizeOf ns := List.sizeOf_lt_of_mem h
    simp only [nodes.sizeOf_spec]
    omega
  | child o =>
    cases o with
    | none => cases h
    | some n => simp_all [below]; omega
  | alternative o =>
    rcases o with _ | ⟨body⟩ | ⟨n⟩
    · cases h
    · have hc : sizeOf c < sizeOf body := List.sizeOf_lt_of_mem h
      simp only [alternative.sizeOf_spec, Option.some.sizeOf_spec, Alternative.block.sizeOf_spec]
      omega
    · simp_all [below]; omega
  | _ => cases h

end Part

namespace Node

def parts : Node → List Part
  | .program items => [.nodes items]
  | .identifier name type => [.text name, .child type]
  | .literal value type => [.literal value, .node type]
  | .application operator operands => [.node operator, .nodes operands]
  | .declaration kind ids vals => [.declarationKind kind, .nodes ids, .nodes vals]
  | .unary opcode operand => [.text opcode, .node operand]
  | .binary left opcode right => [.node left, .text opcode, .node right]
  | .expressionStatement expression => [.node expression]
  | .returnStatement expressions => [.nodes expressions]
  | .assignment targets vals => [.nodes targets, .nodes vals]
  | .ifStatement cond cons alt short => [.node cond, .nodes cons, .alternative alt, .child short]
  | .forStatement init cond post body => [.child init, .child cond, .child post, .nodes body]
  | .goStatement app => [.node app]
  | .selectStatement cases => [.nodes cases]
  | .selectCase guard body => [.node guard, .nodes body]
  | .defaultCase body => [.nodes body]
  | .send chan val inSelect => [.node chan, .node val, .mark inSelect]
  | .receive chan inSelect => [.node chan, .mark inSelect]
  | .index accessed place => [.node accessed, .node place]
  | .function name formals result body => [.child name, .nodes formals, .child result, .nodes body]
  | .empty => []
  | .structElement name => [.node name]
  | .fieldValue field expr => [.node field, .node expr]
  | .structLiteral type fields => [.node type, .nodes fields]
  | .member accessed field => [.node accessed, .node field]
  | .typeDeclaration name type => [.node name, .node type]
  | .anyType => []
  | .voidType => []
  | .basicType basic => [.basicType basic]
  | .tupleType elements => [.nodes elements]
  | .functionType params result => [.node params, .node result]
  | .chanType direction element => [.direction direction, .node element]
  | .arrayType element size => [.node element, .size size]
  | .sliceType element => [.node element]
  | .customType name => [.text name]
  | .structType elems => [.nodes elems]

def children (n : Node) : List Node := n.parts.flatMap Part.below

theorem toJson_eq_record (n : Node) : n.toJson = n.kind.record (n.parts.map Part.toJson) := by
  cases n <;> rfl

@[simp] theorem length_parts (n : Node) : n.parts.length = n.kind.fields.length := by
  cases n <;> rfl

private theorem ofFields?_eq_some (n : Node) {field : Part → Field}
    (h : ∀ p ∈ n.parts, p.read? (field p) = some p) :
    ofFields? n.kind (n.parts.map field) = some n := by
  cases n <;> simp_all [parts, kind, Part.read?, ofFields?]

private theorem ofFields?_eq_none (n : Node) {field : Part → Field} {p : Part} (hp : p ∈ n.parts)
    (h : p.read? (field p) = none) : ofFields? n.kind (n.parts.map field) = none := by
  -- No kind has more than four fields.
  cases n <;> simp only [parts, List.mem_cons, List.not_mem_nil, or_false] at hp
  all_goals
    rcases hp with rfl | rfl | rfl | rfl <;> simp_all [parts, kind, ofFields?, Part.read?]

private theorem sizeOf_le_of_mem_parts {n : Node} {p : Part} (h : p ∈ n.parts) : sizeOf p ≤ sizeOf n := by
  cases n <;> simp only [parts, List.mem_cons, List.not_mem_nil, or_false] at h
  all_goals
    rcases h with rfl | rfl | rfl | rfl <;> simp <;> omega

theorem sizeOf_lt_of_mem_children {n c : Node} (h : c ∈ n.children) : sizeOf c < sizeOf n := by
  obtain ⟨p, hp, hc⟩ := List.mem_flatMap.1 h
  exact Nat.lt_of_lt_of_le (Part.sizeOf_lt_of_mem_below hc) (sizeOf_le_of_mem_parts hp)

theorem induction_on {motive : Node → Prop} (h : ∀ n, (∀ c ∈ n.children, motive c) → motive n)
    (n : Node) : motive n :=
  h n fun c _ => induction_on h c
termination_by sizeOf n
decreasing_by exact sizeOf_lt_of_mem_children ‹_›

/-- A number is the value of a literal of the tree. -/
inductive HasNumber (x : Binary64) : Node → Prop where
  | literal (type : Node) : HasNumber x (.literal (.number x) type)
  | child {n c : Node} (hc : c ∈ n.children) (h : HasNumber x c) : HasNumber x n

end Node

section Record

open Reading

theorem NodeKind.ofTag?_tag (k : NodeKind) : NodeKind.ofTag? k.tag = some k := by
  cases k <;> decide

theorem NodeKind.nodup_names (k : NodeKind) : ("type" :: k.fields).Nodup := by
  cases k <;> decide

theorem Reading.ofJsons_eq_map (vs : List Json) : ofJsons vs = vs.map ofJson := by
  induction vs with
  | nil => rfl
  | cons v vs ih => rw [ofJsons, ih]; rfl

theorem Reading.ofMemberJsons_zip (names : List String) (values : List Json) :
    ofMemberJsons (names.zip values) = names.zip (values.map ofJson) := by
  induction names generalizing values with
  | nil => rfl
  | cons name names ih =>
    cases values with
    | nil => rfl
    | cons v vs => simp [ofMemberJsons, ih]

theorem Reading.field?_eq_some {members : List (String × Reading)} {name : String} {r : Reading}
    (hnames : (members.map Prod.fst).Nodup) (h : (name, r) ∈ members) :
    field? members name = some (some r) := by
  have hfilter : members.filter (·.1 == name) = [(name, r)] := by
    induction members with
    | nil => cases h
    | cons m members ih =>
      obtain ⟨hm, hnames⟩ := List.nodup_cons.1 hnames
      cases h with
      | head =>
        have hothers : members.filter (·.1 == name) = [] := by
          rw [List.filter_eq_nil_iff]
          intro a ha heq
          exact hm (List.mem_map.2 ⟨a, ha, by simpa using heq⟩)
        simp [hothers]
      | tail _ h =>
        have hne : m.1 ≠ name := by
          rintro rfl
          exact hm (List.mem_map.2 ⟨_, h, rfl⟩)
        simp [hne, ih hnames h]
  rw [field?, hfilter]

theorem Reading.node_ofJson_record (k : NodeKind) {values : List Json}
    (hlength : values.length = k.fields.length) :
    (ofJson (k.record values)).node =
      Node.ofFields? k (values.map fun v => some (ofJson v)) := by
  let tag : Reading := ⟨.string k.tag, none, none⟩
  let members := ("type", tag) :: k.fields.zip (values.map ofJson)
  have hfst : (k.fields.zip (values.map ofJson)).map Prod.fst = k.fields :=
    List.map_fst_zip (by simp [hlength])
  have hsnd : (k.fields.zip (values.map ofJson)).map Prod.snd = values.map ofJson :=
    List.map_snd_zip (by simp [hlength])
  have hnames : (members.map Prod.fst).Nodup := by
    simp only [members, List.map_cons, hfst]
    exact k.nodup_names
  have htag : field? members "type" = some (some tag) :=
    field?_eq_some hnames List.mem_cons_self
  have hfields : k.fields.mapM (field? members) = some (values.map fun v => some (ofJson v)) := by
    rw [Json.mapM_eq_some_iff]
    calc k.fields.map (field? members)
        = (k.fields.zip (values.map ofJson)).map (field? members ∘ Prod.fst) := by
          rw [← List.map_map, hfst]
      _ = ((k.fields.zip (values.map ofJson)).map Prod.snd).map fun r => some (some r) := by
          rw [List.map_map]
          exact List.map_congr_left fun m hm => field?_eq_some hnames (List.mem_cons_of_mem _ hm)
      _ = (values.map fun v => some (ofJson v)).map some := by
          rw [hsnd, List.map_map, List.map_map]
          rfl
  have hnode : (ofJson (k.record values)).node = ofMembers? members := by
    rw [NodeKind.record, ofJson, ofMemberJsons, ofMemberJsons_zip]
    rfl
  rw [hnode, ofMembers?, htag]
  simp [tag, NodeKind.ofJson?, NodeKind.ofTag?_tag, hfields]

end Record

section Reading

open Reading

@[simp] theorem Field.child?_object (members : List (String × Json)) :
    Field.child? (some (ofJson (.object members))) = (ofJson (.object members)).node.map some := by
  simp [ofJson, Field.child?]

@[simp] theorem Field.alternative?_object (members : List (String × Json)) :
    Field.alternative? (some (ofJson (.object members))) =
      (ofJson (.object members)).node.map fun n => some (.chained n) := by
  simp [ofJson, Field.alternative?]

theorem Field.alternative?_array (items : List Json) :
    Field.alternative? (some (ofJson (.array items))) =
      ((ofJson (.array items)).nodes.map fun body => some (Alternative.block body)).or
        ((ofJson (.array items)).node.map fun n => some (.chained n)) := by
  simp only [ofJson, Field.alternative?]
  split <;> simp [*]

theorem Node.listToJson_eq_map (ns : List Node) : Node.listToJson ns = ns.map Node.toJson := by
  induction ns with
  | nil => rfl
  | cons n ns ih => rw [Node.listToJson, ih]; rfl

theorem Node.exists_toJson (n : Node) : ∃ members, n.toJson = .object members :=
  ⟨_, n.toJson_eq_record⟩

theorem Reading.nodes_ofJson_toJson (ns : List Node)
    (h : ∀ c ∈ ns, (ofJson c.toJson).node = some c) :
    (ofJson (.array (Node.listToJson ns))).nodes = some ns := by
  rw [ofJson, ofJsons_eq_map, Node.listToJson_eq_map, List.map_map]
  show List.mapM _ _ = _
  rw [Json.mapM_eq_some_iff, List.map_map]
  exact List.map_congr_left h

theorem Part.read?_toJson (p : Part) (h : ∀ c ∈ p.below, (ofJson c.toJson).node = some c) :
    p.read? (some (ofJson p.toJson)) = some p := by
  cases p with
  | text s | mark b | size n => rfl
  | declarationKind k => cases k <;> rfl
  | basicType b => cases b <;> rfl
  | direction d => cases d <;> rfl
  | literal l => cases l <;> rfl
  | node n => simp [read?, toJson, Field.node?, h n (by simp [below])]
  | nodes ns => simp [read?, toJson, Field.nodes?, nodes_ofJson_toJson ns h]
  | child o =>
    cases o with
    | none => rfl
    | some n =>
      have hn := h n (by simp [below])
      obtain ⟨members, hobject⟩ := n.exists_toJson
      rw [hobject] at hn
      simp only [toJson, Node.optionToJson, hobject, read?, Field.child?_object, hn]
      rfl
  | alternative o =>
    rcases o with _ | ⟨body⟩ | ⟨n⟩
    · rfl
    · have hbody := nodes_ofJson_toJson body h
      simp only [toJson, Alternative.optionToJson, Alternative.toJson, read?]
      rw [Field.alternative?_array, hbody]
      rfl
    · have hn := h n (by simp [below])
      obtain ⟨members, hobject⟩ := n.exists_toJson
      rw [hobject] at hn
      simp only [toJson, Alternative.optionToJson, Alternative.toJson, hobject, read?,
        Field.alternative?_object, hn]
      rfl

/-- The value of a tree denotes the tree. -/
theorem Reading.node_ofJson_toJson (n : Node) : (ofJson n.toJson).node = some n := by
  induction n using Node.induction_on with
  | h n ih =>
    have hparts : ∀ p ∈ n.parts, p.read? (some (ofJson p.toJson)) = some p :=
      fun p hp => p.read?_toJson fun c hc => ih c (List.mem_flatMap.2 ⟨p, hp, hc⟩)
    rw [n.toJson_eq_record, node_ofJson_record _ (by simp), List.map_map]
    exact n.ofFields?_eq_some hparts

end Reading

section Reread

open Reading

theorem Json.rereadMembers_zip {names : List String} {values : List Json}
    (hlength : values.length = names.length) (levels : Nat) :
    rereadMembers (names.zip values) levels = (rereadItems values levels).map names.zip := by
  induction names generalizing values with
  | nil => rw [List.eq_nil_of_length_eq_zero hlength]; rfl
  | cons name names ih =>
    cases values with
    | nil => simp at hlength
    | cons v vs =>
      rw [List.zip_cons_cons, rereadMembers, rereadItems, ih (Nat.succ.inj hlength)]
      cases v.reread levels <;> cases rereadItems vs levels <;> rfl

theorem NodeKind.reread_record (k : NodeKind) {values : List Json}
    (hlength : values.length = k.fields.length) (levels : Nat) :
    (k.record values).reread (levels + 1) =
      (values.mapM fun v : Json => v.reread levels).map k.record := by
  rw [record, Json.reread, Json.rereadMembers, Json.rereadMembers_zip hlength,
    Json.rereadItems_eq_mapM]
  cases values.mapM fun v : Json => v.reread levels <;> rfl

/-- A node that is read back gives a record of what its parts are read back as. -/
theorem Node.exists_reread {n : Node} {levels : Nat} {v : Json}
    (h : n.toJson.reread levels = some v) : ∃ fewer values, v = n.kind.record values ∧
      n.parts.map (·.toJson.reread fewer) = values.map some := by
  rw [toJson_eq_record] at h
  cases levels with
  | zero => cases h
  | succ fewer =>
    rw [NodeKind.reread_record _ (by simp)] at h
    obtain ⟨values, hvalues, rfl⟩ := Option.map_eq_some_iff.1 h
    refine ⟨fewer, values, rfl, ?_⟩
    rw [Json.mapM_eq_some_iff, List.map_map] at hvalues
    exact hvalues

theorem Node.exists_object_of_reread {n : Node} {levels : Nat} {v : Json}
    (h : n.toJson.reread levels = some v) : ∃ members, v = .object members := by
  obtain ⟨_, _, rfl, _⟩ := exists_reread h
  exact ⟨_, rfl⟩

/-- Whatever the value of a node comes back as, it is no node. -/
def Node.Unread (n : Node) : Prop :=
  ∀ levels v, n.toJson.reread levels = some v → (ofJson v).node = none

def Part.Unread (p : Part) : Prop :=
  ∀ levels v, p.toJson.reread levels = some v → p.read? (some (ofJson v)) = none

theorem Node.Unread.of_part {n : Node} {p : Part} (hp : p ∈ n.parts) (h : p.Unread) : n.Unread := by
  intro levels v hv
  obtain ⟨fewer, values, rfl, hvalues⟩ := Node.exists_reread hv
  have hlength : values.length = n.kind.fields.length := by
    simpa using (congrArg List.length hvalues).symm
  -- Every part came back as a value, so that the fields are a function of the parts.
  have hfields : (values.map fun v => some (ofJson v)) =
      n.parts.map fun p => (p.toJson.reread fewer).map ofJson := by
    calc (values.map fun v => some (ofJson v))
        = (values.map some).map (Option.map ofJson) := by simp
      _ = n.parts.map fun p => (p.toJson.reread fewer).map ofJson := by
          rw [← hvalues, List.map_map]
          rfl
  rw [node_ofJson_record _ hlength, hfields]
  refine n.ofFields?_eq_none hp ?_
  obtain ⟨w, -, hw⟩ := List.mem_map.1 (hvalues ▸ List.mem_map_of_mem hp)
  rw [← hw]
  exact h fewer w hw.symm

/-- A list with a node that is not read is no list of nodes, and no node either: it starts with an
object where a node in array form has its tag. -/
theorem Node.Unread.array {ns : List Node} {c : Node} (hc : c ∈ ns) (h : c.Unread) {levels : Nat}
    {v : Json} (hv : (Json.array (Node.listToJson ns)).reread levels = some v) :
    ∃ items, v = .array items ∧ (ofJson v).nodes = none ∧ (ofJson v).node = none := by
  cases levels with
  | zero => cases hv
  | succ levels =>
    rw [Json.reread, Json.rereadItems_eq_mapM, Node.listToJson_eq_map] at hv
    obtain ⟨items, hitems, rfl⟩ := Option.map_eq_some_iff.1 hv
    rw [Json.mapM_eq_some_iff, List.map_map] at hitems
    refine ⟨items, rfl, ?_, ?_⟩
    · obtain ⟨w, hw, hread⟩ := List.mem_map.1 (hitems ▸ List.mem_map_of_mem hc)
      rw [ofJson, ofJsons_eq_map]
      exact Json.mapM_eq_none (List.mem_map_of_mem hw) (h levels w hread.symm)
    · cases ns with
      | nil => cases hc
      | cons n ns =>
        cases items with
        | nil => cases hitems
        | cons w items =>
          obtain ⟨members, rfl⟩ := Node.exists_object_of_reread (List.cons.inj hitems).1
          rfl

theorem Part.Unread.of_below {p : Part} {c : Node} (hc : c ∈ p.below) (h : c.Unread) :
    p.Unread := by
  intro levels v hv
  cases p with
  | node n =>
    obtain rfl : c = n := by simpa [below] using hc
    simp [read?, Field.node?, h levels v hv]
  | nodes ns =>
    obtain ⟨items, -, hnodes, -⟩ := h.array hc hv
    simp [read?, Field.nodes?, hnodes]
  | child o =>
    cases o with
    | none => cases hc
    | some n =>
      obtain rfl : c = n := by simpa [below] using hc
      have hnode := h levels v hv
      obtain ⟨members, rfl⟩ := Node.exists_object_of_reread hv
      simp [read?, hnode]
  | alternative o =>
    rcases o with _ | ⟨body⟩ | ⟨n⟩
    · cases hc
    · obtain ⟨items, rfl, hnodes, hnode⟩ := h.array hc hv
      simp [read?, Field.alternative?_array, hnodes, hnode]
    · obtain rfl : c = n := by simpa [below] using hc
      have hnode := h levels v hv
      obtain ⟨members, rfl⟩ := Node.exists_object_of_reread hv
      simp [read?, hnode]
  | _ => cases hc

theorem Part.unread_of_not_finite {x : Binary64} (hx : x.isFinite = false) :
    (Part.literal (.number x)).Unread := by
  intro levels v hv
  obtain rfl : .null = v := Option.some.inj ((Json.rereadReal_of_not_finite hx).symm.trans hv)
  rfl

theorem Node.HasNumber.unread {n : Node} {x : Binary64} (h : n.HasNumber x)
    (hx : x.isFinite = false) : n.Unread := by
  induction h with
  | literal type => exact .of_part List.mem_cons_self (Part.unread_of_not_finite hx)
  | child hc h ih =>
    obtain ⟨p, hp, hc⟩ := List.mem_flatMap.1 hc
    exact .of_part hp (.of_below hc ih)

theorem Node.HasNumber.of_part {n : Node} {x : Binary64}
    (h : Part.literal (.number x) ∈ n.parts) : n.HasNumber x := by
  cases n <;> simp [Node.parts] at h
  rw [← h]
  exact .literal _

theorem Part.kept_toJson {p : Part}
    (hnumber : ∀ x, p = .literal (.number x) → (Json.real x).Kept)
    (h : ∀ c ∈ p.below, c.toJson.Kept) : p.toJson.Kept := by
  have harray : ∀ ns : List Node, (∀ c ∈ ns, c.toJson.Kept) →
      (Json.array (Node.listToJson ns)).Kept := by
    intro ns hns
    rw [Node.listToJson_eq_map]
    exact Json.kept_array (List.forall_mem_map.2 hns)
  cases p with
  | text | declarationKind | basicType | direction | mark | size => exact fun _ _ => rfl
  | literal l =>
    cases l with
    | number x => exact hnumber x rfl
    | bool | string => exact fun _ _ => rfl
  | node n => exact h n (by simp [below])
  | nodes ns => exact harray ns h
  | child o =>
    cases o with
    | none => exact fun _ _ => rfl
    | some n => exact h n (by simp [below])
  | alternative o =>
    rcases o with _ | ⟨body⟩ | ⟨n⟩
    · exact fun _ _ => rfl
    · exact harray body h
    · exact h n (by simp [below])

theorem Node.kept_toJson {n : Node} (hnumbers : ∀ x, n.HasNumber x → (Json.real x).Kept) :
    n.toJson.Kept := by
  induction n using Node.induction_on with
  | h n ih =>
    have hparts : ∀ p ∈ n.parts, p.toJson.Kept := by
      intro p hp
      refine Part.kept_toJson (fun x hx => hnumbers x (.of_part (hx ▸ hp))) fun c hc => ?_
      have hchild : c ∈ n.children := List.mem_flatMap.2 ⟨p, hp, hc⟩
      exact ih c hchild fun x hx => hnumbers x (.child hchild hx)
    rw [toJson_eq_record]
    refine Json.kept_object fun m hm => ?_
    rcases List.mem_cons.1 hm with rfl | hm
    · exact fun _ _ => rfl
    · exact List.forall_mem_map.2 hparts _ (List.of_mem_zip hm).2

theorem Node.ofJson?_toJson (n : Node) : Node.ofJson? n.toJson = some n := by
  have htag : n.toJson.hasTextTag = true := by
    rw [toJson_eq_record]
    rfl
  rw [ofJson?, if_pos htag, node_ofJson_toJson]

theorem Node.ofJson?_eq_none {v : Json} (h : (ofJson v).node = none) : Node.ofJson? v = none := by
  unfold ofJson?
  split
  · exact h
  · rfl

end Reread

/-- The text of a number is read as the same number. The reader rounds twice, so that not every finite
number is read back. -/
def Binary64.readsBack (x : Binary64) : Bool :=
  match Json.parse? 0 (Json.real x).text with
  | some (.real y) => y == x
  | _ => false

example : Binary64.readsBack ⟨0x407cc1683ac3565e⟩ = false := by decide +kernel

theorem Binary64.kept_of_readsBack {x : Binary64} (h : x.readsBack = true) :
    (Json.real x).Kept := by
  intro levels _
  rw [readsBack, Json.parse?_text, Json.reread] at h
  split at h
  next y hy => rw [Json.reread, hy, eq_of_beq h]
  next => cases h

/-- A tree within the levels of the reader whose numbers are finite and read back is read as itself,
and the program of its text is the program of the tree. A tree with a number that is not finite, or
with more levels, is not read. -/
theorem Program.ofText_toText (t : Node) :
    ((∀ x, t.HasNumber x → x.isFinite = true) →
      (∀ x, t.HasNumber x → x.isFinite = true → x.readsBack = true) →
      t.toJson.nesting ≤ interchangeLevels →
      Node.ofText t.toText = .ok t ∧ ∀ o, Program.ofText t.toText o = Program.ofTree t o) ∧
    ((∃ x, t.HasNumber x ∧ x.isFinite = false) ∨ interchangeLevels < t.toJson.nesting →
      ∀ o, Program.ofText t.toText o = .error ⟨.malformedTree "not a tree", .null⟩) := by
  have htext : Json.parse? interchangeLevels t.toText = t.toJson.reread interchangeLevels :=
    Json.parse?_text t.toJson interchangeLevels
  constructor
  · intro hfinite hread hlevels
    have hnumbers : ∀ x, t.HasNumber x → (Json.real x).Kept := fun x hx =>
      Binary64.kept_of_readsBack (hread x hx (hfinite x hx))
    have hreread : t.toJson.reread interchangeLevels = some t.toJson :=
      Node.kept_toJson hnumbers interchangeLevels hlevels
    have htree : Node.ofText t.toText = .ok t := by
      rw [Node.ofText, htext, hreread, Option.bind_some, Node.ofJson?_toJson]
    refine ⟨htree, fun o => ?_⟩
    rw [Program.ofText, htree]
    rfl
  · intro hbad o
    have hnone : (t.toJson.reread interchangeLevels).bind Node.ofJson? = none := by
      rcases hbad with ⟨x, hx, hinfinite⟩ | hdeep
      · rw [Option.bind_eq_none_iff]
        intro v hv
        exact Node.ofJson?_eq_none (hx.unread hinfinite interchangeLevels v hv)
      · rw [Json.reread_of_lt_nesting _ hdeep]
        rfl
    rw [Program.ofText, Node.ofText, htext, hnone]
    rfl

theorem Program.ofText_toText_literal :
    Node.ofText (Node.literal (.number ⟨0x3ff8000000000000⟩) (.basicType .number)).toText =
      .ok (.literal (.number ⟨0x3ff8000000000000⟩) (.basicType .number)) ∧
    Program.ofText (Node.literal (.number (.nan false)) (.basicType .number)).toText {} =
      .error ⟨.malformedTree "not a tree", .null⟩ := by
  have hnumber : ∀ x y, (Node.literal (.number x) (.basicType .number)).HasNumber y → y = x := by
    intro x y h
    cases h with
    | literal => rfl
    | child hc h =>
      obtain rfl := List.mem_singleton.1 hc
      cases h with
      | child hc => cases hc
  refine ⟨((Program.ofText_toText _).1 (fun y hy => ?_) (fun y hy _ => ?_) (by decide)).1,
    (Program.ofText_toText _).2 (.inl ⟨_, .literal _, by decide⟩) {}⟩
  · rw [hnumber _ y hy]
    decide
  · rw [hnumber _ y hy]
    decide +kernel

end MiniGo
