import AstDump.Proofs.Sound

/-!
# The fault that is reported

`Builder.finish` refuses a builder for the first thing that is wrong with it. Empty slots come before
all else, lowest first. Then come the references: those of the lowest node that has a bad one, field by
field in the order of `Field.all`, and within a field in the order in which it holds them.

What a node holds in a field is `Node.held`, and what counts as first is said by `FirstFault` on the slots
alone, without the search that `finish` makes.

Results:
* `Node.findSome?_references`: searching the references of a node is searching its fields one by one.
* `Builder.faultOf?_eq_some_iff`, `Builder.faultOf?_eq_none_iff`: what is wrong with one reference.
* `Builder.finish_eq_error_iff`: the error is the first fault.
* `Builder.finish_eq_ok_iff`: there is an arena exactly if nothing is wrong.
* `Builder.finish_eq_iff`: both, after any calls.
-/

namespace AstDump

/-! ## What a node holds in a field -/

/-- The ids that an exception specification holds in a field. -/
def ExceptionSpec.held (s : ExceptionSpec) : Field → List NodeId
  | .exception => s.exceptions
  | .noexceptExpr => s.noexceptExpr.toList
  | .sourceDecl => s.sourceDecl.toList
  | .sourceTemplate => s.sourceTemplate.toList
  | _ => []

/-- The ids that a shape holds in a field. -/
def TypeShape.held : TypeShape → Field → List NodeId
  | .function r, .returnType => [r]
  | .functionProto r _ _, .returnType => [r]
  | .functionProto _ ps _, .parameter => ps
  | .functionProto _ _ s, f => s.held f
  | .array e, .element => [e]
  | .variableArray e _, .element => [e]
  | .variableArray _ n, .sizeExpr => [n]
  | .pointer p, .pointee => [p]
  | .tag d, .tagDecl => [d]
  | _, _ => []

/-- The ids that a node holds in a field, in the order in which they were given. -/
def Node.held : Node → Field → List NodeId
  | .type t, .desugared => t.desugared.toList
  | .type t, f => t.shape.held f
  | .qualType u _, .underlying => [u]
  | .stmt _ cs, .child => cs
  | .decl _ cs, .child => cs
  | _, _ => []

/-- The references of a node are what its fields hold, field by field. -/
theorem Node.references_eq_flatMap (node : Node) :
    node.references = Field.all.flatMap fun f => (node.held f).map (Reference.mk f) := by
  cases node with
  | type t =>
    obtain ⟨className, desugared, shape⟩ := t
    cases shape <;>
      simp [references, held, TypeShape.references, TypeShape.held, ExceptionSpec.references,
        ExceptionSpec.held, Field.all]
  | qualType u q => simp [references, held, Field.all]
  | stmt c cs => simp [references, held, Field.all]
  | decl c cs => simp [references, held, Field.all]

theorem findSome?_flatMap {α β γ : Type} (xs : List α) (f : α → List β) (g : β → Option γ) :
    (xs.flatMap f).findSome? g = xs.findSome? fun x => (f x).findSome? g := by
  induction xs with
  | nil => rfl
  | cons x xs ih =>
    rw [List.flatMap_cons, List.findSome?_append, ih, List.findSome?_cons]
    cases (f x).findSome? g <;> rfl

/-- Searching the references of a node is searching its fields one by one. -/
theorem Node.findSome?_references {γ : Type} (node : Node) (g : Reference → Option γ) :
    node.references.findSome? g =
      Field.all.findSome? fun f => (node.held f).findSome? fun t => g ⟨f, t⟩ := by
  rw [node.references_eq_flatMap, findSome?_flatMap]
  simp only [List.findSome?_map, Function.comp_def]

/-- The first item of a list, with its position, for which a search gives something. -/
theorem findSome?_zipIdx_eq_some_iff {α β : Type} {xs : List α} {f : α × Nat → Option β} {b : β} :
    xs.zipIdx.findSome? f = some b ↔
      ∃ i x, xs[i]? = some x ∧ f (x, i) = some b ∧
        ∀ j < i, ∀ y, xs[j]? = some y → f (y, j) = none := by
  have hat : ∀ j : Nat, xs.zipIdx[j]? = xs[j]?.map (·, j) := by
    intro j
    rw [List.getElem?_zipIdx, Nat.zero_add]
  rw [List.findSome?_eq_some_iff]
  constructor
  · rintro ⟨before, ⟨x, i⟩, after, hsplit, hx, hbefore⟩
    have hi := hat before.length
    rw [hsplit, List.getElem?_append_right (Nat.le_refl _), Nat.sub_self, List.getElem?_cons_zero,
      eq_comm, Option.map_eq_some_iff] at hi
    obtain ⟨x', hx', heq⟩ := hi
    cases heq
    refine ⟨before.length, x, hx', hx, fun j hj y hy => hbefore _ ?_⟩
    have hj' := hat j
    rw [hsplit, List.getElem?_append_left hj, hy] at hj'
    exact List.mem_of_getElem? hj'
  · rintro ⟨i, x, hx, hfound, hbefore⟩
    have hi : xs.zipIdx[i]? = some (x, i) := by rw [hat, hx, Option.map_some]
    obtain ⟨hlt, hget⟩ := List.getElem?_eq_some_iff.1 hi
    refine ⟨xs.zipIdx.take i, (x, i), xs.zipIdx.drop (i + 1), ?_, hfound, ?_⟩
    · rw [← hget, List.getElem_cons_drop, List.take_append_drop]
    · rintro ⟨y, j⟩ hy
      obtain ⟨k, hk⟩ := List.mem_iff_getElem?.1 hy
      rw [List.getElem?_take] at hk
      split at hk
      · rename_i hki
        rw [hat, Option.map_eq_some_iff] at hk
        obtain ⟨y', hy', heq⟩ := hk
        cases heq
        exact hbefore j hki y hy'
      · cases hk

namespace Builder

variable {b : Builder}

/-! ## Faults -/

/-- The target of a field is described, as a node of the category that the field asks for. -/
def Resolves (b : Builder) (field : Field) (target : NodeId) : Prop :=
  ∃ m, b.slots[target.index]? = some (some m) ∧ ∀ c, field.expected? = some c → m.category = c

/-- What is wrong with a target that a field of the node `source` holds: there is no slot for it, or it
    is described as a node of another category than the field asks for. -/
inductive Faulty (b : Builder) (source : NodeId) (field : Field) (target : NodeId) :
    IngestError → Prop
  | outOfRange (outside : b.size ≤ target.index) :
    Faulty b source field target (.outOfRange source field.name target b.size)
  | wrongCategory {m : Node} {c : Category} (found : b.slots[target.index]? = some (some m))
      (expected : field.expected? = some c) (differs : c ≠ m.category) :
    Faulty b source field target (.wrongCategory source field.name c m.category)

/-- No slot is empty. -/
def Filled (b : Builder) : Prop := ∀ i : Nat, b.slots[i]? ≠ some none

/-- Whatever a node holds resolves. -/
def Resolved (b : Builder) (node : Node) : Prop := ∀ f, ∀ t ∈ node.held f, b.Resolves f t

/-- The error is what is wrong first: the lowest slot that is empty or, if none is, the first bad
    reference of the lowest node that has one. -/
inductive FirstFault (b : Builder) : IngestError → Prop
  | undefined {id : NodeId} (vacant : b.slots[id.index]? = some none)
      (first : ∀ i < id.index, b.slots[i]? ≠ some none) : FirstFault b (.undefined id)
  | reference {source : NodeId} {node : Node} {earlier later : List Field} {field : Field}
      {before after : List NodeId} {target : NodeId} {e : IngestError} (filled : b.Filled)
      (described : b.slots[source.index]? = some (some node))
      (firstNode : ∀ i < source.index, ∀ m, b.slots[i]? = some (some m) → b.Resolved m)
      (fields : Field.all = earlier ++ field :: later)
      (firstField : ∀ f ∈ earlier, ∀ t ∈ node.held f, b.Resolves f t)
      (targets : node.held field = before ++ target :: after)
      (firstTarget : ∀ t ∈ before, b.Resolves field t)
      (fault : b.Faulty source field target e) : FirstFault b e

/-- No slot is empty and whatever a node holds resolves. -/
structure WellFormed (b : Builder) : Prop where
  filled : b.Filled
  resolved : ∀ {i : Nat} {node : Node}, b.slots[i]? = some (some node) → b.Resolved node

/-! ## The search for empty slots -/

theorem findIdx?_isNone_eq_some_iff {i : Nat} :
    b.slots.toList.findIdx? Option.isNone = some i ↔
      b.slots[i]? = some none ∧ ∀ j < i, b.slots[j]? ≠ some none := by
  rw [List.findIdx?_eq_some_iff_getElem]
  constructor
  · rintro ⟨hlt, hnone, hfirst⟩
    rw [Option.isNone_iff_eq_none] at hnone
    refine ⟨?_, fun j hj hempty => hfirst j hj ?_⟩
    · rw [← Array.getElem?_toList, List.getElem?_eq_getElem hlt, hnone]
    · rw [← Array.getElem?_toList, List.getElem?_eq_getElem (by omega), Option.some.injEq] at hempty
      rw [hempty]
      rfl
  · rintro ⟨hempty, hfirst⟩
    rw [← Array.getElem?_toList] at hempty
    obtain ⟨hlt, hget⟩ := List.getElem?_eq_some_iff.1 hempty
    refine ⟨hlt, by rw [hget]; rfl, fun j hj hnone => hfirst j hj ?_⟩
    rw [Option.isNone_iff_eq_none] at hnone
    rw [← Array.getElem?_toList, List.getElem?_eq_getElem (by omega), hnone]

theorem findIdx?_isNone_eq_none_iff :
    b.slots.toList.findIdx? Option.isNone = none ↔ b.Filled := by
  rw [List.findIdx?_eq_none_iff]
  constructor
  · intro h i hempty
    rw [← Array.getElem?_toList] at hempty
    exact absurd (h none (List.mem_of_getElem? hempty)) (by decide)
  · intro h x hx
    obtain ⟨i, hi⟩ := List.mem_iff_getElem?.1 hx
    rw [Array.getElem?_toList] at hi
    cases x with
    | none => exact absurd hi (h i)
    | some node => rfl

/-! ## The search for bad references -/

section Nodes

variable {nodes : Array Node} (hnodes : nodes.toList.map some = b.slots.toList)

include hnodes

theorem faultOf?_eq_some_iff {source : NodeId} {field : Field} {target : NodeId}
    {e : IngestError} :
    faultOf? nodes source ⟨field, target⟩ = some e ↔ b.Faulty source field target e := by
  unfold faultOf?
  cases htarget : nodes[target.index]? with
  | none =>
    have hout : nodes.size ≤ target.index := Array.getElem?_eq_none_iff.1 htarget
    simp only [Option.some.injEq]
    constructor
    · rintro rfl
      rw [← size_eq_size_nodes hnodes] at hout ⊢
      exact .outOfRange hout
    · intro h
      cases h with
      | outOfRange _ => rw [size_eq_size_nodes hnodes]
      | wrongCategory found _ _ =>
        rw [getElem?_slots_eq_some_iff hnodes, htarget] at found
        cases found
  | some m =>
    have hin : target.index < b.size := by
      rw [size_eq_size_nodes hnodes]
      exact (Array.getElem?_eq_some_iff.1 htarget).1
    have hm := (getElem?_slots_eq_some_iff hnodes).2 htarget
    simp only
    constructor
    · intro h
      split at h
      · cases h
      · rename_i c hc
        split at h
        · cases h
        · rename_i hne
          cases h
          exact .wrongCategory hm hc hne
    · intro h
      cases h with
      | outOfRange hout => omega
      | wrongCategory found expected differs =>
        rw [hm] at found
        cases found
        simp only [expected, if_neg differs]

theorem faultOf?_eq_none_iff {source : NodeId} {field : Field} {target : NodeId} :
    faultOf? nodes source ⟨field, target⟩ = none ↔ b.Resolves field target := by
  constructor
  · intro h
    obtain ⟨m, hm, hcategory⟩ := good_of_faultOf?_eq_none h
    exact ⟨m, (getElem?_slots_eq_some_iff hnodes).2 hm, hcategory⟩
  · rintro ⟨m, hm, hcategory⟩
    rw [Option.eq_none_iff_forall_ne_some]
    intro e he
    cases (faultOf?_eq_some_iff hnodes).1 he with
    | outOfRange hout =>
      obtain ⟨hlt, -⟩ := Array.getElem?_eq_some_iff.1 hm
      exact absurd hlt (Nat.not_lt.2 hout)
    | wrongCategory found expected differs =>
      rw [hm] at found
      cases found
      exact differs (hcategory _ expected).symm

theorem findSome?_faultOf?_eq_none_iff {source : NodeId} {node : Node} :
    node.references.findSome? (faultOf? nodes source) = none ↔ b.Resolved node := by
  rw [node.findSome?_references]
  simp only [List.findSome?_eq_none_iff, faultOf?_eq_none_iff hnodes]
  exact ⟨fun h f => h f (Field.mem_all f), fun h f _ => h f⟩

/-- The first bad reference of a node stands in its first field that has one. -/
theorem findSome?_faultOf?_eq_some_iff {source : NodeId} {node : Node} {e : IngestError} :
    node.references.findSome? (faultOf? nodes source) = some e ↔
      ∃ earlier field later before target after, Field.all = earlier ++ field :: later ∧
        (∀ f ∈ earlier, ∀ t ∈ node.held f, b.Resolves f t) ∧
        node.held field = before ++ target :: after ∧ (∀ t ∈ before, b.Resolves field t) ∧
        b.Faulty source field target e := by
  rw [node.findSome?_references, List.findSome?_eq_some_iff]
  simp only [List.findSome?_eq_some_iff, List.findSome?_eq_none_iff, faultOf?_eq_none_iff hnodes,
    faultOf?_eq_some_iff hnodes]
  constructor
  · rintro ⟨earlier, field, later, hfields, ⟨before, target, after, hheld, hfault, hbefore⟩, hearlier⟩
    exact ⟨earlier, field, later, before, target, after, hfields, hearlier, hheld, hbefore, hfault⟩
  · rintro ⟨earlier, field, later, before, target, after, hfields, hearlier, hheld, hbefore, hfault⟩
    exact ⟨earlier, field, later, hfields, ⟨before, target, after, hheld, hfault, hbefore⟩, hearlier⟩

theorem firstFault?_eq_none_iff :
    firstFault? nodes = none ↔
      ∀ (i : Nat) (node : Node), b.slots[i]? = some (some node) → b.Resolved node := by
  unfold firstFault?
  rw [List.findSome?_eq_none_iff]
  constructor
  · intro h i node hi
    rw [getElem?_slots_eq_some_iff hnodes, ← Array.getElem?_toList] at hi
    exact (findSome?_faultOf?_eq_none_iff hnodes).1
      (h (node, i) (List.mk_mem_zipIdx_iff_getElem?.2 hi))
  · rintro h ⟨node, i⟩ hmem
    rw [List.mk_mem_zipIdx_iff_getElem?, Array.getElem?_toList,
      ← getElem?_slots_eq_some_iff hnodes] at hmem
    exact (findSome?_faultOf?_eq_none_iff hnodes).2 (h i node hmem)

theorem firstFault?_eq_some_iff {e : IngestError} :
    firstFault? nodes = some e ↔
      ∃ (i : Nat) (node : Node), b.slots[i]? = some (some node) ∧
        (∀ j < i, ∀ m, b.slots[j]? = some (some m) → b.Resolved m) ∧
        node.references.findSome? (faultOf? nodes (.ofIndex i)) = some e := by
  unfold firstFault?
  rw [findSome?_zipIdx_eq_some_iff]
  simp only [Array.getElem?_toList, ← getElem?_slots_eq_some_iff hnodes,
    findSome?_faultOf?_eq_none_iff hnodes]
  constructor
  · rintro ⟨i, node, hi, hfault, hfirst⟩
    exact ⟨i, node, hi, hfirst, hfault⟩
  · rintro ⟨i, node, hi, hfirst, hfault⟩
    exact ⟨i, node, hi, hfault, hfirst⟩

end Nodes

/-! ## What `finish` answers -/

theorem index_ofIndex_of_slot (hsize : b.size ≤ capacity) {i : Nat} {slot : Option Node}
    (hi : b.slots[i]? = some slot) : (NodeId.ofIndex i).index = i := by
  obtain ⟨hlt, -⟩ := Array.getElem?_eq_some_iff.1 hi
  have hcapacity : capacity < UInt32.size := by decide
  unfold size at hsize
  exact NodeId.index_ofIndex (by omega)

/-- The nodes of a builder without empty slots, as `finish` collects them. -/
theorem Filled.map_some_nodes (h : b.Filled) :
    (b.slots.toList.filterMap id).toArray.toList.map some = b.slots.toList :=
  map_some_filterMap_id (findIdx?_isNone_eq_none_iff.2 h)

theorem finish_of_filled (h : b.Filled) :
    b.finish = match firstFault? (b.slots.toList.filterMap id).toArray with
      | some e => .error e
      | none => .ok { nodes := (b.slots.toList.filterMap id).toArray, classes := b.classes } := by
  have hfind := findIdx?_isNone_eq_none_iff.2 h
  cases hfault : firstFault? (b.slots.toList.filterMap id).toArray <;>
    simp only [finish, hfind, hfault]

theorem finish_of_vacant {i : Nat} (hempty : b.slots[i]? = some none)
    (hfirst : ∀ j < i, b.slots[j]? ≠ some none) : b.finish = .error (.undefined (.ofIndex i)) := by
  rw [finish, findIdx?_isNone_eq_some_iff.2 ⟨hempty, hfirst⟩]

/-- If some slot is empty, there is a lowest one. -/
theorem exists_first_vacant_of_not_filled (h : ¬ b.Filled) :
    ∃ i : Nat, b.slots[i]? = some none ∧ ∀ j < i, b.slots[j]? ≠ some none := by
  cases hfind : b.slots.toList.findIdx? Option.isNone with
  | none => exact absurd (findIdx?_isNone_eq_none_iff.1 hfind) h
  | some i => exact ⟨i, findIdx?_isNone_eq_some_iff.1 hfind⟩

/-- An error is the first fault. -/
theorem finish_eq_error_iff (hsize : b.size ≤ capacity) {e : IngestError} :
    b.finish = .error e ↔ b.FirstFault e := by
  constructor
  · intro h
    by_cases hfilled : b.Filled
    · rw [finish_of_filled hfilled] at h
      split at h
      · rename_i e' hfault
        cases h
        have hnodes := hfilled.map_some_nodes
        obtain ⟨i, node, hi, hfirst, hnode⟩ := (firstFault?_eq_some_iff hnodes).1 hfault
        obtain ⟨earlier, field, later, before, target, after, hfields, hearlier, hheld, hbefore,
          hfaulty⟩ := (findSome?_faultOf?_eq_some_iff hnodes).1 hnode
        have hindex := index_ofIndex_of_slot hsize hi
        exact .reference hfilled (by rw [hindex, hi]) (by rwa [hindex]) hfields hearlier hheld
          hbefore hfaulty
      · cases h
    · obtain ⟨i, hempty, hfirst⟩ := exists_first_vacant_of_not_filled hfilled
      rw [finish_of_vacant hempty hfirst] at h
      cases h
      have hindex := index_ofIndex_of_slot hsize hempty
      exact .undefined (by rw [hindex, hempty]) (by rwa [hindex])
  · intro h
    cases h with
    | @undefined id vacant first => rw [finish_of_vacant vacant first, NodeId.ofIndex_index]
    | @reference source node earlier later field before after target e filled described firstNode
        fields firstField targets firstTarget fault =>
      have hnodes := filled.map_some_nodes
      have hnode := (findSome?_faultOf?_eq_some_iff hnodes).2
        ⟨earlier, field, later, before, target, after, fields, firstField, targets, firstTarget, fault⟩
      have hfault := (firstFault?_eq_some_iff hnodes).2
        ⟨source.index, node, described, firstNode, by rw [NodeId.ofIndex_index]; exact hnode⟩
      rw [finish_of_filled filled, hfault]

/-- There is an arena exactly if nothing is wrong. It has the nodes of the slots, and the names. -/
theorem finish_eq_ok_iff {a : Arena} :
    b.finish = .ok a ↔
      b.WellFormed ∧ a.nodes.toList.map some = b.slots.toList ∧ a.classes = b.classes := by
  constructor
  · intro h
    obtain ⟨hnodes, hclasses, hfault⟩ := finish_eq_ok h
    refine ⟨⟨?_, fun hi => (firstFault?_eq_none_iff hnodes).1 hfault _ _ hi⟩, hnodes, hclasses⟩
    intro i hempty
    rw [getElem?_slots hnodes, Option.map_eq_some_iff] at hempty
    obtain ⟨node, -, hnode⟩ := hempty
    cases hnode
  · rintro ⟨hwell, hnodes, hclasses⟩
    have hnodes' := hwell.filled.map_some_nodes
    have hsame : (b.slots.toList.filterMap id).toArray = a.nodes := by
      apply Array.toList_inj.1
      exact (List.map_inj_right fun _ _ => Option.some.inj).1 (hnodes'.trans hnodes.symm)
    have hfault := (firstFault?_eq_none_iff hnodes').2 fun i node hi => hwell.resolved hi
    rw [finish_of_filled hwell.filled, hfault, hsame, ← hclasses]

/-- **Main result.** After any calls, `finish` returns an error exactly if it is the first fault, and an
    arena exactly if nothing is wrong, with the nodes of the slots in order. Whatever a node of that
    arena holds in a field leads to a node of the arena, of the category that the field asks for. -/
theorem finish_eq_iff (calls : List Call) (hcalls : calls.countP Call.handsOut ≤ capacity) :
    (∀ e, (afterCalls calls).finish = .error e ↔ (afterCalls calls).FirstFault e) ∧
    (∀ a, (afterCalls calls).finish = .ok a ↔ (afterCalls calls).WellFormed ∧
      a.nodes.toList.map some = (afterCalls calls).slots.toList ∧
      a.classes = (afterCalls calls).classes) ∧
    ∀ a, (afterCalls calls).finish = .ok a → ∀ n node, a.node? n = some node →
      ∀ f, ∀ t ∈ node.held f, ∃ m, a.node? t = some m ∧
        ∀ c, f.expected? = some c → m.category = c := by
  have hsize : (afterCalls calls).size ≤ capacity := by
    rw [(afterCalls_spec calls).1]
    exact hcalls
  refine ⟨fun e => finish_eq_error_iff hsize, fun a => finish_eq_ok_iff, ?_⟩
  intro a ha n node hn f t ht
  obtain ⟨hwell, hnodes, -⟩ := finish_eq_ok_iff.1 ha
  obtain ⟨m, hm, hcategory⟩ := hwell.resolved ((getElem?_slots_eq_some_iff hnodes).2 hn) f t ht
  exact ⟨m, (getElem?_slots_eq_some_iff hnodes).1 hm, hcategory⟩

/-- What each field asks for, by the name that messages show. -/
example : Field.all.map (fun f => (f.name, f.expected?)) =
    [("desugared type", some .type), ("return type", some .qualType),
     ("parameter type", some .qualType), ("exception type", some .qualType),
     ("noexcept expression", some .stmt), ("source declaration", some .decl),
     ("source template", some .decl), ("element type", some .qualType),
     ("size expression", some .stmt), ("pointee type", some .qualType),
     ("tag declaration", some .decl), ("underlying type", some .type), ("child", none)] := by
  decide

/-- Calls that describe a method with several faults after a sound type: its second parameter is no
    wrapper, its exception leads nowhere, and a later pointer is bad as well. -/
def faultyMethodCalls : List Call :=
  [.add (.type "BuiltinType" (some ⟨0⟩) {}),
   .add (.qualType ⟨0⟩ {}),
   .add (.type "FunctionProtoType" none
     { returnType := some ⟨1⟩
       params := [⟨1⟩, ⟨0⟩]
       spec := { exceptions := [⟨9⟩] } }),
   .add (.type "PointerType" none { pointee := some ⟨7⟩ })]

/-- The parameter is reported. With one more slot that stays empty, the slot is. -/
theorem finish_eq_iff_faultyMethod :
    (afterCalls faultyMethodCalls).FirstFault
      (.wrongCategory ⟨2⟩ "parameter type" .qualType .type) ∧
    (afterCalls (faultyMethodCalls ++ [.reserve])).FirstFault (.undefined ⟨4⟩) ∧
    (afterCalls linkedRecordCalls).WellFormed :=
  ⟨((finish_eq_iff faultyMethodCalls (by decide)).1 _).1 (by decide +kernel),
    ((finish_eq_iff (faultyMethodCalls ++ [.reserve]) (by decide)).1 _).1 (by decide +kernel),
    (((finish_eq_iff linkedRecordCalls (by decide)).2.1 Arena.linkedRecord).1
      (by decide +kernel)).1⟩

end Builder

end AstDump
