import AstDump.Arena.Builder
import AstDump.Dumper
import Mathlib.Data.List.Induction

/-!
# Arenas that were checked

What a traversal relies on: every reference of every node leads to a node of the category that its
field asks for, every type has a class name in the table and the shape of that name's kind, and
positions fit in a word. `Builder.finish` checks the references; the rest holds of every builder.

Results:
* `Arena.Finished.sound`: whatever the calls to the builder were, an arena that `finish` returns is
  `Sound`.
* `Node.covered`: every edge of a node was checked as a reference, with a category that the edge's
  visitor serves.
* `Arena.Sound.leads`: hence no edge of a sound arena leads astray.
-/

namespace AstDump

/-! ## Calls to a builder -/

namespace Builder

/-- One call to a builder: it hands out an id, describes one that was handed out, or does both. -/
inductive Call where
  | reserve
  | define (id : NodeId) (d : Description)
  | add (d : Description)
  deriving DecidableEq, Repr

/-- Whether a call hands out an id. -/
def Call.handsOut : Call → Bool
  | .reserve => true
  | .define _ _ => false
  | .add _ => true

/-- The number of ids that a builder can hand out: every word but the greatest is a position. -/
def capacity : Nat := UInt32.size - 1

/-- The builder that an outcome leaves, be it an answer or an error. -/
def Outcome.after {α : Type} : Outcome α → Builder
  | .ok _ b => b
  | .error _ b => b

/-- The builder after a call, whatever the call answered. -/
def apply (b : Builder) : Call → Builder
  | .reserve => b.reserve.2
  | .define id d => (b.define id d).after
  | .add d => (b.add d).after

/-- The builder after calls to an empty one. -/
def afterCalls (calls : List Call) : Builder := calls.foldl apply empty

end Builder

/-- The arena was returned by `finish` after some calls to a builder, which handed out no more ids
    than there are. -/
def Arena.Finished (a : Arena) : Prop :=
  ∃ calls : List Builder.Call,
    calls.countP Builder.Call.handsOut ≤ Builder.capacity ∧
      (Builder.afterCalls calls).finish = .ok a

/-! ## Class names -/

namespace ClassNames

variable {t : ClassNames} {name : String}

/-- A name that the table holds is found and changes nothing; a new one is put at the end. -/
theorem intern_cases (t : ClassNames) (name : String) :
    (∃ c, t.handles[name]? = some c ∧ t.intern name = (c, t)) ∨
      ∃ h : t.handles[name]? = none, t.intern name = (.ofIndex t.size, t.push name h) := by
  unfold intern
  split
  · rename_i c hc
    exact .inl ⟨c, hc, rfl⟩
  · rename_i hnone
    exact .inr ⟨hnone, rfl⟩

theorem size_push (h : t.handles[name]? = none) : (t.push name h).size = t.size + 1 :=
  Array.size_push name

theorem size_intern_le (t : ClassNames) (name : String) : (t.intern name).2.size ≤ t.size + 1 := by
  obtain ⟨c, -, hintern⟩ | ⟨hnone, hintern⟩ := t.intern_cases name
  · rw [hintern]
    exact Nat.le_succ _
  · rw [hintern]
    exact Nat.le_of_eq (size_push hnone)

/-- The handle of a name leads back to it, unless there are more names than words. -/
theorem lookup?_intern_self (hsize : (t.intern name).2.size ≤ UInt32.size) :
    (t.intern name).2.lookup? (t.intern name).1 = some name := by
  obtain ⟨c, hc, hintern⟩ | ⟨hnone, hintern⟩ := t.intern_cases name
  · rw [hintern] at hsize ⊢
    exact (handles_eq_some_iff hsize).1 hc
  · rw [hintern, size_push] at hsize
    rw [hintern, lookup?, ClassName.index_ofIndex hsize]
    exact Array.getElem?_push_size

/-- Interning a name moves no other. -/
theorem lookup?_intern {c : ClassName} {s : String} (name : String)
    (h : t.lookup? c = some s) : (t.intern name).2.lookup? c = some s := by
  obtain ⟨d, -, hintern⟩ | ⟨hnone, hintern⟩ := t.intern_cases name
  · rwa [hintern]
  · unfold lookup? at h
    obtain ⟨hlt, -⟩ := Array.getElem?_eq_some_iff.1 h
    rw [hintern, lookup?, push, Array.getElem?_push, if_neg (by omega), h]

/-- The handles of `names`, interned one after the other, and the table after that. -/
def internAll (t : ClassNames) : List String → List ClassName × ClassNames
  | [] => ([], t)
  | name :: names =>
    let rest := (t.intern name).2.internAll names
    ((t.intern name).1 :: rest.1, rest.2)

end ClassNames

/-- A type has the shape of the kind of its class, whose name the table holds. -/
def TypeNode.Classified (classes : ClassNames) (t : TypeNode) : Prop :=
  ∃ name, classes.lookup? t.className = some name ∧ TypeKind.ofClass name = t.shape.kind

theorem TypeNode.Classified.intern {classes : ClassNames} {t : TypeNode}
    (h : t.Classified classes) (name : String) : t.Classified (classes.intern name).2 := by
  obtain ⟨s, hs, hk⟩ := h
  exact ⟨s, ClassNames.lookup?_intern name hs, hk⟩

/-! ## What one call does -/

namespace Builder

variable {b : Builder}

/-- Ingesting interns at most one name, and a type comes out classified, unless there are more names
    than words. -/
theorem ingest_eq_ok {id : NodeId} {d : Description} {classes classes' : ClassNames} {node : Node}
    (h : ingest id classes d = .ok (node, classes')) :
    (classes' = classes ∨ ∃ name, classes' = (classes.intern name).2) ∧
      (classes'.size ≤ UInt32.size → ∀ t, node = .type t → t.Classified classes') := by
  cases d with
  | type className desugared fields =>
    simp only [ingest] at h
    split at h
    · cases h
    · rename_i shape hshape
      cases h
      refine ⟨.inr ⟨className, rfl⟩, fun hsize => ?_⟩
      rintro t ⟨⟩
      exact ⟨className, ClassNames.lookup?_intern_self hsize,
        (TypeFields.kind_eq_of_shape_eq_ok hshape).symm⟩
  | qualType underlying qualifiers => cases h; exact ⟨.inl rfl, by simp⟩
  | stmt className children => cases h; exact ⟨.inr ⟨className, rfl⟩, by simp⟩
  | decl className children => cases h; exact ⟨.inr ⟨className, rfl⟩, by simp⟩

/-- A description either is refused and changes nothing, or fills one empty slot. -/
theorem define_cases (b : Builder) (id : NodeId) (d : Description) :
    (∃ e, b.define id d = .error e b) ∨
      ∃ node classes, b.slots[id.index]? = some none ∧
        ingest id b.classes d = .ok (node, classes) ∧
        b.define id d =
          .ok () { slots := b.slots.setIfInBounds id.index (some node), classes } := by
  unfold define
  split
  · exact .inl ⟨_, rfl⟩
  · exact .inl ⟨_, rfl⟩
  · rename_i hslot
    split
    · exact .inl ⟨_, rfl⟩
    · rename_i node classes hok
      exact .inr ⟨node, classes, hslot, hok, rfl⟩

theorem after_add (b : Builder) (d : Description) :
    (b.add d).after = (b.reserve.2.define b.reserve.1 d).after := by
  simp only [add]
  cases b.reserve.2.define b.reserve.1 d <;> rfl

theorem size_reserve (b : Builder) : b.reserve.2.size = b.size + 1 := by
  simp [reserve, size]

theorem size_after_define (b : Builder) (id : NodeId) (d : Description) :
    (b.define id d).after.size = b.size := by
  obtain ⟨e, h⟩ | ⟨node, classes, -, -, h⟩ := define_cases b id d <;> rw [h]
  · rfl
  · simp [Outcome.after, size]

theorem size_apply (b : Builder) (c : Call) :
    (b.apply c).size = b.size + if c.handsOut then 1 else 0 := by
  cases c with
  | reserve => exact size_reserve b
  | define id d => exact size_after_define b id d
  | add d =>
    simp only [apply, after_add, size_after_define, size_reserve]
    rfl

/-! ## What all calls keep -/

/-- The number of ids that have a description. -/
def described (b : Builder) : Nat := b.slots.toList.countP Option.isSome

/-- There are no more names than descriptions. -/
def Sparing (b : Builder) : Prop := b.classes.size ≤ b.described

theorem Sparing.size_le (h : b.Sparing) : b.classes.size ≤ b.size :=
  Nat.le_trans h List.countP_le_length

theorem Sparing.reserve (h : b.Sparing) : b.reserve.2.Sparing := by
  have hdescribed : b.reserve.2.described = b.described := by simp [described, Builder.reserve]
  rw [Sparing, hdescribed]
  exact h

theorem Sparing.define (h : b.Sparing) (id : NodeId) (d : Description) :
    (b.define id d).after.Sparing := by
  obtain ⟨e, heq⟩ | ⟨node, classes, hvacant, hok, heq⟩ := define_cases b id d <;> rw [heq]
  · exact h
  · -- One more slot is described, and there is at most one more name.
    obtain ⟨hlt, hnone⟩ := Array.getElem?_eq_some_iff.1 hvacant
    have hdescribed : (b.slots.setIfInBounds id.index (some node)).toList.countP Option.isSome =
        b.described + 1 := by
      rw [Array.toList_setIfInBounds, List.countP_set hlt, Array.getElem_toList, hnone]
      rfl
    have hclasses : classes.size ≤ b.classes.size + 1 := by
      obtain rfl | ⟨name, rfl⟩ := (ingest_eq_ok hok).1
      · exact Nat.le_succ _
      · exact b.classes.size_intern_le name
    have hbefore : b.classes.size ≤ b.described := h
    show classes.size ≤ (b.slots.setIfInBounds id.index (some node)).toList.countP Option.isSome
    omega

/-- Every type described so far is classified. -/
def Classified (b : Builder) : Prop :=
  ∀ (i : Nat) (t : TypeNode), b.slots[i]? = some (some (.type t)) → t.Classified b.classes

theorem Classified.reserve (h : b.Classified) : b.reserve.2.Classified := by
  intro i t hi
  simp only [Builder.reserve, Array.getElem?_push] at hi
  split at hi
  · cases hi
  · exact h i t hi

theorem Classified.define (h : b.Classified) (hsparing : b.Sparing) (hsize : b.size ≤ UInt32.size)
    (id : NodeId) (d : Description) : (b.define id d).after.Classified := by
  have hroom : (b.define id d).after.classes.size ≤ UInt32.size :=
    Nat.le_trans (hsparing.define id d).size_le (by rwa [size_after_define])
  obtain ⟨e, heq⟩ | ⟨node, classes, -, hok, heq⟩ := define_cases b id d <;> rw [heq] at hroom ⊢
  · exact h
  · obtain ⟨hclasses, hnode⟩ := ingest_eq_ok hok
    intro i t hi
    simp only [Outcome.after, Array.getElem?_setIfInBounds] at hi ⊢
    split at hi
    · split at hi
      · exact hnode hroom t (by simpa using hi)
      · cases hi
    · obtain rfl | ⟨name, rfl⟩ := hclasses
      · exact h i t hi
      · exact (h i t hi).intern name

theorem Sparing.apply (h : b.Sparing) (c : Call) : (b.apply c).Sparing := by
  cases c with
  | reserve => exact h.reserve
  | define id d => exact h.define id d
  | add d =>
    simp only [Builder.apply, after_add]
    exact h.reserve.define _ d

theorem Classified.apply (h : b.Classified) (hsparing : b.Sparing) {c : Call}
    (hsize : (b.apply c).size ≤ UInt32.size) : (b.apply c).Classified := by
  rw [size_apply] at hsize
  cases c with
  | reserve => exact h.reserve
  | define id d => exact h.define hsparing hsize id d
  | add d =>
    simp only [Builder.apply, after_add]
    exact h.reserve.define hsparing.reserve (by rwa [size_reserve]) _ d

/-- After any calls there are as many slots as ids handed out, and no more names than descriptions. -/
theorem afterCalls_spec (calls : List Call) :
    (afterCalls calls).size = calls.countP Call.handsOut ∧ (afterCalls calls).Sparing := by
  unfold afterCalls
  induction calls using List.reverseRecOn with
  | nil => exact ⟨rfl, Nat.le_refl 0⟩
  | append_singleton calls c ih =>
    obtain ⟨hsize, hsparing⟩ := ih
    rw [List.foldl_append, List.foldl_cons, List.foldl_nil]
    refine ⟨?_, hsparing.apply c⟩
    rw [size_apply, hsize, List.countP_append, List.countP_singleton]

/-- Names fit in the table as long as ids fit in words. -/
theorem size_classes_afterCalls_le {calls : List Call}
    (hcalls : calls.countP Call.handsOut ≤ capacity) :
    (afterCalls calls).classes.size ≤ UInt32.size := by
  obtain ⟨hsize, hsparing⟩ := afterCalls_spec calls
  have hcapacity : capacity ≤ UInt32.size := by decide
  have hle := hsparing.size_le
  omega

/-- After calls that hand out no more ids than there are, every type is classified. -/
theorem classified_afterCalls {calls : List Call}
    (hcalls : calls.countP Call.handsOut ≤ capacity) : (afterCalls calls).Classified := by
  induction calls using List.reverseRecOn with
  | nil =>
    intro i t h
    simp [afterCalls, empty] at h
  | append_singleton calls c ih =>
    have hsize := (afterCalls_spec (calls ++ [c])).1
    have hcapacity : capacity ≤ UInt32.size := by decide
    have hstep : afterCalls (calls ++ [c]) = (afterCalls calls).apply c := by
      rw [afterCalls, List.foldl_append]
      rfl
    have hbefore : calls.countP Call.handsOut ≤ capacity := by
      rw [List.countP_append] at hcalls
      omega
    rw [hstep] at hsize ⊢
    exact (ih hbefore).apply (afterCalls_spec calls).2 (by omega)

/-! ## What `finish` checks -/

/-- What was checked of a reference: it leads to a node, of the category that its field asks for. -/
def Good (nodes : Array Node) (r : Reference) : Prop :=
  ∃ m, nodes[r.target.index]? = some m ∧ ∀ c, r.field.expected? = some c → m.category = c

theorem good_of_faultOf?_eq_none {nodes : Array Node} {source : NodeId} {r : Reference}
    (h : faultOf? nodes source r = none) : Good nodes r := by
  unfold faultOf? at h
  split at h
  · cases h
  · rename_i m hm
    refine ⟨m, hm, fun c hc => ?_⟩
    simp only [hc] at h
    split at h
    · rename_i heq
      exact heq.symm
    · cases h

theorem good_of_firstFault?_eq_none {nodes : Array Node} (h : firstFault? nodes = none) {i : Nat}
    {node : Node} (hi : nodes[i]? = some node) {r : Reference} (hr : r ∈ node.references) :
    Good nodes r := by
  unfold firstFault? at h
  rw [List.findSome?_eq_none_iff] at h
  have hmem : (node, i) ∈ nodes.toList.zipIdx := by
    rw [List.mk_mem_zipIdx_iff_getElem?, Array.getElem?_toList, hi]
  have hnode := h (node, i) hmem
  rw [List.findSome?_eq_none_iff] at hnode
  exact good_of_faultOf?_eq_none (hnode r hr)

/-- A list without gaps is the list of its items. -/
theorem map_some_filterMap_id {α : Type} {xs : List (Option α)}
    (h : xs.findIdx? Option.isNone = none) : (xs.filterMap id).map some = xs := by
  rw [List.findIdx?_eq_none_iff] at h
  induction xs with
  | nil => rfl
  | cons x xs ih =>
    cases x with
    | none => simpa using h none (by simp)
    | some x =>
      exact congrArg (some x :: ·) (ih fun y hy => h y (List.mem_cons_of_mem _ hy))

/-- A finished arena has one node for each slot, the builder's table, and good references. -/
theorem finish_eq_ok {a : Arena} (h : b.finish = .ok a) :
    a.nodes.toList.map some = b.slots.toList ∧ a.classes = b.classes ∧
      firstFault? a.nodes = none := by
  unfold finish at h
  split at h
  · cases h
  · rename_i hgap
    simp only at h
    split at h
    · cases h
    · rename_i hfault
      cases h
      exact ⟨map_some_filterMap_id hgap, rfl, hfault⟩

section Nodes

variable {nodes : Array Node} (hnodes : nodes.toList.map some = b.slots.toList)

include hnodes

theorem getElem?_slots (i : Nat) : b.slots[i]? = nodes[i]?.map some := by
  rw [← Array.getElem?_toList, ← hnodes, List.getElem?_map, Array.getElem?_toList]

/-- A slot holds the node at its position. -/
theorem getElem?_slots_eq_some_iff {i : Nat} {node : Node} :
    b.slots[i]? = some (some node) ↔ nodes[i]? = some node := by
  rw [getElem?_slots hnodes, Option.map_eq_some_iff]
  simp

theorem size_eq_size_nodes : b.size = nodes.size := by
  have hlength := congrArg List.length hnodes
  simpa [size] using hlength.symm

end Nodes

end Builder

/-! ## Sound arenas -/

/-- What a traversal relies on: positions, and counts of nodes, fit in a word; a reference leads to a
    node of the category that its field asks for; and a type has the shape of the kind of its class. -/
structure Arena.Sound (a : Arena) : Prop where
  size_lt : a.size < UInt32.size
  resolves : ∀ {n : NodeId} {node : Node} {r : Reference}, a.node? n = some node →
    r ∈ node.references →
    ∃ m, a.node? r.target = some m ∧ ∀ c, r.field.expected? = some c → m.category = c
  classified : ∀ {n : NodeId} {t : TypeNode}, a.node? n = some (.type t) → t.Classified a.classes

/-- **Main result.** Every arena that `finish` returns is sound. -/
theorem Arena.Finished.sound {a : Arena} (h : a.Finished) : a.Sound := by
  obtain ⟨calls, hcap, hfin⟩ := h
  obtain ⟨hsize, -⟩ := Builder.afterCalls_spec calls
  have hclass := Builder.classified_afterCalls hcap
  obtain ⟨hslots, hclasses, hfault⟩ := Builder.finish_eq_ok hfin
  refine ⟨?_, ?_, ?_⟩
  · have hlen : (Builder.afterCalls calls).size = a.size := Builder.size_eq_size_nodes hslots
    have : Builder.capacity < UInt32.size := by decide
    omega
  · intro n node r hn hr
    exact Builder.good_of_firstFault?_eq_none hfault hn hr
  · intro n t hn
    rw [hclasses]
    exact hclass n.index t ((Builder.getElem?_slots_eq_some_iff hslots).2 hn)

/-! ## Edges are references -/

/-- A reference stands for an edge: same target, and the edge's visitor is the one that serves the
    category asked for. -/
def Reference.Covers (r : Reference) (e : Edge) : Prop :=
  r.target = e.target ∧ e.via = r.field.expected?.map Category.visitor

/-- Each of some edges has a reference among `rs` that stands for it. -/
def Covered (rs : List Reference) (es : List Edge) : Prop := ∀ e ∈ es, ∃ r ∈ rs, r.Covers e

namespace Covered

variable {rs rs' : List Reference} {es es' : List Edge}

theorem append (h : Covered rs es) (h' : Covered rs' es') : Covered (rs ++ rs') (es ++ es') := by
  intro e he
  obtain he | he := List.mem_append.1 he
  · obtain ⟨r, hr, hc⟩ := h e he
    exact ⟨r, List.mem_append_left _ hr, hc⟩
  · obtain ⟨r, hr, hc⟩ := h' e he
    exact ⟨r, List.mem_append_right _ hr, hc⟩

theorem append_left (rs : List Reference) (h : Covered rs' es) : Covered (rs ++ rs') es := by
  intro e he
  obtain ⟨r, hr, hc⟩ := h e he
  exact ⟨r, List.mem_append_right _ hr, hc⟩

/-- The ids of one field, or some of them, followed in one way. -/
theorem map {f : Field} {step : NodeId → Edge} (h : ∀ x, Reference.Covers ⟨f, x⟩ (step x))
    {xs ys : List NodeId} (hsub : ys ⊆ xs) : Covered (xs.map (⟨f, ·⟩)) (ys.map step) := by
  intro e he
  obtain ⟨x, hx, rfl⟩ := List.mem_map.1 he
  exact ⟨⟨f, x⟩, List.mem_map.2 ⟨x, hsub hx, rfl⟩, h x⟩

theorem singleton {r : Reference} {e : Edge} (h : r.Covers e) : Covered [r] [e] := by
  intro e' he'
  rw [List.mem_singleton.1 he']
  exact ⟨r, List.mem_singleton_self r, h⟩

end Covered

theorem ExceptionSpec.covered (s : ExceptionSpec) : Covered s.references s.edges := by
  unfold ExceptionSpec.references ExceptionSpec.edges
  refine Covered.append (Covered.append (Covered.append ?_ ?_) ?_) ?_
  all_goals exact Covered.map (fun _ => ⟨rfl, rfl⟩) (List.Subset.refl _)

theorem TypeNode.sugarTarget_subset (t : TypeNode) (self : NodeId) :
    (t.sugarTarget self).toList ⊆ t.desugared.toList := by
  intro x hx
  simp only [TypeNode.sugarTarget, Option.mem_toList, Option.filter_eq_some_iff] at hx ⊢
  exact hx.1

theorem TypeNode.covered (t : TypeNode) (self : NodeId) :
    Covered (Node.type t).references (t.edges self) := by
  have sugar : Covered (t.desugared.toList.map (⟨.desugared, ·⟩))
      ((t.sugarTarget self).toList.map (Edge.childVia .type)) :=
    Covered.map (fun _ => ⟨rfl, rfl⟩) (t.sugarTarget_subset self)
  simp only [Node.references, TypeNode.edges]
  cases t.shape with
  | generic => simpa [TypeShape.references] using sugar
  | function r => exact sugar.append (Covered.singleton ⟨rfl, rfl⟩)
  | functionProto r ps s =>
    have params : Covered (⟨.returnType, r⟩ :: ps.map (⟨.parameter, ·⟩))
        (.childVia .type r :: ps.map (.childVia .type)) :=
      (Covered.singleton ⟨rfl, rfl⟩).append (Covered.map (fun _ => ⟨rfl, rfl⟩) (List.Subset.refl _))
    have h := sugar.append (params.append s.covered)
    rwa [← List.append_assoc _ _ s.edges] at h
  | array e => exact sugar.append (Covered.singleton ⟨rfl, rfl⟩)
  | variableArray e n =>
    exact sugar.append
      ((Covered.singleton ⟨rfl, rfl⟩).append (Covered.singleton ⟨rfl, rfl⟩))
  | pointer p => exact sugar.append (Covered.singleton ⟨rfl, rfl⟩)
  | tag d => exact (Covered.singleton ⟨rfl, rfl⟩).append_left _

/-- Every edge of a node was checked: a reference of the node stands for it. -/
theorem Node.covered (node : Node) (self : NodeId) :
    Covered node.references (node.edges self) := by
  cases node with
  | type t => exact t.covered self
  | qualType u q => exact Covered.singleton ⟨rfl, rfl⟩
  | stmt c cs => exact Covered.map (fun _ => ⟨rfl, rfl⟩) (List.Subset.refl _)
  | decl c cs => exact Covered.map (fun _ => ⟨rfl, rfl⟩) (List.Subset.refl _)

/-! ## Locating the ends of edges -/

namespace Arena

variable {a : Arena}

/-- The edge leads to a node of the arena that its visitor serves. -/
def Leads (a : Arena) (e : Edge) (node : Node) : Prop :=
  a.node? e.target = some node ∧ ∀ v, e.via = some v → node.category.visitor = v

theorem locate_eq_ok_iff {e : Edge} {node : Node} :
    Dumper.locate a e = .ok node ↔ a.Leads e node := by
  unfold Dumper.locate Leads
  cases a.node? e.target with
  | none => simp
  | some m =>
    cases e.via with
    | none => simp
    | some v =>
      by_cases h : m.category.visitor = v
      · simp only [h, if_true, Except.ok.injEq, Option.some.injEq, forall_eq', iff_self_and]
        rintro rfl
        exact h
      · simp only [h, if_false, reduceCtorEq, Option.some.injEq, forall_eq', false_iff, not_and]
        rintro rfl
        exact h

/-- No edge of a sound arena leads astray. -/
theorem Sound.leads (h : a.Sound) {n : NodeId} {node : Node} (hn : a.node? n = some node)
    {e : Edge} (he : e ∈ node.edges n) : ∃ m, a.Leads e m := by
  obtain ⟨r, hr, htarget, hvia⟩ := node.covered n e he
  obtain ⟨m, hm, hcat⟩ := h.resolves hn hr
  refine ⟨m, htarget ▸ hm, fun v hv => ?_⟩
  rw [hvia, Option.map_eq_some_iff] at hv
  obtain ⟨c, hc, rfl⟩ := hv
  rw [hcat c hc]

end Arena

/-! ## A record that leads back to itself -/

/-- Calls that describe a record with a field that points to the record, and with a method that may
    throw it. -/
def Builder.linkedRecordCalls : List Builder.Call :=
  [.reserve,
   .add (.decl "FieldDecl" [⟨2⟩]),
   .add (.qualType ⟨3⟩ {}),
   .add (.type "PointerType" none { pointee := some ⟨4⟩ }),
   .add (.qualType ⟨5⟩ { isConst := true }),
   .add (.type "RecordType" (some ⟨5⟩) { decl := some ⟨0⟩ }),
   .add (.decl "CXXMethodDecl" [⟨7⟩]),
   .add (.type "FunctionProtoType" none
     { returnType := some ⟨2⟩
       params := [⟨4⟩, ⟨2⟩]
       spec := { exceptions := [⟨4⟩], noexceptExpr := some ⟨8⟩, sourceDecl := some ⟨6⟩ } }),
   .add (.stmt "CXXBoolLiteralExpr" []),
   .define ⟨0⟩ (.decl "CXXRecordDecl" [⟨1⟩, ⟨6⟩])]

/-- The arena of `Builder.linkedRecordCalls`. -/
def Arena.linkedRecord : Arena where
  nodes := #[
    .decl ⟨6⟩ [⟨1⟩, ⟨6⟩],
    .decl ⟨0⟩ [⟨2⟩],
    .qualType ⟨3⟩ {},
    .type ⟨⟨1⟩, none, .pointer ⟨4⟩⟩,
    .qualType ⟨5⟩ { isConst := true },
    .type ⟨⟨2⟩, some ⟨5⟩, .tag ⟨0⟩⟩,
    .decl ⟨3⟩ [⟨7⟩],
    .type ⟨⟨4⟩, none, .functionProto ⟨2⟩ [⟨4⟩, ⟨2⟩] ⟨[⟨4⟩], some ⟨8⟩, some ⟨6⟩, none⟩⟩,
    .stmt ⟨5⟩ []]
  classes := (ClassNames.empty.internAll ["FieldDecl", "PointerType", "RecordType", "CXXMethodDecl",
    "FunctionProtoType", "CXXBoolLiteralExpr", "CXXRecordDecl"]).2

theorem Arena.finished_linkedRecord : linkedRecord.Finished :=
  ⟨Builder.linkedRecordCalls, by decide, by decide +kernel⟩

end AstDump
