import AstDump.Proofs.Sound

/-!
# Descriptions are kept

A builder hands out positions in order, whether or not the description that comes with a position is
accepted. An id is described at most once: a description is accepted only while the slot of its id is
empty, and no call empties or changes a slot. So each node of a finished arena is told by one call, and the
names that later calls add to the table of classes do not move its own.

Results:
* `Builder.apply_cases`: a call fills the slot that it describes, or leaves what is described as it is.
* `Builder.slots_apply`, `Builder.slots_afterCalls_append`: what is described stays, under one call and
  under many.
* `Builder.AcceptsAt.unique`: an id is described once.
* `Builder.exists_acceptsAt`: whatever a slot holds was described.
* `Builder.afterCalls_writeOnce`: all this for a finished arena.
-/

namespace AstDump

/-! ## Nodes as described -/

/-- A shape has its fields as they were given. -/
def TypeShape.Keeps : TypeShape → TypeFields → Prop
  | .generic, _ => True
  | .function r, f => f.returnType = some r
  | .functionProto r ps s, f => f.returnType = some r ∧ f.params = ps ∧ f.spec = s
  | .array e, f => f.element = some e
  | .variableArray e n, f => f.element = some e ∧ f.sizeExpr = some n
  | .pointer p, f => f.pointee = some p
  | .tag d, f => f.decl = some d

theorem TypeFields.keeps_of_shape_eq_ok {f : TypeFields} {k : TypeKind} {s : TypeShape}
    (h : f.shape k = .ok s) : s.Keeps f := by
  cases k <;> simp only [shape] at h <;> (try split at h) <;> cases h <;>
    simp_all [TypeShape.Keeps]

/-- The node is what was described, and the table holds the name of its class. A type has the shape of
    its class, with the fields as given. -/
inductive Description.Describes (classes : ClassNames) : Description → Node → Prop
  | type {className : String} {desugared : Option NodeId} {fields : TypeFields} {c : ClassName}
      {shape : TypeShape} (name : classes.lookup? c = some className)
      (kind : shape.kind = TypeKind.ofClass className) (keeps : shape.Keeps fields) :
    Describes classes (.type className desugared fields) (.type ⟨c, desugared, shape⟩)
  | qualType {underlying : NodeId} {qualifiers : Qualifiers} :
    Describes classes (.qualType underlying qualifiers) (.qualType underlying qualifiers)
  | stmt {className : String} {children : List NodeId} {c : ClassName}
      (name : classes.lookup? c = some className) :
    Describes classes (.stmt className children) (.stmt c children)
  | decl {className : String} {children : List NodeId} {c : ClassName}
      (name : classes.lookup? c = some className) :
    Describes classes (.decl className children) (.decl c children)

/-- Every name of one table stands at the same place in another. -/
def ClassNames.Extends (classes classes' : ClassNames) : Prop :=
  ∀ c name, classes.lookup? c = some name → classes'.lookup? c = some name

theorem ClassNames.extends_intern (classes : ClassNames) (name : String) :
    classes.Extends (classes.intern name).2 := fun _ _ h => lookup?_intern name h

theorem Description.Describes.extends {classes classes' : ClassNames} {d : Description} {node : Node}
    (h : d.Describes classes node) (hclasses : classes.Extends classes') :
    d.Describes classes' node := by
  cases h with
  | type name kind keeps => exact .type (hclasses _ _ name) kind keeps
  | qualType => exact .qualType
  | stmt name => exact .stmt (hclasses _ _ name)
  | decl name => exact .decl (hclasses _ _ name)

namespace Builder

variable {b : Builder}

/-! ## What one call does -/

/-- The node that is ingested is what was described, unless there are more names than words, and no
    name is moved. -/
theorem describes_of_ingest_eq_ok {id : NodeId} {d : Description} {classes classes' : ClassNames}
    {node : Node} (h : ingest id classes d = .ok (node, classes')) :
    (classes'.size ≤ UInt32.size → d.Describes classes' node) ∧ classes.Extends classes' := by
  cases d with
  | type className desugared fields =>
    simp only [ingest] at h
    split at h
    · cases h
    · rename_i shape hshape
      cases h
      refine ⟨fun hsize => ?_, ClassNames.extends_intern _ _⟩
      exact .type (ClassNames.lookup?_intern_self hsize) (TypeFields.kind_eq_of_shape_eq_ok hshape)
        (TypeFields.keeps_of_shape_eq_ok hshape)
  | qualType underlying qualifiers =>
    cases h
    exact ⟨fun _ => .qualType, fun _ _ hname => hname⟩
  | stmt className children =>
    cases h
    exact ⟨fun hsize => .stmt (ClassNames.lookup?_intern_self hsize), ClassNames.extends_intern _ _⟩
  | decl className children =>
    cases h
    exact ⟨fun hsize => .decl (ClassNames.lookup?_intern_self hsize), ClassNames.extends_intern _ _⟩

/-- From `b` to `b'` just the slot of `id` is filled, with what `d` describes unless there are more names
    than words, and no name is moved. -/
structure Fills (b b' : Builder) (id : NodeId) (d : Description) : Prop where
  vacant : ∀ node, b.slots[id.index]? ≠ some (some node)
  extends_classes : b.classes.Extends b'.classes
  exists_node : ∃ node, (b'.classes.size ≤ UInt32.size → d.Describes b'.classes node) ∧
    ∀ (i : Nat) (node' : Node), b'.slots[i]? = some (some node') ↔
      i = id.index ∧ node' = node ∨ b.slots[i]? = some (some node')

/-- An accepted description fills its slot. -/
theorem fills_of_define_eq_ok {b' : Builder} {id : NodeId} {d : Description}
    (h : b.define id d = .ok () b') : b.Fills b' id d := by
  obtain ⟨e, herror⟩ | ⟨node, classes, hvacant, hingest, hok⟩ := define_cases b id d
  · rw [h] at herror
    cases herror
  · rw [h] at hok
    cases hok
    obtain ⟨hdescribes, hextends⟩ := describes_of_ingest_eq_ok hingest
    refine ⟨by simp [hvacant], hextends, node, hdescribes, fun i node' => ?_⟩
    obtain ⟨hlt, -⟩ := Array.getElem?_eq_some_iff.1 hvacant
    by_cases hi : i = id.index
    · simp [hi, hvacant, Array.getElem?_setIfInBounds_self_of_lt hlt, eq_comm]
    · simp [hi, Array.getElem?_setIfInBounds_ne (Ne.symm hi)]

/-- A slot that was just handed out is empty. -/
theorem slots_reserve_eq_some_iff {i : Nat} {node : Node} :
    b.reserve.2.slots[i]? = some (some node) ↔ b.slots[i]? = some (some node) := by
  simp only [reserve, Array.getElem?_push]
  split
  · rename_i hi
    simp [hi]
  · exact Iff.rfl

theorem Fills.of_reserve {b' : Builder} {id : NodeId} {d : Description}
    (h : b.reserve.2.Fills b' id d) : b.Fills b' id d := by
  obtain ⟨hvacant, hextends, node, hdescribes, hslots⟩ := h
  simp only [ne_eq, slots_reserve_eq_some_iff] at hvacant hslots
  exact ⟨hvacant, hextends, node, hdescribes, hslots⟩

/-! ## Accepted calls -/

/-- What a call answers: an error, or the id that it hands out if it hands out one. -/
def answer (b : Builder) : Call → Except IngestError (Option NodeId)
  | .reserve => .ok (some b.reserve.1)
  | .define id d =>
    match b.define id d with
    | .ok () _ => .ok none
    | .error e _ => .error e
  | .add d =>
    match b.add d with
    | .ok id _ => .ok (some id)
    | .error e _ => .error e

/-- The call describes `id` as `d`, and the builder accepts. The id was handed out before, or the call
    hands it out. -/
inductive Accepts (b : Builder) : Call → NodeId → Description → Prop
  | define {id : NodeId} {d : Description} (h : b.answer (.define id d) = .ok none) :
    Accepts b (.define id d) id d
  | add {id : NodeId} {d : Description} (h : b.answer (.add d) = .ok (some id)) :
    Accepts b (.add d) id d

theorem answer_add (b : Builder) (d : Description) :
    b.answer (.add d) = (b.reserve.2.answer (.define b.reserve.1 d)).map
      fun _ => some b.reserve.1 := by
  simp only [answer, add]
  cases b.reserve.2.define b.reserve.1 d <;> rfl

/-- A description is accepted and fills its slot, or leaves the builder as it is. -/
theorem define_accepts_or_eq (b : Builder) (id : NodeId) (d : Description) :
    b.answer (.define id d) = .ok none ∧ b.Fills (b.apply (.define id d)) id d ∨
      (∃ e, b.answer (.define id d) = .error e) ∧ b.apply (.define id d) = b := by
  simp only [answer, apply]
  cases h : b.define id d with
  | ok u b' => exact .inl ⟨rfl, fills_of_define_eq_ok h⟩
  | error e b' =>
    obtain ⟨e', h'⟩ | ⟨node, classes, -, -, h'⟩ := define_cases b id d <;> rw [h] at h' <;> cases h'
    exact .inr ⟨⟨e, rfl⟩, rfl⟩

/-- A call is the accepted description of one id and fills its slot, or accepts nothing and leaves what
    is described and the names as they are. -/
theorem apply_cases (b : Builder) (c : Call) :
    (∃ id d, b.Accepts c id d ∧ b.Fills (b.apply c) id d) ∨
      (∀ id d, ¬ b.Accepts c id d) ∧ (b.apply c).classes = b.classes ∧
        ∀ (i : Nat) (node : Node),
          (b.apply c).slots[i]? = some (some node) ↔ b.slots[i]? = some (some node) := by
  cases c with
  | reserve =>
    refine .inr ⟨?_, rfl, fun i node => slots_reserve_eq_some_iff⟩
    intro id d h
    cases h
  | define id d =>
    obtain ⟨hanswer, hfills⟩ | ⟨⟨e, hanswer⟩, hsame⟩ := b.define_accepts_or_eq id d
    · exact .inl ⟨id, d, .define hanswer, hfills⟩
    · refine .inr ⟨?_, by rw [hsame], by simp [hsame]⟩
      rintro id' d' ⟨h⟩
      rw [hanswer] at h
      cases h
  | add d =>
    have happly : b.apply (.add d) = b.reserve.2.apply (.define b.reserve.1 d) := after_add b d
    rw [happly]
    obtain ⟨hanswer, hfills⟩ | ⟨⟨e, hanswer⟩, hsame⟩ :=
      b.reserve.2.define_accepts_or_eq b.reserve.1 d
    · exact .inl ⟨b.reserve.1, d, .add (by rw [answer_add, hanswer]; rfl), hfills.of_reserve⟩
    · refine .inr ⟨?_, by rw [hsame]; rfl, by simp [hsame, slots_reserve_eq_some_iff]⟩
      rintro id' d' h
      cases h with
      | add h =>
        rw [answer_add, hanswer] at h
        cases h

theorem Accepts.unique {c : Call} {id id' : NodeId} {d d' : Description} (h : b.Accepts c id d)
    (h' : b.Accepts c id' d') : id = id' ∧ d = d' := by
  cases h with
  | define _ =>
    cases h'
    exact ⟨rfl, rfl⟩
  | add h =>
    cases h' with
    | add h' =>
      rw [h] at h'
      cases h'
      exact ⟨rfl, rfl⟩

/-- An accepted call fills the slot of the id that it describes. -/
theorem Accepts.fills {c : Call} {id : NodeId} {d : Description} (h : b.Accepts c id d) :
    b.Fills (b.apply c) id d := by
  obtain ⟨id', d', h', hfills⟩ | ⟨hnone, -⟩ := b.apply_cases c
  · obtain ⟨rfl, rfl⟩ := h.unique h'
    exact hfills
  · exact absurd h (hnone id d)

/-- What is described stays as it is. -/
theorem slots_apply (c : Call) {i : Nat} {node : Node} (h : b.slots[i]? = some (some node)) :
    (b.apply c).slots[i]? = some (some node) := by
  obtain ⟨id, d, -, hfills⟩ | ⟨-, -, hslots⟩ := b.apply_cases c
  · obtain ⟨-, -, node', -, hslots⟩ := hfills
    exact (hslots i node).2 (.inr h)
  · exact (hslots i node).2 h

theorem extends_classes_apply (b : Builder) (c : Call) : b.classes.Extends (b.apply c).classes := by
  obtain ⟨id, d, -, hfills⟩ | ⟨-, hclasses, -⟩ := b.apply_cases c
  · exact hfills.extends_classes
  · rw [hclasses]
    exact fun _ _ hname => hname

/-- What a slot holds after a call it held before, or the call described it. -/
theorem exists_accepts_of_slots_apply {c : Call} {i : Nat} {node : Node}
    (h : (b.apply c).slots[i]? = some (some node)) :
    b.slots[i]? = some (some node) ∨
      ∃ d, b.Accepts c (.ofIndex i) d ∧
        ((b.apply c).classes.size ≤ UInt32.size → d.Describes (b.apply c).classes node) := by
  obtain ⟨id, d, haccepts, hfills⟩ | ⟨-, -, hslots⟩ := b.apply_cases c
  · obtain ⟨-, -, node', hdescribes, hslots⟩ := hfills
    obtain ⟨rfl, rfl⟩ | hbefore := (hslots i node).1 h
    · rw [NodeId.ofIndex_index]
      exact .inr ⟨d, haccepts, hdescribes⟩
    · exact .inl hbefore
  · exact .inl ((hslots i node).1 h)

/-- An id that is handed out is the number of slots before it. -/
theorem index_of_answer_eq_ok (hsize : b.size < UInt32.size) {c : Call} {id : NodeId}
    (h : b.answer c = .ok (some id)) : id.index = b.size := by
  have hreserve : b.reserve.1.index = b.size := NodeId.index_ofIndex hsize
  cases c with
  | reserve =>
    cases h
    exact hreserve
  | define id' d =>
    obtain ⟨hanswer, -⟩ | ⟨⟨e, hanswer⟩, -⟩ := b.define_accepts_or_eq id' d <;> rw [hanswer] at h <;>
      cases h
  | add d =>
    rw [answer_add] at h
    cases hdefine : b.reserve.2.answer (.define b.reserve.1 d) with
    | error e =>
      rw [hdefine] at h
      cases h
    | ok x =>
      rw [hdefine] at h
      cases h
      exact hreserve

/-! ## What all calls do -/

theorem afterCalls_concat (calls : List Call) (c : Call) :
    afterCalls (calls ++ [c]) = (afterCalls calls).apply c := by
  rw [afterCalls, List.foldl_append]
  rfl

theorem afterCalls_take_succ {calls : List Call} {k : Nat} {c : Call} (h : calls[k]? = some c) :
    afterCalls (calls.take (k + 1)) = (afterCalls (calls.take k)).apply c := by
  rw [List.take_add_one, h, Option.toList_some, afterCalls_concat]

/-- What is described stays as it is through all later calls. -/
theorem slots_afterCalls_append {calls : List Call} (more : List Call) {i : Nat} {node : Node}
    (h : (afterCalls calls).slots[i]? = some (some node)) :
    (afterCalls (calls ++ more)).slots[i]? = some (some node) := by
  induction more using List.reverseRecOn with
  | nil => rwa [List.append_nil]
  | append_singleton more c ih =>
    rw [← List.append_assoc, afterCalls_concat]
    exact slots_apply c ih

theorem slots_afterCalls_take {calls : List Call} {k k' : Nat} (hk : k ≤ k') {i : Nat} {node : Node}
    (h : (afterCalls (calls.take k)).slots[i]? = some (some node)) :
    (afterCalls (calls.take k')).slots[i]? = some (some node) := by
  obtain ⟨more, hmore⟩ := List.take_prefix_take_left (l := calls) hk
  rw [← hmore]
  exact slots_afterCalls_append more h

/-- Call number `k` describes `id` as `d`, and is accepted by the builder that the calls before it
    leave. -/
def AcceptsAt (calls : List Call) (k : Nat) (id : NodeId) (d : Description) : Prop :=
  ∃ c, calls[k]? = some c ∧ (afterCalls (calls.take k)).Accepts c id d

theorem AcceptsAt.append {calls : List Call} {k : Nat} {id : NodeId} {d : Description}
    (h : AcceptsAt calls k id d) (more : List Call) : AcceptsAt (calls ++ more) k id d := by
  obtain ⟨c, hc, haccepts⟩ := h
  obtain ⟨hlt, -⟩ := List.getElem?_eq_some_iff.1 hc
  refine ⟨c, by rw [List.getElem?_append_left hlt, hc], ?_⟩
  rwa [List.take_append_of_le_length (Nat.le_of_lt hlt)]

/-- After an accepted description its id cannot be described again. -/
theorem AcceptsAt.le {calls : List Call} {k k' : Nat} {id : NodeId} {d d' : Description}
    (h : AcceptsAt calls k id d) (h' : AcceptsAt calls k' id d') : k' ≤ k := by
  obtain ⟨c, hc, haccepts⟩ := h
  obtain ⟨c', hc', haccepts'⟩ := h'
  by_contra hlt
  obtain ⟨-, -, node, -, hslots⟩ := haccepts.fills
  have hfilled : (afterCalls (calls.take (k + 1))).slots[id.index]? = some (some node) := by
    rw [afterCalls_take_succ hc]
    exact (hslots _ _).2 (.inl ⟨rfl, rfl⟩)
  exact haccepts'.fills.vacant node (slots_afterCalls_take (Nat.lt_of_not_le hlt) hfilled)

/-- An id is described once. -/
theorem AcceptsAt.unique {calls : List Call} {k k' : Nat} {id : NodeId} {d d' : Description}
    (h : AcceptsAt calls k id d) (h' : AcceptsAt calls k' id d') : k = k' ∧ d = d' := by
  obtain rfl : k = k' := Nat.le_antisymm (h'.le h) (h.le h')
  obtain ⟨c, hc, haccepts⟩ := h
  obtain ⟨c', hc', haccepts'⟩ := h'
  rw [hc] at hc'
  cases hc'
  exact ⟨rfl, (haccepts.unique haccepts').2⟩

/-- Whatever a slot holds was described by one of the calls. -/
theorem exists_acceptsAt {calls : List Call} (hcalls : calls.countP Call.handsOut ≤ capacity) {i : Nat}
    {node : Node} (h : (afterCalls calls).slots[i]? = some (some node)) :
    ∃ k d, AcceptsAt calls k (.ofIndex i) d ∧ d.Describes (afterCalls calls).classes node := by
  induction calls using List.reverseRecOn with
  | nil => simp [afterCalls, empty] at h
  | append_singleton calls c ih =>
    have hroom := size_classes_afterCalls_le hcalls
    rw [List.countP_append] at hcalls
    rw [afterCalls_concat] at h hroom ⊢
    obtain hbefore | ⟨d, haccepts, hdescribes⟩ := exists_accepts_of_slots_apply h
    · obtain ⟨k, d, hk, hdescribes⟩ := ih (by omega) hbefore
      exact ⟨k, d, hk.append [c], hdescribes.extends (extends_classes_apply _ c)⟩
    · refine ⟨calls.length, d, ⟨c, by simp, ?_⟩, hdescribes hroom⟩
      rwa [List.take_left]

/-- **Main result.** Of any calls, those that hand out an id hand out the number of slots handed out
    before. Each id is described by at most one accepted call, and what is described stays. If there is
    an arena in the end, it has as many nodes as slots were handed out, and each node is what the one
    accepted call with its id described, with the name of its class as given. -/
theorem afterCalls_writeOnce (calls : List Call) (hcalls : calls.countP Call.handsOut ≤ capacity) :
    (∀ k c id, calls[k]? = some c → (afterCalls (calls.take k)).answer c = .ok (some id) →
      id.index = (calls.take k).countP Call.handsOut) ∧
    (∀ id k d k' d', AcceptsAt calls k id d → AcceptsAt calls k' id d' → k = k' ∧ d = d') ∧
    (∀ (k i : Nat) (node : Node), (afterCalls (calls.take k)).slots[i]? = some (some node) →
      (afterCalls calls).slots[i]? = some (some node)) ∧
    ∀ a, (afterCalls calls).finish = .ok a →
      a.size = calls.countP Call.handsOut ∧
      ∀ id, a.contains id → ∃ k d node, AcceptsAt calls k id d ∧ a.node? id = some node ∧
        d.Describes a.classes node := by
  refine ⟨?_, fun _ _ _ _ _ h h' => h.unique h', ?_, ?_⟩
  · intro k c id hc hanswer
    have hsize := (afterCalls_spec (calls.take k)).1
    have hle : (calls.take k).countP Call.handsOut ≤ calls.countP Call.handsOut :=
      (List.take_sublist k calls).countP_le
    have hcapacity : capacity < UInt32.size := by decide
    rw [← hsize]
    exact index_of_answer_eq_ok (by omega) hanswer
  · intro k i node h
    have hall := slots_afterCalls_append (calls.drop k) h
    rwa [List.take_append_drop] at hall
  · intro a ha
    obtain ⟨hnodes, hclasses, -⟩ := finish_eq_ok ha
    have hsize : a.size = calls.countP Call.handsOut := by
      rw [← (afterCalls_spec calls).1]
      exact (size_eq_size_nodes hnodes).symm
    refine ⟨hsize, fun id hid => ?_⟩
    have hlt : id.index < a.nodes.size := of_decide_eq_true hid
    have hnode : a.node? id = some a.nodes[id.index] := Array.getElem?_eq_getElem hlt
    obtain ⟨k, d, hk, hdescribes⟩ :=
      exists_acceptsAt hcalls ((getElem?_slots_eq_some_iff hnodes).2 hnode)
    rw [NodeId.ofIndex_index] at hk
    exact ⟨k, d, _, hk, hnode, hclasses ▸ hdescribes⟩

/-- Calls of which some are refused: a pointer without its pointee, which is described again later, and
    a second description of the same pointer. -/
def retriedPointerCalls : List Call :=
  [.reserve,
   .add (.type "PointerType" none {}),
   .add (.qualType ⟨0⟩ { isConst := true }),
   .define ⟨1⟩ (.type "PointerType" none { pointee := some ⟨2⟩, decl := some ⟨9⟩ }),
   .define ⟨1⟩ (.stmt "NullStmt" []),
   .define ⟨0⟩ (.type "BuiltinType" none {})]

/-- The arena of `retriedPointerCalls`. -/
def retriedPointer : Arena where
  nodes := #[.type ⟨⟨1⟩, none, .generic⟩, .type ⟨⟨0⟩, none, .pointer ⟨2⟩⟩,
    .qualType ⟨0⟩ { isConst := true }]
  classes := (ClassNames.empty.internAll ["PointerType", "BuiltinType"]).2

/-- The first description of the pointer that is accepted is the one that is kept. -/
theorem afterCalls_writeOnce_retriedPointer :
    retriedPointer.size = retriedPointerCalls.countP Call.handsOut ∧
    (∃ k d node, AcceptsAt retriedPointerCalls k ⟨1⟩ d ∧ retriedPointer.node? ⟨1⟩ = some node ∧
      d.Describes retriedPointer.classes node) ∧
    ∀ k d k' d', AcceptsAt retriedPointerCalls k ⟨1⟩ d → AcceptsAt retriedPointerCalls k' ⟨1⟩ d' →
      k = k' ∧ d = d' := by
  obtain ⟨-, honce, -, hfinish⟩ := afterCalls_writeOnce retriedPointerCalls (by decide)
  obtain ⟨hsize, hnodes⟩ := hfinish retriedPointer (by decide +kernel)
  exact ⟨hsize, hnodes ⟨1⟩ (by decide), honce ⟨1⟩⟩

end Builder

end AstDump
