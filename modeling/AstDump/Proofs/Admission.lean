import AstDump.Proofs.DeclaredFields

/-!
# When a description is accepted

A builder refuses a description for one of three reasons, and for the first that applies: the id was never
handed out, the id has a description, or the type lacks a field that its kind asks for. A refused
description changes nothing. An accepted one fills the slot of its id and adds at most its own class name,
at the end of the table. A call that also hands out the id can only fail for a missing field; the id then
stays handed out, and the arena cannot be finished until it is described.

Results:
* `Builder.ingest_eq_error_iff`: what a description can lack.
* `Builder.answer_define_eq_error_iff`: the three reasons.
* `Builder.fillsOnly_of_answer_eq_ok`: what an accepted description changes.
* `Builder.slots_apply_vacant`, `Builder.slots_foldl_vacant`: an empty slot stays empty under one call and
  under many, unless one of them describes it.
* `Builder.answer_exact`: all this for every builder.
-/

namespace AstDump

/-! ## What a description gives -/

/-- The description is of a type of the class, and lacks the field: it is the first that the kind of the
    class asks for and that was not given. -/
inductive Description.Lacks : Description → String → Field → Prop
  | type {className : String} {desugared : Option NodeId} {fields : TypeFields}
      {earlier later : List Field} {field : Field}
      (asked : (TypeKind.ofClass className).mandatory = earlier ++ field :: later)
      (present : ∀ g ∈ earlier, fields.given g ≠ []) (missing : fields.given field = []) :
    Lacks (.type className desugared fields) className field

theorem Description.lacks_type_iff {className name : String} {desugared : Option NodeId}
    {fields : TypeFields} {field : Field} :
    (Description.type className desugared fields).Lacks name field ↔
      name = className ∧ fields.shape (TypeKind.ofClass className) = .error field := by
  rw [TypeFields.shape_eq_error_iff, List.find?_eq_some_iff_append]
  constructor
  · rintro ⟨asked, present, missing⟩
    exact ⟨rfl, by simpa using missing, _, _, asked, by simpa using present⟩
  · rintro ⟨rfl, missing, earlier, later, asked, present⟩
    exact .type asked (by simpa using present) (by simpa using missing)

/-- The class name that a description gives; a wrapper has none. -/
def Description.className? : Description → Option String
  | .type className _ _ => some className
  | .qualType _ _ => none
  | .stmt className _ => some className
  | .decl className _ => some className

/-- The names of `classes'` are those of `classes`, and the name given if it is a new one, at the end. -/
def ClassNames.Gains (classes classes' : ClassNames) (name? : Option String) : Prop :=
  (∀ name ∈ name?, name ∈ classes.names) ∧ classes' = classes ∨
    ∃ name ∈ name?, name ∉ classes.names ∧ classes'.names = classes.names.push name

theorem ClassNames.gains_intern (classes : ClassNames) (name : String) :
    classes.Gains (classes.intern name).2 (some name) := by
  obtain ⟨c, hc, hintern⟩ | ⟨hnone, hintern⟩ := classes.intern_cases name
  · rw [hintern]
    refine .inl ⟨?_, rfl⟩
    rintro _ ⟨⟩
    exact mem_names_iff.2 ⟨c, hc⟩
  · rw [hintern]
    exact .inr ⟨name, rfl, not_mem_names hnone, rfl⟩

namespace Builder

variable {b : Builder} {id : NodeId} {d : Description} {e : IngestError}

/-! ## Reasons to refuse -/

/-- The description of `id` as `d` is refused with an error: the id was never handed out or has a
    description, or the type lacks a field. -/
inductive Refuses (b : Builder) (id : NodeId) (d : Description) : IngestError → Prop
  | notReserved (outside : b.size ≤ id.index) : Refuses b id d (.notReserved id)
  | redefined {node : Node} (filled : b.slots[id.index]? = some (some node)) :
    Refuses b id d (.redefined id)
  | missingField {className : String} {field : Field} (vacant : b.slots[id.index]? = some none)
      (lacks : d.Lacks className field) : Refuses b id d (.missingField id className field.name)

/-- Nothing but a missing field stops a description from becoming a node. -/
theorem ingest_eq_error_iff {classes : ClassNames} :
    ingest id classes d = .error e ↔
      ∃ className field, d.Lacks className field ∧ e = .missingField id className field.name := by
  cases d with
  | type className desugared fields =>
    simp only [ingest, Description.lacks_type_iff]
    cases hshape : fields.shape (TypeKind.ofClass className) with
    | error m => simp [eq_comm]
    | ok shape => simp
  | qualType underlying qualifiers =>
    constructor
    · rintro ⟨⟩
    · rintro ⟨className, field, ⟨⟩, -⟩
  | stmt className children =>
    constructor
    · rintro ⟨⟩
    · rintro ⟨className, field, ⟨⟩, -⟩
  | decl className children =>
    constructor
    · rintro ⟨⟩
    · rintro ⟨className, field, ⟨⟩, -⟩

/-- The three reasons for which a description is refused. -/
theorem answer_define_eq_error_iff : b.answer (.define id d) = .error e ↔ b.Refuses id d e := by
  cases hslot : b.slots[id.index]? with
  | none =>
    have houtside : b.size ≤ id.index := Array.getElem?_eq_none_iff.1 hslot
    have hanswer : b.answer (.define id d) = .error (.notReserved id) := by
      simp only [answer, define, hslot]
    rw [hanswer]
    constructor
    · rintro ⟨⟩
      exact .notReserved houtside
    · rintro (_ | filled | vacant)
      · rfl
      · rw [hslot] at filled
        cases filled
      · rw [hslot] at vacant
        cases vacant
  | some slot =>
    have hinside : id.index < b.size := (Array.getElem?_eq_some_iff.1 hslot).1
    cases slot with
    | some node =>
      have hanswer : b.answer (.define id d) = .error (.redefined id) := by
        simp only [answer, define, hslot]
      rw [hanswer]
      constructor
      · rintro ⟨⟩
        exact .redefined hslot
      · rintro (outside | _ | vacant)
        · omega
        · rfl
        · rw [hslot] at vacant
          cases vacant
    | none =>
      have hanswer : b.answer (.define id d) = .error e ↔ ingest id b.classes d = .error e := by
        simp only [answer, define, hslot]
        cases ingest id b.classes d <;> simp
      rw [hanswer, ingest_eq_error_iff]
      constructor
      · rintro ⟨className, field, hlacks, rfl⟩
        exact .missingField hslot hlacks
      · rintro (outside | filled | ⟨_, lacks⟩)
        · omega
        · rw [hslot] at filled
          cases filled
        · exact ⟨_, _, lacks, rfl⟩

/-- What is not refused is accepted. -/
theorem answer_define_eq_ok_iff :
    b.answer (.define id d) = .ok none ↔ ∀ e, ¬b.Refuses id d e := by
  obtain ⟨h, -⟩ | ⟨⟨e, h⟩, -⟩ := b.define_accepts_or_eq id d
  · refine iff_of_true h fun e hrefuses => ?_
    rw [answer_define_eq_error_iff.2 hrefuses] at h
    cases h
  · rw [h]
    exact iff_of_false nofun fun hnone => hnone e (answer_define_eq_error_iff.1 h)

/-! ## What changes -/

/-- From `b` to `b'` nothing changes but the slot of `id`, which holds what `d` describes unless there are
    more names than words, and the table of names, which may gain the class name of `d`. -/
structure FillsOnly (b b' : Builder) (id : NodeId) (d : Description) : Prop where
  size_eq : b'.size = b.size
  others : ∀ i, i ≠ id.index → b'.slots[i]? = b.slots[i]?
  filled : ∃ node, b'.slots[id.index]? = some (some node) ∧
    (b'.classes.size ≤ UInt32.size → d.Describes b'.classes node)
  gains : b.classes.Gains b'.classes d.className?

theorem gains_of_ingest_eq_ok {classes classes' : ClassNames} {node : Node}
    (h : ingest id classes d = .ok (node, classes')) : classes.Gains classes' d.className? := by
  cases d with
  | type className desugared fields =>
    simp only [ingest] at h
    split at h
    · cases h
    · cases h
      exact classes.gains_intern className
  | qualType underlying qualifiers =>
    cases h
    exact .inl ⟨by simp [Description.className?], rfl⟩
  | stmt className children =>
    cases h
    exact classes.gains_intern className
  | decl className children =>
    cases h
    exact classes.gains_intern className

/-- An accepted description fills its slot and changes no other. -/
theorem fillsOnly_of_answer_eq_ok (h : b.answer (.define id d) = .ok none) :
    b.FillsOnly (b.apply (.define id d)) id d := by
  obtain ⟨e, hdefine⟩ | ⟨node, classes, hvacant, hingest, hdefine⟩ := b.define_cases id d
  · simp only [answer, hdefine] at h
    cases h
  · obtain ⟨hlt, -⟩ := Array.getElem?_eq_some_iff.1 hvacant
    simp only [apply, hdefine, Outcome.after]
    refine ⟨?_, fun i hi => ?_, ⟨node, ?_, ?_⟩, gains_of_ingest_eq_ok hingest⟩
    · simp [size]
    · exact Array.getElem?_setIfInBounds_ne (Ne.symm hi)
    · exact Array.getElem?_setIfInBounds_self_of_lt hlt
    · exact (describes_of_ingest_eq_ok hingest).1

/-- A refused description changes nothing. -/
theorem apply_define_of_answer_eq_error (h : b.answer (.define id d) = .error e) :
    b.apply (.define id d) = b := by
  obtain ⟨hok, -⟩ | ⟨-, hsame⟩ := b.define_accepts_or_eq id d
  · rw [h] at hok
    cases hok
  · exact hsame

/-! ## Ids that are handed out and described in one call -/

theorem index_reserve (hsize : b.size < capacity) : b.reserve.1.index = b.size :=
  NodeId.index_ofIndex (Nat.lt_of_lt_of_le hsize (by decide))

theorem slots_reserve_self (hsize : b.size < capacity) :
    b.reserve.2.slots[b.reserve.1.index]? = some none := by
  rw [index_reserve hsize]
  exact Array.getElem?_push_size

/-- An id that was just handed out can be described as anything that lacks no field. -/
theorem refuses_reserve_iff (hsize : b.size < capacity) :
    b.reserve.2.Refuses b.reserve.1 d e ↔
      ∃ className field, d.Lacks className field ∧
        e = .missingField b.reserve.1 className field.name := by
  have hvacant := slots_reserve_self hsize
  constructor
  · rintro (outside | filled | ⟨-, lacks⟩)
    · have hinside := (Array.getElem?_eq_some_iff.1 hvacant).1
      exact absurd hinside (Nat.not_lt.2 outside)
    · rw [hvacant] at filled
      cases filled
    · exact ⟨_, _, lacks, rfl⟩
  · rintro ⟨className, field, lacks, rfl⟩
    exact .missingField hvacant lacks

theorem answer_add_eq_error_iff :
    b.answer (.add d) = .error e ↔ b.reserve.2.answer (.define b.reserve.1 d) = .error e := by
  rw [answer_add]
  cases b.reserve.2.answer (.define b.reserve.1 d) <;> simp [Except.map]

theorem answer_add_eq_ok_iff :
    b.answer (.add d) = .ok (some b.reserve.1) ↔
      b.reserve.2.answer (.define b.reserve.1 d) = .ok none := by
  rw [answer_add]
  obtain ⟨h, -⟩ | ⟨⟨e, h⟩, -⟩ := b.reserve.2.define_accepts_or_eq b.reserve.1 d <;>
    simp [h, Except.map]

/-! ## Slots that stay empty -/

/-- One of the calls describes `id` and is accepted by the builder that those before it leave. -/
def DescribedBy (b : Builder) (id : NodeId) (calls : List Call) : Prop :=
  ∃ before c after d, calls = before ++ c :: after ∧ (before.foldl apply b).Accepts c id d

/-- An empty slot stays empty under a call that does not describe it. -/
theorem slots_apply_vacant {c : Call} {i : Nat} (hvacant : b.slots[i]? = some none)
    (hnone : ∀ d, ¬b.Accepts c (.ofIndex i) d) : (b.apply c).slots[i]? = some none := by
  have hlt : i < (b.apply c).size := by
    rw [size_apply]
    exact Nat.lt_add_right _ (Array.getElem?_eq_some_iff.1 hvacant).1
  have hslot : (b.apply c).slots[i]? = some (b.apply c).slots[i] := Array.getElem?_eq_getElem hlt
  cases hnode : (b.apply c).slots[i] with
  | none => rw [hslot, hnode]
  | some node =>
    rw [hnode] at hslot
    obtain hbefore | ⟨d, haccepts, -⟩ := exists_accepts_of_slots_apply hslot
    · rw [hvacant] at hbefore
      cases hbefore
    · exact absurd haccepts (hnone d)

/-- An empty slot stays empty under calls none of which describes it. -/
theorem slots_foldl_vacant {calls : List Call} {i : Nat} (hvacant : b.slots[i]? = some none)
    (hnone : ¬b.DescribedBy (.ofIndex i) calls) :
    (calls.foldl apply b).slots[i]? = some none := by
  induction calls generalizing b with
  | nil => exact hvacant
  | cons c calls ih =>
    refine ih (slots_apply_vacant hvacant fun d haccepts => hnone ⟨[], c, calls, d, rfl, haccepts⟩) ?_
    rintro ⟨before, c', after, d, rfl, haccepts⟩
    exact hnone ⟨c :: before, c', after, d, rfl, haccepts⟩

/-- A builder with an empty slot cannot be finished: that slot or a lower one is reported. -/
theorem exists_finish_eq_undefined {i : Nat} (hi : i < UInt32.size)
    (hvacant : b.slots[i]? = some none) :
    ∃ id : NodeId, id.index ≤ i ∧ b.finish = .error (.undefined id) := by
  obtain ⟨j, hempty, hfirst⟩ := exists_first_vacant_of_not_filled fun hfilled => hfilled i hvacant
  have hle : j ≤ i := Nat.le_of_not_lt fun hlt => hfirst i hlt hvacant
  refine ⟨.ofIndex j, ?_, finish_of_vacant hempty hfirst⟩
  rwa [NodeId.index_ofIndex (by omega)]

/-! ## All calls -/

/-- What a call that describes an id answers and changes. -/
structure DefineSpec (b : Builder) (id : NodeId) (d : Description) : Prop where
  error_iff : ∀ e, b.answer (.define id d) = .error e ↔ b.Refuses id d e
  ok_iff : b.answer (.define id d) = .ok none ↔ ∀ e, ¬b.Refuses id d e
  same_of_error : ∀ e, b.answer (.define id d) = .error e → b.apply (.define id d) = b
  fills_of_ok : b.answer (.define id d) = .ok none → b.FillsOnly (b.apply (.define id d)) id d

/-- What a call that hands out an id and describes it answers and changes. -/
structure AddSpec (b : Builder) (d : Description) : Prop where
  size_eq : (b.apply (.add d)).size = b.size + 1
  error_iff : ∀ e, b.answer (.add d) = .error e ↔
    ∃ className field, d.Lacks className field ∧
      e = .missingField (.ofIndex b.size) className field.name
  ok_iff : b.answer (.add d) = .ok (some (.ofIndex b.size)) ↔
    ∀ className field, ¬d.Lacks className field
  fills_of_ok : b.answer (.add d) = .ok (some (.ofIndex b.size)) →
    FillsOnly { b with slots := b.slots.push none } (b.apply (.add d)) (.ofIndex b.size) d
  reserved_of_error : ∀ e, b.answer (.add d) = .error e →
    b.apply (.add d) = { b with slots := b.slots.push none }
  undefined_of_error : ∀ e, b.answer (.add d) = .error e → ∀ later,
    ¬(b.apply (.add d)).DescribedBy (.ofIndex b.size) later →
      ∃ id : NodeId, id.index ≤ b.size ∧
        (later.foldl apply (b.apply (.add d))).finish = .error (.undefined id)

theorem defineSpec (b : Builder) (id : NodeId) (d : Description) : b.DefineSpec id d where
  error_iff _ := answer_define_eq_error_iff
  ok_iff := answer_define_eq_ok_iff
  same_of_error _ := apply_define_of_answer_eq_error
  fills_of_ok := fillsOnly_of_answer_eq_ok

theorem addSpec (hsize : b.size < capacity) (d : Description) : b.AddSpec d := by
  have happly : b.apply (.add d) = b.reserve.2.apply (.define b.reserve.1 d) := after_add b d
  have herror_iff : ∀ e, b.answer (.add d) = .error e ↔
      ∃ className field, d.Lacks className field ∧
        e = .missingField (.ofIndex b.size) className field.name := by
    intro e
    rw [answer_add_eq_error_iff, answer_define_eq_error_iff]
    exact refuses_reserve_iff hsize
  have hreserved : ∀ e, b.answer (.add d) = .error e → b.apply (.add d) = b.reserve.2 := by
    intro e h
    rw [happly]
    exact apply_define_of_answer_eq_error (answer_add_eq_error_iff.1 h)
  refine ⟨size_apply b (.add d), herror_iff, ?_, ?_, hreserved, ?_⟩
  · refine answer_add_eq_ok_iff.trans (answer_define_eq_ok_iff.trans ?_)
    simp only [refuses_reserve_iff hsize]
    constructor
    · intro h className field hlacks
      exact h _ ⟨className, field, hlacks, rfl⟩
    · rintro h e ⟨className, field, hlacks, -⟩
      exact h className field hlacks
  · intro h
    rw [happly]
    exact fillsOnly_of_answer_eq_ok (answer_add_eq_ok_iff.1 h)
  · intro e h later hnone
    have hvacant : (b.apply (.add d)).slots[b.size]? = some none := by
      rw [hreserved e h]
      exact Array.getElem?_push_size
    exact exists_finish_eq_undefined (Nat.lt_of_lt_of_le hsize (by decide))
      (slots_foldl_vacant hvacant hnone)

/-- **Main result.** For every builder, a call that describes an id is refused exactly for an id that was
    never handed out, then for one that has a description, then for the first missing field. Refused, it
    changes nothing; accepted, it fills the slot and adds at most its class name. A call that hands out an
    id and describes it adds one slot, and is refused only for a missing field; the slot is then empty, and
    there is no arena until it is described. -/
theorem answer_exact (b : Builder) (d : Description) :
    (∀ id, b.DefineSpec id d) ∧ (b.size < capacity → b.AddSpec d) :=
  ⟨fun id => b.defineSpec id d, fun hsize => addSpec hsize d⟩

/-- The builder after the description of one type. -/
def oneType : Builder := afterCalls [.add (.type "BuiltinType" none {})]

/-- An array with a length and no element. It is refused for an id that cannot be described, before its
    fields are looked at. As a new node it is refused for the element, and leaves an empty slot. -/
theorem answer_exact_oneType :
    let d := Description.type "VariableArrayType" none { sizeExpr := some ⟨0⟩ }
    oneType.answer (.define ⟨0⟩ d) = .error (.redefined ⟨0⟩) ∧
    oneType.answer (.define ⟨1⟩ d) = .error (.notReserved ⟨1⟩) ∧
    oneType.answer (.add d) = .error (.missingField ⟨1⟩ "VariableArrayType" "element type") ∧
    oneType.apply (.add d) = { oneType with slots := oneType.slots.push none } ∧
    ∃ id : NodeId, id.index ≤ 1 ∧ (oneType.apply (.add d)).finish = .error (.undefined id) := by
  intro d
  obtain ⟨hdefine, hadd⟩ := answer_exact oneType d
  obtain ⟨-, herror, -, -, hreserved, hundefined⟩ := hadd (by decide +kernel)
  have hlacks : d.Lacks "VariableArrayType" .element :=
    @Description.Lacks.type _ _ _ [] _ _ rfl nofun rfl
  have hrefused := (herror _).2 ⟨_, _, hlacks, rfl⟩
  refine ⟨?_, ?_, hrefused, hreserved _ hrefused, hundefined _ hrefused [] ?_⟩
  · exact ((hdefine ⟨0⟩).error_iff _).2 (.redefined rfl)
  · exact ((hdefine ⟨1⟩).error_iff _).2 (.notReserved (by decide +kernel))
  · rintro ⟨before, c, after, d', h, -⟩
    simp at h

end Builder

end AstDump
