import AstDump.Proofs.WriteOnce
import Mathlib.Data.Finset.Card

/-!
# Class names interned one after the other

A table of class names is read in two directions: the map leads from a name to its handle, the array from a
handle to its name. Handles are words, so the two are inverse to each other as long as there are no more
names than words. Whatever names are interned until then, and however often, each has the handle of its
first call, and the handle stays good as the table grows.

Results:
* `ClassNames.intern_of_lookup?_eq_some`: a name that the table holds is found where it stands.
* `ClassNames.internAll_keeps`: what one call keeps, any calls keep.
* `ClassNames.lookup?_of_mem_zip`: a handle that was given leads back to its name.
* `ClassNames.index_of_mem_zip`: a handle counts the names before the first call with its own.
* `ClassNames.internAll_exact`: what a table holds and answers after any calls.
-/

namespace AstDump

namespace ClassNames

variable {t : ClassNames} {c d : ClassName} {name other : String} {names : List String}

/-! ## One name -/

theorem mem_names_intern :
    other ∈ (t.intern name).2.names ↔ other ∈ t.names ∨ other = name := by
  obtain ⟨c, hc, hintern⟩ | ⟨hnone, hintern⟩ := t.intern_cases name
  · rw [hintern, iff_self_or]
    rintro rfl
    exact mem_names_iff.2 ⟨c, hc⟩
  · rw [hintern, push, Array.mem_push]

theorem size_le_size_intern (t : ClassNames) (name : String) : t.size ≤ (t.intern name).2.size := by
  obtain ⟨c, -, hintern⟩ | ⟨hnone, hintern⟩ := t.intern_cases name
  · rw [hintern]
  · rw [hintern, size_push]
    exact Nat.le_succ _

/-- Where a name stands is what the map says. -/
theorem handles_of_lookup?_eq_some (hc : t.lookup? c = some name) : t.handles[name]? = some c :=
  (t.located name c).2 ⟨c.index, hc, c.ofIndex_index⟩

/-- A name stands at one handle only. -/
theorem eq_of_lookup?_eq_some (hc : t.lookup? c = some name) (hd : t.lookup? d = some name) :
    c = d :=
  Option.some.inj ((handles_of_lookup?_eq_some hc).symm.trans (handles_of_lookup?_eq_some hd))

/-- A name that the table holds is found where it stands. -/
theorem intern_of_lookup?_eq_some (hc : t.lookup? c = some name) : t.intern name = (c, t) := by
  have hheld := handles_of_lookup?_eq_some hc
  obtain ⟨d, hd, hintern⟩ | ⟨hnone, -⟩ := t.intern_cases name
  · rw [hheld, Option.some.injEq] at hd
    rw [hintern, hd]
  · rw [hheld] at hnone
    cases hnone

/-! ## Many names -/

theorem snd_internAll_append (t : ClassNames) (names later : List String) :
    (t.internAll (names ++ later)).2 = ((t.internAll names).2.internAll later).2 := by
  induction names generalizing t with
  | nil => rfl
  | cons name names ih => exact ih _

theorem length_internAll (t : ClassNames) (names : List String) :
    (t.internAll names).1.length = names.length := by
  induction names generalizing t with
  | nil => rfl
  | cons name names ih => exact congrArg (· + 1) (ih _)

/-- What one call keeps, any calls keep. -/
theorem internAll_keeps {P : ClassNames → Prop}
    (hstep : ∀ (t : ClassNames) (name : String), P t → P (t.intern name).2) (h : P t)
    (names : List String) : P (t.internAll names).2 := by
  induction names generalizing t with
  | nil => exact h
  | cons name names ih => exact ih (hstep t name h)

theorem extends_internAll (t : ClassNames) (names : List String) :
    t.Extends (t.internAll names).2 := by
  refine internAll_keeps (P := t.Extends) ?_ (fun _ _ h => h) names
  intro t' name h c other hc
  exact lookup?_intern name (h c other hc)

theorem size_le_size_internAll (t : ClassNames) (names : List String) :
    t.size ≤ (t.internAll names).2.size :=
  internAll_keeps (P := fun t' => t.size ≤ t'.size)
    (fun t' name h => Nat.le_trans h (t'.size_le_size_intern name)) (Nat.le_refl _) names

theorem mem_names_internAll :
    other ∈ (t.internAll names).2.names ↔ other ∈ t.names ∨ other ∈ names := by
  induction names generalizing t with
  | nil => simp [internAll]
  | cons name names ih =>
    rw [internAll, ih, mem_names_intern, List.mem_cons, or_assoc]

/-- After calls to an empty table it holds the names that they were for. -/
theorem mem_names_internAll_empty : name ∈ (empty.internAll names).2.names ↔ name ∈ names := by
  rw [mem_names_internAll]
  simp [empty]

theorem size_internAll (names : List String) :
    (empty.internAll names).2.size = names.toFinset.card := by
  have hsame : (empty.internAll names).2.names.toList.toFinset = names.toFinset := by
    ext name
    rw [List.mem_toFinset, List.mem_toFinset, Array.mem_toList_iff, mem_names_internAll_empty]
  rw [← hsame, List.toFinset_card_of_nodup (empty.internAll names).2.nodup, Array.length_toList]
  rfl

/-! ## Calls and their handles -/

theorem exists_mem_zip (t : ClassNames) (h : name ∈ names) :
    ∃ c, (name, c) ∈ names.zip (t.internAll names).1 := by
  rw [← List.map_fst_zip (Nat.le_of_eq (t.length_internAll names).symm), List.mem_map] at h
  obtain ⟨⟨_, c⟩, hmem, rfl⟩ := h
  exact ⟨c, hmem⟩

/-- A handle that was given leads back to its name. -/
theorem lookup?_of_mem_zip (hsize : (t.internAll names).2.size ≤ UInt32.size)
    (h : (name, c) ∈ names.zip (t.internAll names).1) :
    (t.internAll names).2.lookup? c = some name := by
  induction names generalizing t with
  | nil => cases h
  | cons first names ih =>
    rw [internAll, List.zip_cons_cons, List.mem_cons] at h
    obtain heq | h := h
    · -- The first call stored the name, and the others did not move it.
      cases heq
      have hfirst := Nat.le_trans (size_le_size_internAll _ names) hsize
      exact extends_internAll _ names _ _ (lookup?_intern_self hfirst)
    · exact ih hsize h

section Handles

variable (hsize : (empty.internAll names).2.size ≤ UInt32.size)

include hsize

/-- A table holds a name at a handle exactly if a call for the name gave the handle. -/
theorem lookup?_eq_some_iff_mem_zip :
    (empty.internAll names).2.lookup? c = some name ↔
      (name, c) ∈ names.zip (empty.internAll names).1 := by
  constructor
  · intro hc
    have hname : name ∈ names := mem_names_internAll_empty.1 (Array.mem_of_getElem? hc)
    obtain ⟨d, hd⟩ := empty.exists_mem_zip hname
    rwa [eq_of_lookup?_eq_some hc (lookup?_of_mem_zip hsize hd)]
  · exact lookup?_of_mem_zip hsize

/-- The handle of a name is the number of different names before the first call with it. -/
theorem index_of_mem_zip (h : (name, c) ∈ names.zip (empty.internAll names).1) :
    c.index = (names.take (names.idxOf name)).toFinset.card := by
  obtain ⟨before, after, rfl, hbefore⟩ := List.eq_append_cons_of_mem (List.of_mem_zip h).1
  have hfirst : (before ++ name :: after).idxOf name = before.length := by
    rw [List.idxOf_append_of_notMem hbefore, List.idxOf_cons_self, Nat.add_zero]
  rw [hfirst, List.take_left, ← size_internAll]
  have hc := lookup?_of_mem_zip hsize h
  rw [snd_internAll_append, internAll] at hc hsize
  have hroom := Nat.le_trans (size_le_size_internAll _ after) hsize
  -- The first call finds a table without the name and gives the next free place.
  obtain ⟨d, hd, -⟩ | ⟨hnone, hintern⟩ := (empty.internAll before).2.intern_cases name
  · exact absurd (mem_names_internAll_empty.1 (mem_names_iff.2 ⟨d, hd⟩)) hbefore
  · -- There the name still stands after the last call, and it stands nowhere else.
    have hnew := extends_internAll _ after _ _ (lookup?_intern_self hroom)
    rw [eq_of_lookup?_eq_some hc hnew]
    rw [hintern, size_push] at hroom
    rw [hintern, ClassName.index_ofIndex hroom]

end Handles

/-! ## What a table answers -/

/-- A table agrees with the calls for `names` that gave `handles`. Two calls gave the same handle exactly if
    they were for the same name, and it is the number of different names before the first of them. Map and
    array hold the names of the calls at their handles, and nothing else. A further call for such a name
    gives its handle and changes nothing, and the handle leads to the name after any further calls. -/
structure AgreesWith (t : ClassNames) (names : List String) (handles : List ClassName) : Prop where
  answered : handles.length = names.length
  same_iff : ∀ p ∈ names.zip handles, ∀ q ∈ names.zip handles, p.2 = q.2 ↔ p.1 = q.1
  index_eq : ∀ p ∈ names.zip handles, p.2.index = (names.take (names.idxOf p.1)).toFinset.card
  size_eq : t.size = names.toFinset.card
  lookup?_iff : ∀ name c, t.lookup? c = some name ↔ (name, c) ∈ names.zip handles
  handles_iff : ∀ name c, t.handles[name]? = some c ↔ (name, c) ∈ names.zip handles
  again : ∀ p ∈ names.zip handles, t.intern p.1 = (p.2, t)
  stays : ∀ later, ∀ p ∈ names.zip handles, (t.internAll later).2.lookup? p.2 = some p.1

/-- **Main result.** A table agrees with any calls since it was empty, if they are for no more different
    names than there are words. -/
theorem internAll_exact (names : List String) (hfew : names.toFinset.card ≤ UInt32.size) :
    (empty.internAll names).2.AgreesWith names (empty.internAll names).1 := by
  have hsize : (empty.internAll names).2.size ≤ UInt32.size := by rwa [size_internAll]
  refine {
    answered := empty.length_internAll names
    same_iff := ?_
    index_eq := fun _ hp => index_of_mem_zip hsize hp
    size_eq := size_internAll names
    lookup?_iff := fun _ _ => lookup?_eq_some_iff_mem_zip hsize
    handles_iff := fun _ _ =>
      (handles_eq_some_iff hsize).trans (lookup?_eq_some_iff_mem_zip hsize)
    again := fun _ hp => intern_of_lookup?_eq_some (lookup?_of_mem_zip hsize hp)
    stays := fun later _ hp => extends_internAll _ later _ _ (lookup?_of_mem_zip hsize hp) }
  rintro ⟨name, c⟩ hp ⟨other, d⟩ hq
  have hc := lookup?_of_mem_zip hsize hp
  have hd := lookup?_of_mem_zip hsize hq
  constructor
  · rintro rfl
    exact Option.some.inj (hc.symm.trans hd)
  · rintro rfl
    exact eq_of_lookup?_eq_some hc hd

/-- Of three calls with two names the last gives the handle of the first, which leads to its name also
    after a fourth. -/
theorem internAll_exact_repeated :
    let run := empty.internAll ["PointerType", "BuiltinType", "PointerType"]
    run.1 = [⟨0⟩, ⟨1⟩, ⟨0⟩] ∧ run.2.size = 2 ∧ run.2.handles["BuiltinType"]? = some ⟨1⟩ ∧
      run.2.lookup? ⟨1⟩ = some "BuiltinType" ∧ run.2.intern "PointerType" = (⟨0⟩, run.2) ∧
      (run.2.internAll ["RecordType"]).2.lookup? ⟨0⟩ = some "PointerType" := by
  intro run
  have h := internAll_exact ["PointerType", "BuiltinType", "PointerType"] (by decide)
  have hfirst : ("PointerType", ⟨0⟩) ∈ ["PointerType", "BuiltinType", "PointerType"].zip run.1 := by
    decide +kernel
  have hsecond : ("BuiltinType", ⟨1⟩) ∈ ["PointerType", "BuiltinType", "PointerType"].zip run.1 := by
    decide +kernel
  exact ⟨by decide +kernel, h.size_eq.trans (by decide), (h.handles_iff _ _).2 hsecond,
    (h.lookup?_iff _ _).2 hsecond, h.again _ hfirst, h.stays ["RecordType"] _ hfirst⟩

end ClassNames

end AstDump
