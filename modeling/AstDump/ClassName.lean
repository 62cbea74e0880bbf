import Std.Data.ExtTreeMap

/-!
# Class names

Nodes carry the name of their concrete class. A table stores each name once, in the order of first
use, and a `ClassName` is a position in the table. The table can be read both ways: an array leads
from a position to the name, a map from the name to its position.
-/

namespace AstDump

/-- A class name, as its position in a table of names. -/
structure ClassName where
  raw : UInt32
  deriving DecidableEq, Repr

namespace ClassName

/-- The handle of position `i`, for positions that fit in a word. -/
def ofIndex (i : Nat) : ClassName := ⟨UInt32.ofNat i⟩

/-- The position as a natural number, to index a table. -/
def index (c : ClassName) : Nat := c.raw.toNat

/-- The handle as listings show it. -/
def label (c : ClassName) : String := s!"ClassName({c.index})"

theorem index_ofIndex {i : Nat} (h : i < UInt32.size) : (ofIndex i).index = i :=
  UInt32.toNat_ofNat_of_lt' h

theorem ofIndex_index (c : ClassName) : ofIndex c.index = c := by
  cases c
  simp [index, ofIndex]

end ClassName

/-- The different class names met so far: `names` in the order of first use, and `handles` from a
    name back to its position. Neither can say what the other does not. -/
structure ClassNames where
  names : Array String
  handles : Std.ExtTreeMap String ClassName
  nodup : names.toList.Nodup
  located : ∀ name c,
    handles[name]? = some c ↔ ∃ i, names[i]? = some name ∧ ClassName.ofIndex i = c

namespace ClassNames

variable {t t' : ClassNames} {name : String}

/-- The table without names. -/
def empty : ClassNames where
  names := #[]
  handles := ∅
  nodup := List.nodup_nil
  located := by simp

/-- The number of names. -/
def size (t : ClassNames) : Nat := t.names.size

/-- Whether the table has no names. -/
def isEmpty (t : ClassNames) : Bool := t.names.isEmpty

/-- The name at a handle, if the table reaches that far. -/
def lookup? (t : ClassNames) (c : ClassName) : Option String := t.names[c.index]?

theorem not_mem_names (h : t.handles[name]? = none) : name ∉ t.names := by
  intro hname
  obtain ⟨i, hi⟩ := Array.mem_iff_getElem?.1 hname
  rw [(t.located name (.ofIndex i)).2 ⟨i, hi, rfl⟩] at h
  cases h

theorem nodup_push (h : t.handles[name]? = none) : (t.names.push name).toList.Nodup := by
  rw [Array.toList_push]
  refine List.nodup_append.2 ⟨t.nodup, by simp, ?_⟩
  rintro a ha b hb rfl
  rw [List.mem_singleton.1 hb, Array.mem_toList_iff] at ha
  exact not_mem_names h ha

theorem located_push (h : t.handles[name]? = none) (other : String) (c : ClassName) :
    (t.handles.insert name (.ofIndex t.names.size))[other]? = some c ↔
      ∃ i, (t.names.push name)[i]? = some other ∧ ClassName.ofIndex i = c := by
  simp only [Std.ExtTreeMap.getElem?_insert, Std.LawfulEqCmp.compare_eq_iff_eq,
    Array.getElem?_push]
  by_cases hother : name = other
  · -- The new name stands at the end and nowhere else.
    subst hother
    rw [if_pos rfl, Option.some.injEq]
    constructor
    · rintro rfl
      exact ⟨t.names.size, if_pos rfl, rfl⟩
    · rintro ⟨i, hi, rfl⟩
      split at hi
      · rename_i hend
        rw [hend]
      · exact absurd (Array.mem_of_getElem? hi) (not_mem_names h)
  · rw [if_neg hother, t.located]
    refine exists_congr fun i => and_congr_left fun _ => ?_
    by_cases hend : i = t.names.size
    · simp [hend, hother]
    · rw [if_neg hend]

/-- The table with a new name at its end, which both directions know from then on. -/
def push (t : ClassNames) (name : String) (h : t.handles[name]? = none) : ClassNames where
  names := t.names.push name
  handles := t.handles.insert name (.ofIndex t.names.size)
  nodup := nodup_push h
  located := located_push h

/-- The handle of `name`: the one it has if it is known, else the next free one, where it is put. -/
def intern (t : ClassNames) (name : String) : ClassName × ClassNames :=
  match h : t.handles[name]? with
  | some c => (c, t)
  | none => (.ofIndex t.names.size, t.push name h)

/-- The names settle the map. -/
theorem ext (h : t.names = t'.names) : t = t' := by
  have hhandles : t.handles = t'.handles := by
    refine Std.ExtTreeMap.ext_getElem? fun name => Option.ext fun c => ?_
    rw [t.located, t'.located, h]
  cases t
  cases t'
  cases h
  cases hhandles
  rfl

theorem mem_names_iff : name ∈ t.names ↔ ∃ c, t.handles[name]? = some c := by
  simp only [Array.mem_iff_getElem?, t.located]
  constructor
  · rintro ⟨i, hi⟩
    exact ⟨_, i, hi, rfl⟩
  · rintro ⟨_, i, hi, -⟩
    exact ⟨i, hi⟩

/-- The two directions are inverse to each other, unless there are more names than words. -/
theorem handles_eq_some_iff (hsize : t.size ≤ UInt32.size) {c : ClassName} :
    t.handles[name]? = some c ↔ t.lookup? c = some name := by
  rw [t.located, lookup?]
  constructor
  · rintro ⟨i, hi, rfl⟩
    have hlt : i < t.size := (Array.getElem?_eq_some_iff.1 hi).1
    rwa [ClassName.index_ofIndex (Nat.lt_of_lt_of_le hlt hsize)]
  · intro hc
    exact ⟨c.index, hc, c.ofIndex_index⟩

instance : DecidableEq ClassNames := fun t t' =>
  decidable_of_iff (t.names = t'.names) ⟨ext, congrArg names⟩

instance : Repr ClassNames where
  reprPrec t := reprPrec t.names

end ClassNames

end AstDump
