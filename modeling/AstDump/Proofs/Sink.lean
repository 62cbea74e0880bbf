import AstDump.Sink.Memory
import Mathlib.Data.List.Basic

/-!
# What a sink takes

A run hands its records to a sink one after the other. `Sink.takeAll` is what becomes of the sink when
it is handed a whole list, and stops at the first record that it refuses.

Results:
* `Sink.takeAll_append`: a list in two parts.
* `Sink.exists_of_takeAll_eq_error`, `Sink.taken_unique`: the first record that a sink refuses.
* `MemorySink.takesDistinct_empty`: records in memory are taken as long as their ids differ.
* `MemorySink.records_of_takeAll_eq_ok`: and then they are in memory, in order.
-/

namespace AstDump

namespace Sink

variable {σ : Type} [Sink σ]

/-- Hands records to the sink in order, up to the first that it refuses. -/
def takeAll : List Record → σ → EStateM.Result SinkError σ Unit
  | [], s => .ok () s
  | r :: rs, s =>
    match record r s with
    | .error e s => .error e s
    | .ok () s => takeAll rs s

/-- The sink takes every list of records with different ids. A sink that never refuses a record does,
    and so does one that refuses only a second record with the same id. -/
def TakesDistinct (s : σ) : Prop :=
  ∀ rs : List Record, (rs.map (·.id)).Nodup → ∃ s', takeAll rs s = .ok () s'

theorem takeAll_append {s s' : σ} {rs : List Record} (h : takeAll rs s = .ok () s')
    (rs' : List Record) : takeAll (rs ++ rs') s = takeAll rs' s' := by
  induction rs generalizing s with
  | nil =>
    cases h
    rfl
  | cons r rs ih =>
    rw [List.cons_append, takeAll]
    rw [takeAll] at h
    split at h
    · cases h
    · exact ih h

/-- What a sink makes of a list that it does not take whole: it takes the records before some record
    and refuses that one. -/
theorem exists_of_takeAll_eq_error {s s' : σ} {rs : List Record} {e : SinkError}
    (h : takeAll rs s = .error e s') :
    ∃ taken r rest s₁, rs = taken ++ r :: rest ∧ takeAll taken s = .ok () s₁ ∧
      record r s₁ = .error e s' := by
  induction rs generalizing s with
  | nil => cases h
  | cons r rs ih =>
    rw [takeAll] at h
    split at h
    · rename_i hrecord
      cases h
      exact ⟨[], r, rs, s, rfl, rfl, hrecord⟩
    · rename_i s₁ hrecord
      obtain ⟨taken, r', rest, s₂, rfl, htake, hrefuse⟩ := ih h
      refine ⟨r :: taken, r', rest, s₂, rfl, ?_, hrefuse⟩
      rw [takeAll, hrecord]
      exact htake

/-- The first record that a sink refuses is settled by the sink. -/
theorem taken_unique {s s₁ s₂ s₁' s₂' : σ} {taken taken' rest rest' : List Record} {r r' : Record}
    {e e' : SinkError} (heq : taken ++ r :: rest = taken' ++ r' :: rest')
    (htake : takeAll taken s = .ok () s₁) (hrefuse : record r s₁ = .error e s₁')
    (htake' : takeAll taken' s = .ok () s₂) (hrefuse' : record r' s₂ = .error e' s₂') :
    taken = taken' := by
  induction taken generalizing s taken' with
  | nil =>
    cases htake
    cases taken' with
    | nil => rfl
    | cons q taken' =>
      obtain rfl : r = q := (List.cons.inj heq).1
      simp only [takeAll, hrefuse] at htake'
      cases htake'
  | cons q taken ih =>
    cases taken' with
    | nil =>
      cases htake'
      obtain rfl : q = r' := (List.cons.inj heq).1
      simp only [takeAll, hrefuse'] at htake
      cases htake
    | cons q' taken' =>
      obtain ⟨rfl, heq'⟩ := List.cons.inj heq
      cases hrecord : record q s with
      | error e s' =>
        simp only [takeAll, hrecord] at htake
        cases htake
      | ok u s' =>
        simp only [takeAll, hrecord] at htake htake'
        rw [ih heq' htake htake']

end Sink

/-! ## Records in memory -/

namespace MemorySink

theorem record_of_not_contains {s : MemorySink} {r : Record}
    (h : s.position.contains r.id.raw = false) :
    Sink.record r s = .ok () ⟨s.records.push r, s.position.insert r.id.raw s.records.size⟩ := by
  simp only [Sink.record, MemorySink.record, h]
  rfl

/-- Records are taken as long as their ids differ from each other and from those taken before. -/
theorem exists_takeAll_eq_ok (rs : List Record) (s : MemorySink) (hnodup : (rs.map (·.id)).Nodup)
    (hnew : ∀ r ∈ rs, s.position.contains r.id.raw = false) :
    ∃ s', Sink.takeAll rs s = .ok () s' := by
  induction rs generalizing s with
  | nil => exact ⟨s, rfl⟩
  | cons r rs ih =>
    rw [List.map_cons, List.nodup_cons] at hnodup
    rw [Sink.takeAll, record_of_not_contains (hnew r List.mem_cons_self)]
    refine ih _ hnodup.2 fun q hq => ?_
    have hne : r.id.raw ≠ q.id.raw := by
      intro heq
      apply hnodup.1
      rw [show r.id = q.id from congrArg DumpId.mk heq]
      exact List.mem_map.2 ⟨q, hq, rfl⟩
    simp [Std.TreeMap.contains_insert, hne, hnew q (List.mem_cons_of_mem _ hq)]

/-- Records that are taken are kept in order. -/
theorem records_of_takeAll_eq_ok {rs : List Record} {s s' : MemorySink}
    (h : Sink.takeAll rs s = .ok () s') : s'.records.toList = s.records.toList ++ rs := by
  induction rs generalizing s with
  | nil =>
    cases h
    exact (List.append_nil _).symm
  | cons r rs ih =>
    cases hcontains : s.position.contains r.id.raw with
    | true =>
      have hrecord : Sink.record r s = .error (.duplicate r.id) s := by
        simp only [Sink.record, MemorySink.record, hcontains, if_true]
      rw [Sink.takeAll, hrecord] at h
      cases h
    | false =>
      rw [Sink.takeAll, record_of_not_contains hcontains] at h
      rw [ih h, Array.toList_push, List.append_assoc]
      rfl

theorem takesDistinct_empty : Sink.TakesDistinct empty := fun rs hnodup =>
  exists_takeAll_eq_ok rs empty hnodup fun _ _ => Std.TreeMap.contains_emptyc

end MemorySink

end AstDump
