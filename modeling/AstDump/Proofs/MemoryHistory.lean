import AstDump.Proofs.SharedMemory
import Mathlib.Data.List.Induction

/-!
# Records offered to memory one by one

A sink in memory keeps its records in one table and their positions in another. Whatever it was offered,
taken or refused, the second table is the inverse of the first, so that the record with an id is found
where it stands. Of the records offered, the sink keeps those that come first with their id.

Results:
* `MemorySink.Located.keeps`: the tables stay inverse to each other under every record.
* `MemorySink.Located.get?_eq_some_iff`: the record with an id is found.
* `MemorySink.records_offered`: the records kept are the first with their ids.
* `MemorySink.offered_exact`: what a sink holds and answers after any records.
-/

namespace AstDump

/-! ## First records -/

/-- The records before which no record has the same id, in order. -/
def Record.firsts (rs : List Record) : List Record :=
  rs.zipIdx.filterMap fun (r, i) => if r.id ∈ (rs.take i).map (·.id) then none else some r

/-- One more record is a first one if its id is new, and the others stay what they are. -/
theorem Record.firsts_concat (rs : List Record) (r : Record) :
    firsts (rs ++ [r]) = if r.id ∈ rs.map (·.id) then firsts rs else firsts rs ++ [r] := by
  have hold : (rs.zipIdx.filterMap fun (q, i) =>
      if q.id ∈ ((rs ++ [r]).take i).map (·.id) then none else some q) = firsts rs := by
    refine List.filterMap_congr ?_
    rintro ⟨q, i⟩ hmem
    have hi : i < rs.length := by simpa using (List.mem_zipIdx hmem).2.1
    dsimp only
    rw [List.take_append_of_le_length (Nat.le_of_lt hi)]
  rw [firsts, List.zipIdx_append, List.filterMap_append, hold]
  by_cases hid : r.id ∈ rs.map (·.id)
  · simp [hid]
  · simp [hid]

namespace MemorySink

variable {s : MemorySink}

/-! ## Records and positions -/

/-- The table of positions is the inverse of the table of records. -/
def Located (s : MemorySink) : Prop :=
  ∀ (id : DumpId) (i : Nat), s.position[id.raw]? = some i ↔ ∃ r, s.records[i]? = some r ∧ r.id = id

theorem located_empty : empty.Located := by
  intro id i
  simp [empty]

theorem Located.indexed (h : s.Located) : s.Indexed := by
  intro id
  rw [Std.TreeMap.contains_eq_isSome_getElem?, Option.isSome_iff_exists]
  simp only [h id, ids, List.mem_map, Array.mem_toList_iff, Array.mem_iff_getElem?]
  constructor
  · rintro ⟨i, r, hr, hid⟩
    exact ⟨r, ⟨i, hr⟩, hid⟩
  · rintro ⟨r, ⟨i, hr⟩, hid⟩
    exact ⟨i, r, hr, hid⟩

/-- A record with a new id is put at the end. -/
theorem Located.push (h : s.Located) {r : Record} (hr : r.id ∉ s.ids) :
    Located ⟨s.records.push r, s.position.insert r.id.raw s.records.size⟩ := by
  intro id i
  have hcompare : compare r.id.raw id.raw = .eq ↔ r.id = id := by
    rw [Std.LawfulEqCmp.compare_eq_iff_eq, DumpId.mk.injEq]
  rw [Std.TreeMap.getElem?_insert]
  simp only [Array.getElem?_push]
  by_cases hid : r.id = id
  · -- The id is found at the end, and stands nowhere else.
    rw [if_pos (hcompare.2 hid), Option.some.injEq]
    by_cases hi : i = s.records.size
    · simp [hi, hid]
    · rw [if_neg hi]
      refine iff_of_false (Ne.symm hi) ?_
      rintro ⟨q, hq, hqid⟩
      apply hr
      rw [hid, ← hqid]
      exact List.mem_map_of_mem (Array.mem_toList_iff.2 (Array.mem_of_getElem? hq))
  · rw [if_neg (mt hcompare.1 hid), h id i]
    by_cases hi : i = s.records.size
    · simp [hi, hid]
    · rw [if_neg hi]

/-- The tables stay inverse to each other, whatever the sink is offered. -/
theorem Located.keeps : Sink.Keeps Located where
  beginRun _ h := h
  offer {s} r h := by
    obtain ⟨-, hrecord⟩ | ⟨hid, hrecord⟩ := h.indexed.record_eq r
    · rw [Sink.offer, hrecord]
      exact h
    · rw [Sink.offer, hrecord]
      exact h.push hid

/-- The record with an id is found where it stands. -/
theorem Located.get?_eq_some_iff (h : s.Located) {id : DumpId} {r : Record} :
    s.get? id = some r ↔ r ∈ s.records.toList ∧ r.id = id := by
  rw [get?, Option.bind_eq_some_iff]
  constructor
  · rintro ⟨i, hposition, hr⟩
    obtain ⟨r', hr', hid⟩ := (h id i).1 hposition
    obtain rfl : r' = r := Option.some.inj (hr'.symm.trans hr)
    exact ⟨Array.mem_toList_iff.2 (Array.mem_of_getElem? hr), hid⟩
  · rintro ⟨hmem, hid⟩
    obtain ⟨i, hi⟩ := Array.mem_iff_getElem?.1 (Array.mem_toList_iff.1 hmem)
    exact ⟨i, (h id i).2 ⟨r, hi, hid⟩, hi⟩

theorem Located.lt_size (h : s.Located) {id : DumpId} {i : Nat}
    (hi : s.position[id.raw]? = some i) : i < s.records.size := by
  obtain ⟨r, hr, -⟩ := (h id i).1 hi
  exact (Array.getElem?_eq_some_iff.1 hr).1

/-- No two records have the same id, since an id has one position. -/
theorem Located.nodup_ids (h : s.Located) : s.ids.Nodup := by
  have hposition (i : Nat) (hi : i < s.ids.length) : s.position[s.ids[i].raw]? = some i := by
    refine (h _ i).2 ?_
    simp only [ids, List.length_map, Array.length_toList] at hi
    exact ⟨s.records[i], Array.getElem?_eq_getElem hi, by simp [ids]⟩
  refine List.pairwise_iff_getElem.2 fun i j hi hj hij heq => ?_
  have hsame := hposition i hi
  rw [heq, hposition j hj] at hsame
  exact absurd (Option.some.inj hsame) (Nat.ne_of_gt hij)

/-! ## Records one after the other -/

/-- The sink after records were offered to an empty one, each taken or refused. -/
def offered (rs : List Record) : MemorySink := rs.foldl (fun s r => Sink.offer r s) empty

theorem offered_concat (rs : List Record) (r : Record) :
    offered (rs ++ [r]) = Sink.offer r (offered rs) := by
  rw [offered, List.foldl_append]
  rfl

theorem located_offered (rs : List Record) : (offered rs).Located := by
  induction rs using List.reverseRecOn with
  | nil => exact located_empty
  | append_singleton rs r ih =>
    rw [offered_concat]
    exact Located.keeps.offer r ih

/-- An id is taken once a record with it was offered. -/
theorem mem_ids_offered {rs : List Record} {id : DumpId} :
    id ∈ (offered rs).ids ↔ id ∈ rs.map (·.id) := by
  induction rs using List.reverseRecOn with
  | nil => simp [offered, empty, ids]
  | append_singleton rs r ih =>
    rw [offered_concat, Sink.offer, List.map_append, List.mem_append, ← ih]
    obtain ⟨hid, hrecord⟩ | ⟨-, hrecord⟩ := (located_offered rs).indexed.record_eq r
    · rw [hrecord]
      simp only [List.map_cons, List.map_nil, List.mem_singleton, iff_self_or]
      rintro rfl
      exact hid
    · rw [hrecord]
      simp [ids]

/-- Of the records offered those are kept that come first with their id. -/
theorem records_offered (rs : List Record) : (offered rs).records.toList = Record.firsts rs := by
  induction rs using List.reverseRecOn with
  | nil => rfl
  | append_singleton rs r ih =>
    rw [offered_concat, Sink.offer, Record.firsts_concat, ← ih]
    obtain ⟨hid, hrecord⟩ | ⟨hid, hrecord⟩ := (located_offered rs).indexed.record_eq r
    · rw [hrecord, if_pos (mem_ids_offered.1 hid)]
    · rw [hrecord, if_neg (mt mem_ids_offered.2 hid), Array.toList_push]

/-- **Main result.** What a sink holds and answers after any records were offered to an empty one. Its
    records are those that came first with their id, in order. The next record is refused as a duplicate
    exactly if its id was offered before, which changes nothing, and is taken otherwise. The record with
    an id is found exactly if it is among the records, where there is at most one, and every position in
    the table lies within the records. -/
theorem offered_exact (rs : List Record) :
    (offered rs).records.toList = Record.firsts rs ∧
    (∀ r : Record,
      (Sink.record r (offered rs) = .error (.duplicate r.id) (offered rs) ↔
        r.id ∈ rs.map (·.id)) ∧
      ((∃ s, Sink.record r (offered rs) = .ok () s) ↔ r.id ∉ rs.map (·.id))) ∧
    (∀ (id : DumpId) (r : Record), (offered rs).get? id = some r ↔
      r ∈ (offered rs).records.toList ∧ r.id = id) ∧
    (∀ id : DumpId, (offered rs).get? id = none ↔ ∀ r ∈ (offered rs).records.toList, r.id ≠ id) ∧
    ((offered rs).records.toList.map (·.id)).Nodup ∧
    ∀ (id : DumpId) (i : Nat), (offered rs).position[id.raw]? = some i →
      i < (offered rs).records.size := by
  have hlocated := located_offered rs
  refine ⟨records_offered rs, ?_, fun _ _ => hlocated.get?_eq_some_iff, ?_, hlocated.nodup_ids,
    fun _ _ => hlocated.lt_size⟩
  · intro r
    rw [← mem_ids_offered]
    obtain ⟨hid, hrecord⟩ | ⟨hid, hrecord⟩ := hlocated.indexed.record_eq r
    · simp [hrecord, hid]
    · simp [hrecord, hid]
  · intro id
    rw [Option.eq_none_iff_forall_ne_some]
    simp only [ne_eq, hlocated.get?_eq_some_iff, not_and]

/-- Of three records with two ids the first two are kept, and the third is refused. -/
theorem offered_exact_repeated :
    let a : Record := ⟨⟨7⟩, .stmt, []⟩
    let b : Record := ⟨⟨4⟩, .decl, [⟨7⟩, ⟨4⟩]⟩
    let c : Record := ⟨⟨7⟩, .qualType, [⟨4⟩]⟩
    (offered [a, b, c]).records.toList = [a, b] ∧
      Sink.record c (offered [a, b]) = .error (.duplicate ⟨7⟩) (offered [a, b]) ∧
      (offered [a, b, c]).get? ⟨7⟩ = some a := by
  intro a b c
  obtain ⟨hrecords, -, hget, -⟩ := offered_exact [a, b, c]
  obtain ⟨-, hrecord, -⟩ := offered_exact [a, b]
  have hkept : (offered [a, b, c]).records.toList = [a, b] := hrecords.trans (by decide)
  exact ⟨hkept, (hrecord c).1.2 (by decide), (hget ⟨7⟩ a).2 ⟨by rw [hkept]; decide, rfl⟩⟩

end MemorySink

end AstDump
