import AstDump.Proofs.Refusal
import AstDump.Proofs.SharedStream
import Mathlib.Logic.Relation

/-!
# Several dumps into one memory

Ids start anew in every dump, while a sink in memory keeps those of all dumps and refuses an id that it
has. A dump into a sink that was used before goes on like one into an empty sink, up to the first record
whose id is taken.

The sink may have been used in any way before: by single records and by dumps and visits of any arena,
also by such that failed. Its table of positions is then still that of the ids of its records.

Results:
* `Dumper.visitAt_keeps`, `dumpRoots_keeps`: what a sink keeps under every record, it keeps under one
  visit and under a dump.
* `MemorySink.Used.spec`: a sink in use knows its ids and keeps its records.
* `Job.Fits.dumpInto_of_new`, `Job.Fits.dumpInto_of_taken`: the two ways in which a dump ends.
* `dumpInto_used_memory`: both together, and dumps in sequence one after the other.
-/

namespace AstDump

open Move

/-! ## What sinks keep -/

namespace Sink

variable {σ : Type} [Sink σ]

/-- The sink after it was offered a record, taken or refused. -/
def offer (r : Record) (s : σ) : σ :=
  match record r s with
  | .ok () s => s
  | .error _ s => s

/-- A property that a sink keeps, whatever it is told and offered. -/
structure Keeps (P : σ → Prop) : Prop where
  beginRun : ∀ {s : σ} (run : UInt32), P s → P (Sink.beginRun run s)
  offer : ∀ {s : σ} (r : Record), P s → P (Sink.offer r s)

theorem Keeps.takeAll {P : σ → Prop} (hP : Keeps P) {rs : List Record} {s s' : σ}
    (h : takeAll rs s = .ok () s') (hs : P s) : P s' := by
  induction rs generalizing s with
  | nil =>
    cases h
    exact hs
  | cons r rs ih =>
    have hoffer := hP.offer r hs
    rw [Sink.takeAll] at h
    split at h
    · cases h
    · rename_i s₁ hrecord
      rw [Sink.offer, hrecord] at hoffer
      exact ih h hoffer

end Sink

namespace Dumper

variable {σ : Type} [Sink σ] {P : σ → Prop} {d : Dumper σ}

omit [Sink σ] in
/-- An outcome is an error or an answer, and either leaves a dumper. -/
theorem Outcome.after_cases {α : Type} {o : Outcome σ α} (h : P o.after.sink) :
    (∃ e d, o = .error e d ∧ P d.sink) ∨ ∃ x d, o = .ok x d ∧ P d.sink := by
  cases o with
  | error e d => exact .inl ⟨e, d, rfl, h⟩
  | ok x d => exact .inr ⟨x, d, rfl, h⟩

omit [Sink σ] in
theorem idOf_keeps (n : NodeId) (hd : P d.sink) : P (idOf n d).after.sink := by
  simp only [idOf]
  split <;> exact hd

theorem offer_keeps (hP : Sink.Keeps P) (depth : Nat) (n : NodeId) (r : Record) (hd : P d.sink) :
    P (offer depth n r d).after.sink := by
  have hoffer := hP.offer r hd
  rw [Sink.offer] at hoffer
  rw [offer_eq]
  cases hrecord : Sink.record r d.sink with
  | ok u sink =>
    rw [hrecord] at hoffer
    exact hoffer
  | error e sink =>
    rw [hrecord] at hoffer
    exact hoffer

theorem emit_keeps (hP : Sink.Keeps P) (depth : Nat) (n : NodeId) (kind : RecordKind)
    (children : List DumpId) (hd : P d.sink) : P (emit depth n kind children d).after.sink := by
  unfold emit
  obtain ⟨err, d', hid, hd'⟩ | ⟨id, d', hid, hd'⟩ := Outcome.after_cases (idOf_keeps n hd) <;>
    simp only [hid]
  · exact hd'
  · exact offer_keeps hP depth n _ hd'

omit [Sink σ] in
theorem follow_keeps {visit : Edge → Dumper σ → Outcome σ DumpId}
    (hvisit : ∀ e d, P d.sink → P (visit e d).after.sink) (es : List Edge) (hd : P d.sink) :
    P (follow visit es d).after.sink := by
  induction es generalizing d with
  | nil => exact hd
  | cons e es ih =>
    rw [follow]
    obtain ⟨err, d', hv, hd'⟩ | ⟨id, d', hv, hd'⟩ := Outcome.after_cases (hvisit e d hd)
    · simp only [hv]
      exact hd'
    · obtain ⟨err, d'', hf, hd''⟩ | ⟨ids, d'', hf, hd''⟩ := Outcome.after_cases (ih hd') <;>
        simp only [hv, hf] <;> exact hd''

theorem expand_keeps (hP : Sink.Keeps P) {visit : Nat → Edge → Dumper σ → Outcome σ DumpId}
    (hvisit : ∀ depth e d, P d.sink → P (visit depth e d).after.sink) (depth : Nat) (n : NodeId)
    (node : Node) (hd : P d.sink) : P (expand visit depth n node d).after.sink := by
  have hfollow (inner : Nat) {d : Dumper σ} (hd : P d.sink) :=
    Outcome.after_cases (follow_keeps (hvisit inner) (node.edges n) hd)
  unfold expand
  cases spanOf d.arena n node with
  | error err => exact hd
  | ok span? =>
    -- Whether a span is opened or not, the edges are followed and the record is handed over.
    cases span? with
    | none =>
      obtain ⟨err, d', hf, hd'⟩ | ⟨children, d', hf, hd'⟩ := hfollow depth hd <;> simp only [hf]
      · exact hd'
      · exact emit_keeps hP depth n _ _ hd'
    | some span =>
      have hopened : P ({ d with log := d.log.push ⟨depth, span⟩ } : Dumper σ).sink := hd
      obtain ⟨err, d', hf, hd'⟩ | ⟨children, d', hf, hd'⟩ := hfollow (depth + 1) hopened <;>
        simp only [hf]
      · exact hd'
      · exact emit_keeps hP depth n _ _ hd'

theorem dump_keeps (hP : Sink.Keeps P) {visit : Nat → Edge → Dumper σ → Outcome σ DumpId}
    (hvisit : ∀ depth e d, P d.sink → P (visit depth e d).after.sink) (depth : Nat) (n : NodeId)
    (node : Node) (hd : P d.sink) : P (dump visit depth n node d).after.sink := by
  unfold dump
  split
  · exact expand_keeps hP hvisit depth n _ hd
  · unfold dispatch
    split
    · exact hd
    · exact hd
    · exact expand_keeps hP hvisit depth n _ hd

/-- What a sink keeps under every record, it keeps under one visit, whatever the arena. -/
theorem visitAt_keeps (hP : Sink.Keeps P) (bound depth : Nat) (e : Edge) (hd : P d.sink) :
    P (visitAt bound depth e d).after.sink := by
  induction bound generalizing depth e d with
  | zero => exact hd
  | succ bound ih =>
    have hvisit := fun depth e (d : Dumper σ) (hd : P d.sink) => ih depth e hd
    rw [visitAt]
    split
    · exact hd
    · rename_i node _
      obtain ⟨arena, registry, sink, config, records, log⟩ := d
      dsimp only
      split
      · split
        · exact idOf_keeps e.target hd
        · rename_i registry' _
          have hdump := dump_keeps (d := ⟨arena, registry', sink, config, records, log⟩) hP hvisit
            depth e.target node hd
          rw [guarded_eq]
          obtain ⟨err, d', hrun, hd'⟩ | ⟨u, d', hrun, hd'⟩ := Outcome.after_cases hdump <;>
            simp only [hrun]
          · exact hd'
          · exact idOf_keeps e.target hd'
      · exact hd

theorem afterCalls_keeps (hP : Sink.Keeps P) (calls : List Call) (hd : P d.sink) :
    P (d.afterCalls calls).sink := by
  induction calls generalizing d with
  | nil => exact hd
  | cons c calls ih =>
    refine ih ?_
    obtain ⟨via, n⟩ := c
    cases via with
    | none => exact visitAt_keeps hP d.bound 0 (.child n) hd
    | some v => exact visitAt_keeps hP d.bound 0 (.childVia v n) hd

end Dumper

/-- What a sink keeps under every record, it keeps under a dump, whatever the arena and the roots. -/
theorem dumpRoots_keeps {σ : Type} [Sink σ] {P : σ → Prop} (hP : Sink.Keeps P) (a : Arena)
    (roots : List NodeId) {sink : σ} (config : Config) (hsink : P sink) :
    P (dumpRoots a roots sink config).sink := by
  have hopened : P (Dumper.opened a roots sink config).sink := hP.beginRun config.runId hsink
  have hfollow := Dumper.follow_keeps (fun e d => Dumper.visitAt_keeps hP (a.size + 1) 1 e)
    (roots.map Edge.child) hopened
  rw [dumpRoots_eq_follow]
  obtain ⟨e, d, hf, hd⟩ | ⟨ids, d, hf, hd⟩ := Dumper.Outcome.after_cases hfollow <;>
    simp only [hf] <;> exact hd

/-! ## Memory in use -/

namespace MemorySink

variable {s s' : MemorySink}

/-- The ids of the records, in the order in which these came. -/
def ids (s : MemorySink) : List DumpId := s.records.toList.map (·.id)

/-- The table has a position for the ids of the records and for no other. -/
def Indexed (s : MemorySink) : Prop := ∀ id : DumpId, s.position.contains id.raw ↔ id ∈ s.ids

/-- A sink that begins with the records of another and knows their ids. -/
structure Extends (s s' : MemorySink) : Prop where
  indexed : s'.Indexed
  records : s.records.toList <+: s'.records.toList

theorem indexed_empty : empty.Indexed := by
  intro id
  simp [empty, ids]

theorem record_of_contains {r : Record} (h : s.position.contains r.id.raw) :
    Sink.record r s = .error (.duplicate r.id) s := by
  simp only [Sink.record, MemorySink.record, h, if_true]

/-- A record is refused if its id is taken, and is kept otherwise. -/
theorem Indexed.record_eq (h : s.Indexed) (r : Record) :
    r.id ∈ s.ids ∧ Sink.record r s = .error (.duplicate r.id) s ∨
      r.id ∉ s.ids ∧ Sink.record r s =
        .ok () ⟨s.records.push r, s.position.insert r.id.raw s.records.size⟩ := by
  by_cases hid : r.id ∈ s.ids
  · exact .inl ⟨hid, record_of_contains ((h r.id).2 hid)⟩
  · refine .inr ⟨hid, record_of_not_contains ?_⟩
    rwa [← Bool.not_eq_true, h r.id]

theorem Indexed.push (h : s.Indexed) (r : Record) :
    Indexed ⟨s.records.push r, s.position.insert r.id.raw s.records.size⟩ := by
  intro id
  have hraw : r.id.raw = id.raw ↔ id = r.id := by rw [DumpId.mk.injEq, eq_comm]
  simp [ids, Std.TreeMap.contains_insert, hraw, h id, or_comm]

theorem Extends.keeps (s : MemorySink) : Sink.Keeps s.Extends where
  beginRun _ h := h
  offer {s'} r h := by
    obtain ⟨-, hrecord⟩ | ⟨hid, hrecord⟩ := h.indexed.record_eq r
    · rw [Sink.offer, hrecord]
      exact h
    · rw [Sink.offer, hrecord]
      refine ⟨h.indexed.push r, h.records.trans ?_⟩
      rw [Array.toList_push]
      exact List.prefix_append _ _

/-- One use of a sink: a record is offered, and taken or refused; roots of an arena are dumped, to the
    end or up to an error; or nodes of an arena are visited one by one, with or without errors. -/
inductive Use : MemorySink → MemorySink → Prop
  | record (s : MemorySink) (r : Record) : Use s (Sink.offer r s)
  | dump (s : MemorySink) (a : Arena) (roots : List NodeId) (config : Config) :
    Use s (dumpRoots a roots s config).sink
  | visits (s : MemorySink) (a : Arena) (config : Config) (calls : List Dumper.Call) :
    Use s ((Dumper.new a s config).afterCalls calls).sink

/-- Any number of uses. -/
def Used : MemorySink → MemorySink → Prop := Relation.ReflTransGen Use

theorem Use.keeps {P : MemorySink → Prop} (hP : Sink.Keeps P) (h : Use s s') (hs : P s) : P s' := by
  cases h with
  | record r => exact hP.offer r hs
  | dump a roots config => exact dumpRoots_keeps hP a roots config hs
  | visits a config calls => exact Dumper.afterCalls_keeps hP calls (hP.beginRun config.runId hs)

theorem Used.keeps {P : MemorySink → Prop} (hP : Sink.Keeps P) (h : Used s s') (hs : P s) :
    P s' := by
  induction h with
  | refl => exact hs
  | tail _ huse ih => exact huse.keeps hP ih

/-- A sink in use knows its ids, and keeps the records that it had. -/
theorem Used.spec (h : Used s s') (hs : s.Indexed) :
    s'.Indexed ∧ s.records.toList <+: s'.records.toList := by
  obtain ⟨hindexed, hrecords⟩ := h.keeps (Extends.keeps s) ⟨hs, List.prefix_rfl⟩
  exact ⟨hindexed, hrecords⟩

/-- Records with new ids are taken. -/
theorem Indexed.exists_takeAll_eq_ok (h : s.Indexed) {rs : List Record}
    (hnodup : (rs.map (·.id)).Nodup) (hnew : ∀ r ∈ rs, r.id ∉ s.ids) :
    ∃ s', Sink.takeAll rs s = .ok () s' ∧ s'.Indexed ∧
      s'.records.toList = s.records.toList ++ rs := by
  have hcontains : ∀ r ∈ rs, s.position.contains r.id.raw = false := fun r hr => by
    rw [← Bool.not_eq_true, h r.id]
    exact hnew r hr
  obtain ⟨s', htake⟩ := MemorySink.exists_takeAll_eq_ok rs s hnodup hcontains
  have hextends := (Extends.keeps s).takeAll htake ⟨h, List.prefix_rfl⟩
  exact ⟨s', htake, hextends.indexed, records_of_takeAll_eq_ok htake⟩

end MemorySink

/-! ## Dumps into memory in use -/

namespace Job

variable {j : Job} {s : MemorySink}

/-- Makes the dump into a sink. -/
def dumpInto {σ : Type} [Sink σ] (j : Job) (sink : σ) : Run σ :=
  dumpRoots j.arena j.roots sink j.config

/-- What the dump offers is what it leaves in an empty memory, until some record is refused. -/
theorem Fits.exists_offeredBy_eq (h : j.Fits) :
    ∃ ms, Tour j.arena [] (j.roots.takeWhile j.arena.contains) ms ∧
      (j.arena.offeredBy j.config.idScheme [] ms).map Prod.snd = j.records := by
  obtain ⟨ms, tour, hrecords⟩ := h.exists_records_eq
  refine ⟨ms, ?_, hrecords.symm⟩
  rwa [List.takeWhile_eq_self_iff.2 h.contains]

/-- If no id is taken, the dump succeeds and its records are added. -/
theorem Fits.dumpInto_of_new (h : j.Fits) (hs : s.Indexed) (hnew : ∀ r ∈ j.records, r.id ∉ s.ids) :
    (∃ summary, (j.dumpInto s).result = .ok summary) ∧
      (j.dumpInto s).sink.records.toList = s.records.toList ++ j.records := by
  obtain ⟨ms, tour, hoffered⟩ := h.exists_offeredBy_eq
  obtain ⟨s', htake, -, hrecords⟩ := hs.exists_takeAll_eq_ok h.nodup_ids hnew
  rw [← hoffered] at htake
  obtain ⟨-, -, hsink, hresult⟩ := dumpRoots_of_taken h.finished.sound tour htake
  have hinside : j.roots.find? (!j.arena.contains ·) = none := by
    rw [List.find?_eq_none]
    intro n hn
    simp [h.contains n hn]
  rw [hinside] at hresult
  refine ⟨hresult, ?_⟩
  rw [dumpInto, hsink, hrecords]

/-- The first record whose id is taken ends the dump, with the records before it added. -/
theorem Fits.dumpInto_of_taken (h : j.Fits) (hs : s.Indexed) {before after : List Record}
    {r : Record} (hsplit : j.records = before ++ r :: after) (hbefore : ∀ q ∈ before, q.id ∉ s.ids)
    (hr : r.id ∈ s.ids) :
    (j.dumpInto s).result = .error (.sink (.duplicate r.id)) ∧
      (j.dumpInto s).sink.records.toList = s.records.toList ++ before := by
  obtain ⟨ms, tour, hoffered⟩ := h.exists_offeredBy_eq
  have hnodup : (before.map (·.id)).Nodup := by
    have hall := h.nodup_ids
    rw [hsplit, List.map_append] at hall
    exact hall.of_append_left
  obtain ⟨s', htake, hindexed, hrecords⟩ := hs.exists_takeAll_eq_ok hnodup hbefore
  have hmem : r.id ∈ s'.ids := by
    rw [MemorySink.ids, hrecords, List.map_append]
    exact List.mem_append_left _ hr
  have hrefuse := MemorySink.record_of_contains ((hindexed r.id).2 hmem)
  obtain ⟨hresult, -, -, hsink⟩ :=
    dumpRoots_of_refused h.finished.sound tour (hoffered.trans hsplit) htake hrefuse
  refine ⟨hresult, ?_⟩
  rw [dumpInto, hsink, hrecords]

/-- If some id is taken, the dump fails for an id. -/
theorem Fits.exists_duplicate (h : j.Fits) (hs : s.Indexed) {id : DumpId}
    (hid : id ∈ j.records.map (·.id)) (htaken : id ∈ s.ids) :
    ∃ id, (j.dumpInto s).result = .error (.sink (.duplicate id)) := by
  obtain ⟨r, hr, rfl⟩ := List.mem_map.1 hid
  have hfind : (j.records.find? (·.id ∈ s.ids)).isSome :=
    List.find?_isSome.2 ⟨r, hr, decide_eq_true htaken⟩
  obtain ⟨r', hr'⟩ := Option.isSome_iff_exists.1 hfind
  obtain ⟨htaken', before, after, hsplit, hbefore⟩ := List.find?_eq_some_iff_append.1 hr'
  exact ⟨r'.id, (h.dumpInto_of_taken hs hsplit (by simpa using hbefore)
    (of_decide_eq_true htaken')).1⟩

/-- A dump that succeeds has added all its records. -/
theorem Fits.records_of_dumpInto_eq_ok (h : j.Fits) (hs : s.Indexed) {summary : Summary}
    (hok : (j.dumpInto s).result = .ok summary) :
    (j.dumpInto s).sink.records.toList = s.records.toList ++ j.records := by
  refine (h.dumpInto_of_new hs fun r hr htaken => ?_).2
  obtain ⟨id, herror⟩ := h.exists_duplicate hs (List.mem_map_of_mem hr) htaken
  rw [hok] at herror
  cases herror

/-- A dump of at least one root that numbers the nodes in sequence. -/
def InSequence (j : Job) : Prop := j.config.idScheme = .sequential ∧ j.roots ≠ []

/-- The first node that is entered gets the number 0. -/
theorem Fits.zero_mem_ids (h : j.Fits) (hseq : j.InSequence) : ⟨0⟩ ∈ j.records.map (·.id) := by
  obtain ⟨ms, tour, hrecords⟩ := h.exists_records_eq
  have hnode : ∀ n ∈ left ms, ∃ node, j.arena.node? n = some node := fun n hn =>
    tour.orderly.exists_node n (tour.perm.mem_iff.1 hn)
  rw [hrecords, Arena.map_id_recordsIn hnode, hseq.1]
  obtain ⟨root, hroot⟩ := List.exists_mem_of_ne_nil _ hseq.2
  cases hentered : entered ms with
  | nil => simpa [hentered] using tour.subset hroot
  | cons first later =>
    refine List.mem_map.2 ⟨first, tour.perm.mem_iff.2 (by simp [hentered]), ?_⟩
    simp [IdScheme.idIn]

end Job

/-- **Main result.** A dump into memory that was used in any way before, against the records that the same
    dump leaves in an empty memory. If none of their ids is taken, the dump succeeds and adds them all.
    Otherwise it fails for the first id that is taken, and adds the records before that one. So after one
    dump in sequence that succeeded, every other in sequence fails, however the memory is used between
    them. -/
theorem dumpInto_used_memory {s : MemorySink} (hs : MemorySink.Used .empty s) {j : Job}
    (hj : j.Fits) :
    ((∀ r ∈ j.records, r.id ∉ s.ids) →
      (∃ summary, (j.dumpInto s).result = .ok summary) ∧
        (j.dumpInto s).sink.records.toList = s.records.toList ++ j.records) ∧
    (∀ before r after, j.records = before ++ r :: after → (∀ q ∈ before, q.id ∉ s.ids) →
      r.id ∈ s.ids →
      (j.dumpInto s).result = .error (.sink (.duplicate r.id)) ∧
        (j.dumpInto s).sink.records.toList = s.records.toList ++ before) ∧
    ∀ summary, (j.dumpInto s).result = .ok summary → j.InSequence →
      ∀ (s' : MemorySink) (j' : Job), MemorySink.Used (j.dumpInto s).sink s' → j'.Fits →
        j'.InSequence → ∃ id, (j'.dumpInto s').result = .error (.sink (.duplicate id)) := by
  have hindexed := (hs.spec MemorySink.indexed_empty).1
  refine ⟨hj.dumpInto_of_new hindexed, fun _ _ _ => hj.dumpInto_of_taken hindexed, ?_⟩
  intro summary hok hseq s' j' hs' hj' hseq'
  have hdump : MemorySink.Used s (j.dumpInto s).sink := .single (.dump s j.arena j.roots j.config)
  obtain ⟨hindexed', hkept⟩ := hs'.spec (hdump.spec hindexed).1
  -- Both dumps number some node 0.
  have hzero : ⟨0⟩ ∈ s'.ids := by
    refine (hkept.map (·.id)).subset ?_
    rw [hj.records_of_dumpInto_eq_ok hindexed hok, List.map_append]
    exact List.mem_append_right _ (hj.zero_mem_ids hseq)
  exact hj'.exists_duplicate hindexed' (hj'.zero_mem_ids hseq') hzero

/-- A dump of the linked record into memory with a record that has the number 3, and two dumps of it into
    the same memory. -/
theorem dumpInto_used_memory_linkedRecord :
    let j : Job := ⟨Arena.linkedRecord, [⟨0⟩], {}⟩
    let s : MemorySink := Sink.offer ⟨⟨3⟩, .stmt, []⟩ .empty
    ((j.dumpInto s).result = .error (.sink (.duplicate ⟨3⟩)) ∧
      (j.dumpInto s).sink.records.toList = s.records.toList ++ j.records.take 2) ∧
    ∃ id, (j.dumpInto (j.dumpInto MemorySink.empty).sink).result =
      .error (.sink (.duplicate id)) := by
  intro j s
  have hj : j.Fits := ⟨Arena.finished_linkedRecord, by decide⟩
  have hsplit : j.records =
      j.records.take 2 ++ ⟨⟨3⟩, .type .pointer, [⟨4⟩]⟩ :: j.records.drop 3 := by decide +kernel
  have hseq : j.InSequence := ⟨rfl, by decide⟩
  obtain ⟨-, htaken, -⟩ := dumpInto_used_memory (.single (.record _ _) : MemorySink.Used .empty s) hj
  obtain ⟨hnew, -, hagain⟩ := dumpInto_used_memory (.refl : MemorySink.Used .empty .empty) hj
  obtain ⟨⟨summary, hok⟩, -⟩ := hnew (by simp [MemorySink.ids, MemorySink.empty])
  exact ⟨htaken _ _ _ hsplit (by decide +kernel) (by decide +kernel),
    hagain summary hok hseq _ j .refl hj hseq⟩

end AstDump
