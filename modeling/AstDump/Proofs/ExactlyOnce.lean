import AstDump.Proofs.Complete

/-!
# Every reachable node is dumped exactly once

After calls to a dumper whose sink refuses nothing, the nodes with a record, the nodes marked as
dumped and the nodes with an id are the same: those that can be reached from the nodes named in the
calls. `Dumper.Holds` says so of a dumper, with the three counts that go with it.

Results:
* `Dumper.Complete.holds`: a complete dumper holds what was entered.
* `Dumper.exists_call_holds`: each of a sequence of calls is answered, and the dumper holds what can
  be reached from the calls so far.
-/

namespace AstDump

namespace Dumper

variable {σ : Type} [Sink σ] {a : Arena} {s : IdScheme} {sink₀ : σ} {order out : List NodeId}
  {d : Dumper σ}

/-- Exactly the nodes that can be reached from `roots` were dumped, each once, into a sink that was
    `sink₀` at the beginning: they have the records, the marks and the ids, no two records are of one
    node or show one id, the sink took the records in order and nothing else, and the three counts are
    the number of these nodes. -/
structure Holds (a : Arena) (roots : List NodeId) (sink₀ : σ) (d : Dumper σ) : Prop where
  recorded : ∀ n, (∃ r, (n, r) ∈ d.offers) ↔ a.ReachedFrom roots n
  dumped : ∀ n, d.registry.isDumped n ↔ a.ReachedFrom roots n
  known : ∀ n, (d.registry.get? n).isSome ↔ a.ReachedFrom roots n
  once : (d.offers.map Prod.fst).Nodup
  id_eq : ∀ n r, (n, r) ∈ d.offers → d.registry.get? n = some r.id
  ids_nodup : ((d.offers.map Prod.snd).map (·.id)).Nodup
  taken : Sink.takeAll (d.offers.map Prod.snd) sink₀ = .ok () d.sink
  records_eq : d.records = {n | a.ReachedFrom roots n}.ncard
  assigned_eq : d.registry.assigned = {n | a.ReachedFrom roots n}.ncard
  dumped_eq : d.registry.dumped = {n | a.ReachedFrom roots n}.ncard

/-- A complete dumper holds what was entered. -/
theorem Complete.holds (h : Complete a s sink₀ order out d) (hs : a.Sound) {roots : List NodeId}
    (hmem : ∀ n, n ∈ order ↔ a.ReachedFrom roots n) : Holds a roots sink₀ d := by
  have hcard := NodeId.ncard_eq_length_of_mem_iff h.ready.entered.nodup hmem
  refine {
    recorded := fun n => ?_
    dumped := fun n => h.ready.entered.isDumped_iff.trans (hmem n)
    known := fun n => ?_
    once := ?_
    id_eq := fun n r hr => ?_
    ids_nodup := ?_
    taken := h.taken
    records_eq := ?_
    assigned_eq := by rw [h.ready.entered.numbers.assigned, hcard]
    dumped_eq := by rw [h.ready.entered.claims.dumped, hcard] }
  · rw [← hmem, ← h.perm.mem_iff, h.offers]
    constructor
    · rintro ⟨r, hr⟩
      exact (Arena.mem_recordsIn.1 hr).1
    · intro hn
      obtain ⟨node, hnode⟩ := h.exists_node n hn
      exact ⟨_, Arena.mem_recordsIn.2 ⟨hn, node, hnode, rfl⟩⟩
  · rw [← hmem, h.ready.get?_eq]
    by_cases hn : n ∈ order
    · simp [hn]
    · simp [hn]
  · rw [h.map_fst_offers]
    exact h.perm.nodup_iff.2 h.ready.entered.nodup
  · rw [h.offers] at hr
    obtain ⟨hn, node, -, rfl⟩ := Arena.mem_recordsIn.1 hr
    rw [h.ready.get?_eq, if_pos (h.perm.mem_iff.1 hn)]
    rfl
  · rw [h.map_id_offers]
    exact hs.nodup_map_idIn h.ready.entered.nodup h.ready.exists_node h.perm
  · rw [h.records, hcard, h.perm.length_eq]

/-- **Main result.** Over an arena that `finish` returned, with any settings and any sink that takes
    records with different ids: after calls that fit, the next call that fits is answered with the
    id of its node, and then the dumper holds exactly what can be reached from the calls so far. -/
theorem exists_call_holds (ha : a.Finished) (sink : σ) (config : Config)
    (hsink : Sink.TakesDistinct (Sink.beginRun config.runId sink)) (calls : List Call) (c : Call)
    (hcalls : ∀ c ∈ calls, c.Fits a) (hc : c.Fits a) :
    ∃ id d', ((new a sink config).afterCalls calls).call c = .ok id d' ∧
      d'.registry.get? c.node = some id ∧
      Holds a ((calls ++ [c]).map (·.node)) (Sink.beginRun config.runId sink) d' := by
  have hs := ha.sound
  obtain ⟨order, out, hbefore, hmem⟩ :=
    exists_complete_afterCalls hs hsink (complete_new hs sink config) calls hcalls
  obtain ⟨ms, d', tour, hcall, hafter⟩ := hbefore.call hs hsink hc
  have hmem' : ∀ n, n ∈ order ++ Move.entered ms ↔
      a.ReachedFrom ((calls ++ [c]).map (·.node)) n := by
    intro n
    rw [tour.mem_iff hbefore.closed, hmem, List.map_append, Arena.reachedFrom_append]
    simp
  have hnode : c.node ∈ order ++ Move.entered ms := tour.subset List.mem_cons_self
  exact ⟨d'.idAt c.node, d', hcall, hafter.ready.get?_eq_idAt hnode, hafter.holds hs hmem'⟩

end Dumper

/-! ## A pointer to another name -/

/-- Calls that describe a record with a field whose type is a pointer to another name for the record. Its
    desugared form is the pointer to the record, which is its own desugared form. The record type has one
    too. -/
def Builder.aliasedPointerCalls : List Builder.Call :=
  [.add (.decl "CXXRecordDecl" [⟨1⟩]),
   .add (.decl "FieldDecl" [⟨2⟩]),
   .add (.qualType ⟨3⟩ { isConst := true }),
   .add (.type "PointerType" (some ⟨4⟩) { pointee := some ⟨5⟩ }),
   .add (.type "PointerType" (some ⟨4⟩) { pointee := some ⟨6⟩ }),
   .add (.qualType ⟨7⟩ {}),
   .add (.qualType ⟨8⟩ {}),
   .add (.type "TypedefType" (some ⟨8⟩) {}),
   .add (.type "RecordType" (some ⟨9⟩) { decl := some ⟨0⟩ }),
   .add (.type "BuiltinType" none {})]

/-- The arena of `Builder.aliasedPointerCalls`. -/
def Arena.aliasedPointer : Arena where
  nodes := #[
    .decl ⟨0⟩ [⟨1⟩],
    .decl ⟨1⟩ [⟨2⟩],
    .qualType ⟨3⟩ { isConst := true },
    .type ⟨⟨2⟩, some ⟨4⟩, .pointer ⟨5⟩⟩,
    .type ⟨⟨2⟩, some ⟨4⟩, .pointer ⟨6⟩⟩,
    .qualType ⟨7⟩ {},
    .qualType ⟨8⟩ {},
    .type ⟨⟨3⟩, some ⟨8⟩, .generic⟩,
    .type ⟨⟨4⟩, some ⟨9⟩, .tag ⟨0⟩⟩,
    .type ⟨⟨5⟩, none, .generic⟩]
  classes := (ClassNames.empty.internAll ["CXXRecordDecl", "FieldDecl", "PointerType", "TypedefType",
    "RecordType", "BuiltinType"]).2

theorem Arena.finished_aliasedPointer : aliasedPointer.Finished :=
  ⟨Builder.aliasedPointerCalls, by decide, by decide +kernel⟩

/-- The wrapper around the field's type is visited as a type, and then the field. The pointer leads to its
    desugared form before its pointee, the desugared form not to itself, and the record type not to its own
    desugared form. -/
theorem Dumper.exists_call_holds_aliasedPointer :
    ∃ id d', ((new Arena.aliasedPointer MemorySink.empty {}).afterCalls [⟨some .type, ⟨2⟩⟩]).call
        ⟨none, ⟨1⟩⟩ = .ok id d' ∧
      d'.registry.get? ⟨1⟩ = some id ∧
      Holds Arena.aliasedPointer [⟨2⟩, ⟨1⟩] MemorySink.empty d' ∧
      d'.offers.map Prod.fst = [⟨1⟩, ⟨0⟩, ⟨8⟩, ⟨6⟩, ⟨4⟩, ⟨7⟩, ⟨5⟩, ⟨3⟩, ⟨2⟩] := by
  obtain ⟨id, d', hcall, hid, hholds⟩ := exists_call_holds Arena.finished_aliasedPointer
    MemorySink.empty {} MemorySink.takesDistinct_empty [⟨some .type, ⟨2⟩⟩] ⟨none, ⟨1⟩⟩
    (by decide) (by decide)
  have hoffers : (((new Arena.aliasedPointer MemorySink.empty {}).afterCalls
      [⟨some .type, ⟨2⟩⟩]).call ⟨none, ⟨1⟩⟩).after.offers.map Prod.fst =
        [⟨1⟩, ⟨0⟩, ⟨8⟩, ⟨6⟩, ⟨4⟩, ⟨7⟩, ⟨5⟩, ⟨3⟩, ⟨2⟩] := by
    decide +kernel
  rw [hcall] at hoffers
  exact ⟨id, d', hcall, hid, hholds, hoffers⟩

end AstDump
