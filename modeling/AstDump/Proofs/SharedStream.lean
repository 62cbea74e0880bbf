import AstDump.Proofs.Complete
import AstDump.Proofs.TextStream

/-!
# Several dumps in one stream

Dumps of different runs can be written one after the other to the same stream. Each leaves the blocks of
its records, and since a token names the run beside the id, no token of one run is met in another. Within
a run every child has a block of its own, so that every token of a child leads to one block.

Results:
* `Job.nodup_headers`: the blocks of one dump have different headers.
* `Job.childTokens_subset`: the children of a block have blocks in the same dump.
* `Job.exists_dumpRoots_text`: one dump appends its blocks to the stream.
* `exists_dumpAll_text`: many dumps.
-/

namespace AstDump

open Move

/-! ## Dumps to make -/

/-- One dump to make. -/
structure Job where
  arena : Arena
  roots : List NodeId
  config : Config
  deriving DecidableEq, Repr

/-- Makes dumps one after the other into the same sink, up to the first that fails. -/
def dumpAll {σ : Type} [Sink σ] : List Job → σ → EStateM.Result DumpError σ (List Summary)
  | [], s => .ok [] s
  | j :: js, s =>
    match dumpRoots j.arena j.roots s j.config with
    | ⟨.error e, d⟩ => .error e d.sink
    | ⟨.ok summary, d⟩ =>
      match dumpAll js d.sink with
      | .error e s => .error e s
      | .ok summaries s => .ok (summary :: summaries) s

namespace Job

/-- The dump is of roots of an arena that `finish` returned. -/
structure Fits (j : Job) : Prop where
  finished : j.arena.Finished
  contains : ∀ n ∈ j.roots, j.arena.contains n

/-- The records that the dump leaves in memory. -/
def records (j : Job) : List Record :=
  (dumpRoots j.arena j.roots MemorySink.empty j.config).sink.records.toList

/-- The blocks of these records, in the run of the dump. -/
def blocks (j : Job) : List Block := j.records.map (⟨j.config.runId, ·⟩)

variable {j : Job}

/-- The records are those of the nodes of a tour. -/
theorem Fits.exists_records_eq (h : j.Fits) :
    ∃ ms, Tour j.arena [] j.roots ms ∧
      j.records = (j.arena.recordsIn j.config.idScheme (entered ms) (left ms)).map Prod.snd := by
  obtain ⟨ms, tour, -, hrecords⟩ :=
    exists_dumpRoots_memory h.finished.sound j.config h.contains
  exact ⟨ms, tour, hrecords⟩

theorem Fits.nodup_ids (h : j.Fits) : (j.records.map (·.id)).Nodup := by
  obtain ⟨ms, tour, hrecords⟩ := h.exists_records_eq
  have hnode : ∀ n ∈ left ms, ∃ node, j.arena.node? n = some node := fun n hn =>
    tour.orderly.exists_node n (tour.perm.mem_iff.1 hn)
  rw [hrecords, Arena.map_id_recordsIn hnode]
  exact h.finished.sound.nodup_map_idIn tour.nodup_entered tour.orderly.exists_node tour.perm

/-- A child has a record, be it before or after that of its parent. -/
theorem Fits.children_subset (h : j.Fits) {r : Record} (hr : r ∈ j.records) :
    r.children ⊆ j.records.map (·.id) := by
  obtain ⟨ms, tour, hrecords⟩ := h.exists_records_eq
  rw [hrecords] at hr ⊢
  obtain ⟨⟨n, r⟩, hmem, rfl⟩ := List.mem_map.1 hr
  obtain ⟨hn, node, hnode, rfl⟩ := Arena.mem_recordsIn.1 hmem
  have hfollowed := tour.followed_subset n (tour.perm.mem_iff.1 hn)
  intro d hd
  obtain ⟨m, hm, rfl⟩ := List.mem_map.1 hd
  have hm' : m ∈ left ms := tour.perm.mem_iff.2 (Arena.children_subset hnode hfollowed hm)
  obtain ⟨node', hnode'⟩ := tour.orderly.exists_node m (tour.perm.mem_iff.1 hm')
  have hrecord : (m, node'.recordIn j.config.idScheme (entered ms) m) ∈
      j.arena.recordsIn j.config.idScheme (entered ms) (left ms) :=
    Arena.mem_recordsIn.2 ⟨hm', node', hnode', rfl⟩
  exact List.mem_map.2 ⟨_, List.mem_map.2 ⟨_, hrecord, rfl⟩, rfl⟩

/-! ## Blocks of one dump -/

theorem map_header_blocks (j : Job) :
    j.blocks.map Block.header = (j.records.map (·.id)).map (·.token j.config.runId) := by
  simp only [blocks, List.map_map]
  rfl

/-- The blocks of one dump have different headers. -/
theorem nodup_headers (h : j.Fits) : (j.blocks.map Block.header).Nodup := by
  rw [map_header_blocks]
  exact h.nodup_ids.map fun d d' heq => (DumpId.token_inj.1 heq).1

/-- The children of a block have blocks in the same dump. -/
theorem childTokens_subset (h : j.Fits) {b : Block} (hb : b ∈ j.blocks) :
    b.childTokens ⊆ j.blocks.map Block.header := by
  obtain ⟨r, hr, rfl⟩ := List.mem_map.1 hb
  rw [map_header_blocks]
  intro t ht
  obtain ⟨d, hd, rfl⟩ := List.mem_map.1 ht
  exact List.mem_map.2 ⟨d, h.children_subset hr hd, rfl⟩

/-- The headers of dumps of different runs have nothing in common. -/
theorem disjoint_headers {j j' : Job} (h : j.config.runId ≠ j'.config.runId) :
    List.Disjoint (j.blocks.map Block.header) (j'.blocks.map Block.header) := by
  intro t ht ht'
  rw [map_header_blocks] at ht ht'
  obtain ⟨d, -, rfl⟩ := List.mem_map.1 ht
  obtain ⟨d', -, heq⟩ := List.mem_map.1 ht'
  exact h (DumpId.token_inj.1 heq).2.symm

/-- Dumps of different runs leave blocks with different headers. -/
theorem nodup_headers_flatMap {jobs : List Job} (hjobs : ∀ j ∈ jobs, j.Fits)
    (hruns : (jobs.map (·.config.runId)).Nodup) :
    ((jobs.flatMap blocks).map Block.header).Nodup := by
  rw [List.map_flatMap, List.nodup_flatMap]
  refine ⟨fun j hj => nodup_headers (hjobs j hj), ?_⟩
  have hne := List.pairwise_map.1 (List.nodup_iff_pairwise_ne.1 hruns)
  exact hne.imp fun h => disjoint_headers h

/-! ## Writing the blocks -/

variable {ω : Type} [Writer ω] (W : Writer.Reliable ω) {s : TextSink ω}

/-- A dump succeeds and appends its blocks to the stream. -/
theorem exists_dumpRoots_text (h : j.Fits) (hs : W.Good s.out) :
    ∃ summary d, dumpRoots j.arena j.roots s j.config = ⟨.ok summary, d⟩ ∧ W.Good d.sink.out ∧
      W.taken d.sink.out = W.taken s.out ++ Block.encode j.blocks := by
  have hbegin : W.Good (Sink.beginRun j.config.runId s).out := hs
  have htakes : Sink.TakesDistinct (Sink.beginRun j.config.runId s) := by
    intro rs _
    rw [TextSink.takeAll_eq_writeBlocks]
    obtain ⟨s', hwrite, -⟩ := TextSink.exists_writeBlocks_eq_ok W
      (rs.map (⟨(Sink.beginRun j.config.runId s).run, ·⟩)) hbegin
    exact ⟨s', hwrite⟩
  obtain ⟨ms, d, tour, -, hdump, hcomplete⟩ :=
    exists_dumpRoots_complete h.finished.sound s j.config htakes h.contains
  -- The records offered here are those that a dump into memory keeps.
  obtain ⟨ms', tour', hrecords⟩ := h.exists_records_eq
  obtain rfl : ms = ms' := tour.unique tour'
  have hoffers : d.offers.map Prod.snd = j.records := by rw [hcomplete.offers, hrecords]
  have htaken := hcomplete.taken
  rw [hoffers, TextSink.takeAll_eq_writeBlocks] at htaken
  obtain ⟨s', hwrite, hgood, hbytes⟩ := TextSink.exists_writeBlocks_eq_ok W j.blocks hbegin
  obtain rfl : d.sink = s' := by
    have heq := htaken.symm.trans hwrite
    cases heq
    rfl
  exact ⟨_, d, hdump, hgood, hbytes⟩

end Job

section Stream

variable {ω : Type} [Writer ω] (W : Writer.Reliable ω) {s : TextSink ω}

theorem exists_dumpAll_eq_ok {jobs : List Job} (hjobs : ∀ j ∈ jobs, j.Fits) (hs : W.Good s.out) :
    ∃ summaries s', dumpAll jobs s = .ok summaries s' ∧
      W.taken s'.out = W.taken s.out ++ Block.encode (jobs.flatMap Job.blocks) := by
  induction jobs generalizing s with
  | nil => exact ⟨[], s, rfl, (List.append_nil _).symm⟩
  | cons j jobs ih =>
    obtain ⟨summary, d, hdump, hd, htaken⟩ :=
      Job.exists_dumpRoots_text W (hjobs j List.mem_cons_self) hs
    obtain ⟨summaries, s', hrest, htaken'⟩ :=
      ih (fun j' hj' => hjobs j' (List.mem_cons_of_mem _ hj')) hd
    refine ⟨summary :: summaries, s', ?_, ?_⟩
    · simp only [dumpAll, hdump, hrest]
    · rw [htaken', htaken, List.append_assoc, List.flatMap_cons, Block.encode_append]

/-- **Main result.** Dumps of roots of arenas that `finish` returned, in runs with different numbers, all
    succeed into one text sink over a writer that never fails. The stream is the blocks of the dumps in
    order, no two blocks have the same header, and the token of every child in a block is the header of
    just one block, which belongs to the same dump. -/
theorem exists_dumpAll_text {jobs : List Job} (hjobs : ∀ j ∈ jobs, j.Fits)
    (hruns : (jobs.map (·.config.runId)).Nodup) (hs : W.Good s.out) :
    ∃ summaries s', dumpAll jobs s = .ok summaries s' ∧
      W.taken s'.out = W.taken s.out ++ Block.encode (jobs.flatMap Job.blocks) ∧
      ((jobs.flatMap Job.blocks).map Block.header).Nodup ∧
      ∀ j ∈ jobs, ∀ b ∈ j.blocks, ∀ t ∈ b.childTokens,
        ((jobs.flatMap Job.blocks).map Block.header).count t = 1 ∧
          ∃ b' ∈ j.blocks, b'.header = t := by
  obtain ⟨summaries, s', hdump, htaken⟩ := exists_dumpAll_eq_ok W hjobs hs
  have hnodup := Job.nodup_headers_flatMap hjobs hruns
  refine ⟨summaries, s', hdump, htaken, hnodup, ?_⟩
  intro j hj b hb t ht
  obtain ⟨b', hb', rfl⟩ := List.mem_map.1 (Job.childTokens_subset (hjobs j hj) hb ht)
  have hmem : b' ∈ jobs.flatMap Job.blocks := List.mem_flatMap.2 ⟨j, hj, hb'⟩
  exact ⟨List.count_eq_one_of_mem hnodup (List.mem_map_of_mem hmem), b', hb', rfl⟩

/-- The linked record twice in one stream, in runs 9 and 10 and by the two schemes. The field, which has the
    id 1 in both, is a child of the record in both, and each token heads one block. -/
theorem exists_dumpAll_text_linkedRecord :
    let j : Job := ⟨Arena.linkedRecord, [⟨0⟩], { runId := 9 }⟩
    let j' : Job := ⟨Arena.linkedRecord, [⟨6⟩, ⟨2⟩], { runId := 10, idScheme := .nodeIndex }⟩
    let headers := ([j, j'].flatMap Job.blocks).map Block.header
    (∃ summaries s', dumpAll [j, j'] ({ out := {} } : TextSink ByteBuffer) = .ok summaries s' ∧
      s'.out.bytes.toList = Block.encode ([j, j'].flatMap Job.blocks)) ∧
    headers.map String.ofList = ["0x5_9", "0x4_9", "0x3_9", "0x2_9", "0x1_9", "0x8_9", "0x7_9",
      "0x6_9", "0x0_9", "0x1_10", "0x0_10", "0x5_10", "0x4_10", "0x3_10", "0x2_10", "0x8_10",
      "0x7_10", "0x6_10"] ∧
    headers.count "0x1_9".toList = 1 ∧ headers.count "0x1_10".toList = 1 := by
  intro j j' headers
  have hjobs : ∀ i ∈ [j, j'], i.Fits := by
    intro i hi
    rw [List.mem_cons, List.mem_singleton] at hi
    obtain rfl | rfl := hi
    · exact ⟨Arena.finished_linkedRecord, by decide⟩
    · exact ⟨Arena.finished_linkedRecord, by decide⟩
  obtain ⟨summaries, s', hdump, htaken, -, hchildren⟩ := exists_dumpAll_text ByteBuffer.unlimited
    (s := { out := {} }) hjobs (by decide) rfl
  have hrecord : (⟨9, ⟨⟨0⟩, .decl, [⟨1⟩, ⟨6⟩]⟩⟩ : Block) ∈ j.blocks := by decide +kernel
  have hrecord' : (⟨10, ⟨⟨0⟩, .decl, [⟨1⟩, ⟨6⟩]⟩⟩ : Block) ∈ j'.blocks := by decide +kernel
  have hfirst := hchildren j (by simp) _ hrecord "0x1_9".toList (by decide +kernel)
  have hsecond := hchildren j' (by simp) _ hrecord' "0x1_10".toList (by decide +kernel)
  exact ⟨⟨summaries, s', hdump, htaken.trans (List.nil_append _)⟩, by decide +kernel, hfirst.1, hsecond.1⟩

end Stream

end AstDump
