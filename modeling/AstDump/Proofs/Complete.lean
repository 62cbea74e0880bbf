import AstDump.Proofs.Traversal

/-!
# Dumpers whose visits all succeeded

What holds between the visits of a dumper whose sink refused nothing: the nodes entered lead only to
each other, each was left, and the sink took one record for each node, in the order in which the nodes
were left. `Dumper.Complete` says so, and every further tour keeps it.

Results:
* `Dumper.Complete.replay`: the step, for the moves of one tour.
* `Dumper.Complete.call`: a call that fits is answered.
* `Dumper.exists_complete_afterCalls`: the run, for all calls that fit.
* `exists_dumpRoots_complete`: a dump of roots.
* `exists_dumpRoots_memory`: a dump of roots into memory.
-/

namespace AstDump

open Move Edge

/-! ## Lists of records -/

namespace Arena

variable {a : Arena} {s : IdScheme} {order ns : List NodeId}

theorem mem_recordsIn {n : NodeId} {r : Record} :
    (n, r) ∈ a.recordsIn s order ns ↔
      n ∈ ns ∧ ∃ node, a.node? n = some node ∧ r = node.recordIn s order n := by
  unfold recordsIn
  rw [List.mem_filterMap]
  constructor
  · rintro ⟨m, hm, heq⟩
    obtain ⟨node, hnode, heq⟩ := Option.map_eq_some_iff.1 heq
    cases heq
    exact ⟨hm, node, hnode, rfl⟩
  · rintro ⟨hn, node, hnode, rfl⟩
    exact ⟨n, hn, by rw [hnode]; rfl⟩

theorem recordsIn_append (ns' : List NodeId) :
    a.recordsIn s order (ns ++ ns') = a.recordsIn s order ns ++ a.recordsIn s order ns' :=
  List.filterMap_append

/-- Each node of the arena has one record. -/
theorem map_fst_recordsIn (h : ∀ n ∈ ns, ∃ node, a.node? n = some node) :
    (a.recordsIn s order ns).map Prod.fst = ns := by
  induction ns with
  | nil => rfl
  | cons n ns ih =>
    obtain ⟨node, hnode⟩ := h n List.mem_cons_self
    rw [recordsIn_cons hnode, List.map_cons, ih fun m hm => h m (List.mem_cons_of_mem _ hm)]

/-- The ids of the records are those of the nodes. -/
theorem map_id_recordsIn (h : ∀ n ∈ ns, ∃ node, a.node? n = some node) :
    ((a.recordsIn s order ns).map Prod.snd).map (·.id) = ns.map (s.idIn order) := by
  induction ns with
  | nil => rfl
  | cons n ns ih =>
    obtain ⟨node, hnode⟩ := h n List.mem_cons_self
    rw [recordsIn_cons hnode, List.map_cons, List.map_cons, List.map_cons,
      ih fun m hm => h m (List.mem_cons_of_mem _ hm)]
    rfl

/-- Records of nodes that lead only to nodes entered before do not change any more. -/
theorem recordsIn_append_order (h : ∀ n ∈ ns, n ∈ order ∧ a.followed n ⊆ order)
    (more : List NodeId) : a.recordsIn s (order ++ more) ns = a.recordsIn s order ns := by
  unfold recordsIn
  refine List.filterMap_congr fun n hn => ?_
  cases hnode : a.node? n with
  | none => rfl
  | some node =>
    obtain ⟨hmem, hsub⟩ := h n hn
    rw [Option.map_some, Option.map_some, Node.recordIn_append hmem (children_subset hnode hsub)]

/-- There are fewer nodes in a sound arena than words. -/
theorem Sound.length_le (hs : a.Sound) (hnodup : order.Nodup)
    (hnode : ∀ n ∈ order, ∃ node, a.node? n = some node) : order.length ≤ UInt32.size := by
  have hle : order.length ≤ a.size := by
    refine NodeId.length_le_of_nodup hnodup fun n hn => ?_
    obtain ⟨node, hn⟩ := hnode n hn
    exact index_lt_of_node? hn
  have hlt := hs.size_lt
  omega

/-- Different nodes of a sound arena have different ids. -/
theorem Sound.nodup_map_idIn (hs : a.Sound) (hnodup : order.Nodup)
    (hnode : ∀ n ∈ order, ∃ node, a.node? n = some node) (hperm : ns.Perm order) :
    (ns.map (s.idIn order)).Nodup := by
  have hlen := hs.length_le hnodup hnode
  refine (hperm.nodup_iff.2 hnodup).map_on fun m hm n hn heq => ?_
  exact (IdScheme.idIn_inj hlen (hperm.mem_iff.1 hm) (hperm.mem_iff.1 hn)).1 heq

end Arena

namespace Dumper

variable {σ : Type} [Sink σ] {a : Arena} {s : IdScheme} {sink₀ : σ} {order out : List NodeId}
  {d : Dumper σ}

/-- A dumper between visits that all succeeded. The nodes `order` were entered and the nodes `out`
    left, each in that order, and the sink, which was `sink₀` at the beginning, took their records. -/
structure Complete (a : Arena) (s : IdScheme) (sink₀ : σ) (order out : List NodeId)
    (d : Dumper σ) : Prop where
  ready : Ready a s order d
  closed : ∀ n ∈ order, a.followed n ⊆ order
  perm : out.Perm order
  offers : d.offers = a.recordsIn s order out
  taken : Sink.takeAll (d.offers.map Prod.snd) sink₀ = .ok () d.sink
  records : d.records = out.length

/-- A dumper that has visited nothing. -/
theorem complete_new (hs : a.Sound) (sink : σ) (config : Config) :
    Complete a config.idScheme (Sink.beginRun config.runId sink) [] [] (new a sink config) where
  ready := ready_new hs sink config
  closed := by simp
  perm := List.Perm.refl _
  offers := rfl
  taken := rfl
  records := rfl

/-- What was left are nodes of the arena. -/
theorem Complete.exists_node (h : Complete a s sink₀ order out d) :
    ∀ n ∈ out, ∃ node, a.node? n = some node := fun n hn =>
  h.ready.exists_node n (h.perm.mem_iff.1 hn)

/-- Records come in the order in which the nodes were left. -/
theorem Complete.map_fst_offers (h : Complete a s sink₀ order out d) :
    d.offers.map Prod.fst = out := by
  rw [h.offers, Arena.map_fst_recordsIn h.exists_node]

theorem Complete.map_id_offers (h : Complete a s sink₀ order out d) :
    (d.offers.map Prod.snd).map (·.id) = out.map (s.idIn order) := by
  rw [h.offers, Arena.map_id_recordsIn h.exists_node]

/-- The records handed over before and on a tour, by the ids at the end of the tour. -/
theorem Complete.offers_append (h : Complete a s sink₀ order out d) (ms : List Move) :
    d.offers ++ a.offeredBy s order ms =
      a.recordsIn s (order ++ entered ms) (out ++ left ms) := by
  have hold : d.offers = a.recordsIn s (order ++ entered ms) out := by
    rw [h.offers, Arena.recordsIn_append_order fun n hn => ?_]
    have hn' := h.perm.mem_iff.1 hn
    exact ⟨hn', h.closed n hn'⟩
  rw [Arena.recordsIn_append, hold]
  rfl

/-- A tour that was made to its end keeps the dumper complete. -/
theorem Complete.after (h : Complete a s sink₀ order out d) {ns : List NodeId} {ms : List Move}
    (tour : Tour a order ns ms) {d' : Dumper σ} (hafter : After a s order ms d d')
    (htake : Sink.takeAll ((a.offeredBy s order ms).map Prod.snd) d.sink = .ok () d'.sink) :
    Complete a s sink₀ (order ++ entered ms) (out ++ left ms) d' where
  ready := hafter.ready
  closed := tour.closed h.closed
  perm := h.perm.append tour.perm
  offers := by rw [hafter.offers, h.offers_append]
  taken := by rw [hafter.offers, List.map_append, Sink.takeAll_append h.taken, htake]
  records := by rw [hafter.records, h.records, List.length_append]

/-- A tour past a complete dumper is made to its end and keeps the dumper complete. -/
theorem Complete.replay (h : Complete a s sink₀ order out d) (hs : a.Sound)
    (hsink : Sink.TakesDistinct sink₀) {ns : List NodeId} {ms : List Move}
    (tour : Tour a order ns ms) (depth : Nat) :
    ∃ d', Dumper.replay depth ms d = .ok depth d' ∧
      Complete a s sink₀ (order ++ entered ms) (out ++ left ms) d' := by
  have hperm : (out ++ left ms).Perm (order ++ entered ms) := h.perm.append tour.perm
  have hnode : ∀ n ∈ order ++ entered ms, ∃ node, a.node? n = some node := by
    intro n hn
    obtain hn | hn := List.mem_append.1 hn
    · exact h.ready.exists_node n hn
    · exact tour.orderly.exists_node n hn
  -- All records have different ids, so the sink takes them, first the old and then the new.
  have hids : (((d.offers ++ a.offeredBy s order ms).map Prod.snd).map (·.id)).Nodup := by
    rw [h.offers_append, Arena.map_id_recordsIn fun n hn => hnode n (hperm.mem_iff.1 hn)]
    exact hs.nodup_map_idIn (tour.orderly.nodup h.ready.entered.nodup) hnode hperm
  obtain ⟨sink', htake⟩ := hsink _ hids
  rw [List.map_append, Sink.takeAll_append h.taken] at htake
  obtain ⟨d', hreplay, hafter, rfl⟩ := replay_ok h.ready tour.orderly htake depth
  rw [tour.depthAfter] at hreplay
  exact ⟨d', hreplay, h.after tour hafter htake⟩

/-! ## Calls that fit -/

/-- A call that fits is answered. -/
theorem Complete.call (h : Complete a s sink₀ order out d) (hs : a.Sound)
    (hsink : Sink.TakesDistinct sink₀) {c : Call} (hc : c.Fits a) :
    ∃ ms d', Tour a order [c.node] ms ∧ d.call c = .ok (d'.idAt c.node) d' ∧
      Complete a s sink₀ (order ++ entered ms) (out ++ left ms) d' := by
  obtain ⟨ms, tour, heq⟩ := exists_call_eq_replay hs h.ready hc
  obtain ⟨d', hreplay, hcomplete⟩ := h.replay hs hsink tour 0
  refine ⟨ms, d', tour, ?_, hcomplete⟩
  rw [h.ready.call_eq, heq _ (Nat.lt_succ_self _), hreplay]
  rfl

/-- After calls that fit, exactly the nodes that can be reached from theirs have been entered. -/
theorem exists_complete_afterCalls (hs : a.Sound) (hsink : Sink.TakesDistinct sink₀)
    (h : Complete a s sink₀ order out d) (calls : List Call) (hcalls : ∀ c ∈ calls, c.Fits a) :
    ∃ order' out', Complete a s sink₀ order' out' (d.afterCalls calls) ∧
      ∀ n, n ∈ order' ↔ n ∈ order ∨ a.ReachedFrom (calls.map (·.node)) n := by
  induction calls generalizing order out d with
  | nil =>
    refine ⟨order, out, h, fun n => ?_⟩
    simp [Arena.ReachedFrom]
  | cons c calls ih =>
    obtain ⟨ms, d', tour, hcall, h'⟩ := h.call hs hsink (hcalls c List.mem_cons_self)
    obtain ⟨order', out', hcomplete, hmem⟩ :=
      ih h' fun c hc => hcalls c (List.mem_cons_of_mem _ hc)
    refine ⟨order', out', ?_, fun n => ?_⟩
    · rw [afterCalls, List.foldl_cons, hcall]
      exact hcomplete
    · rw [hmem, tour.mem_iff h.closed, or_assoc, ← Arena.reachedFrom_append]
      rfl

/-! ## A dump of roots -/

/-- A report that is not of a record changes nothing else. -/
theorem Complete.push (h : Complete a s sink₀ order out d) (entry : TraceEntry)
    (hentry : ∀ n r, entry.event ≠ .dump n r) :
    Complete a s sink₀ order out { d with log := d.log.push entry } := by
  have hoffers := offers_push_of_ne_dump d hentry
  exact {
    ready := ⟨h.ready.arena, h.ready.scheme, h.ready.size, h.ready.entered⟩
    closed := h.closed
    perm := h.perm
    offers := hoffers.trans h.offers
    taken := by rw [hoffers]; exact h.taken
    records := h.records }

end Dumper

/-- **Main result.** A dump of roots into a sink that refuses nothing makes all moves of the tour of
    the roots, and answers the id of each. -/
theorem exists_dumpRoots_complete {σ : Type} [Sink σ] {a : Arena} (hs : a.Sound) (sink : σ)
    (config : Config) (hsink : Sink.TakesDistinct (Sink.beginRun config.runId sink))
    {roots : List NodeId} (hroots : ∀ n ∈ roots, a.contains n) :
    ∃ ms d, Tour a [] roots ms ∧
      dumpRoots a roots sink config =
        .conclude roots (Dumper.replay 1 ms (Dumper.opened a roots sink config)) ∧
      dumpRoots a roots sink config = ⟨.ok ⟨roots.map d.idAt, d.records⟩, d⟩ ∧
      Dumper.Complete a config.idScheme (Sink.beginRun config.runId sink) (entered ms) (left ms)
        d := by
  have hlt : ∀ n ∈ roots, n.index < a.size := fun n hn => of_decide_eq_true (hroots n hn)
  have hopened : Dumper.Complete a config.idScheme (Sink.beginRun config.runId sink) [] []
      (Dumper.opened a roots sink config) :=
    (Dumper.complete_new hs sink config).push ⟨0, .rootsSpan a.size roots.length⟩
      (by intro n r h; cases h)
  obtain ⟨ms, tour⟩ := hopened.ready.exists_tour hs hlt
  obtain ⟨d, hreplay, hcomplete⟩ := hopened.replay hs hsink tour 1
  have hpush := hcomplete.push ⟨1, .complete d.records d.registry.assigned⟩
    (by intro n r h; cases h)
  have hdump := dumpRoots_eq hs tour hlt sink config
  refine ⟨ms, _, tour, hdump, ?_, hpush⟩
  rw [hdump, hreplay]
  rfl

/-- A dump of roots into memory: each root is answered by its id, and the records are kept in the order
    in which the nodes are left. -/
theorem exists_dumpRoots_memory {a : Arena} (hs : a.Sound) (config : Config) {roots : List NodeId}
    (hroots : ∀ n ∈ roots, a.contains n) :
    ∃ ms, Tour a [] roots ms ∧
      (dumpRoots a roots MemorySink.empty config).result =
        .ok ⟨roots.map (config.idScheme.idIn (entered ms)), (left ms).length⟩ ∧
      (dumpRoots a roots MemorySink.empty config).sink.records.toList =
        (a.recordsIn config.idScheme (entered ms) (left ms)).map Prod.snd := by
  obtain ⟨ms, d, tour, -, hdump, hcomplete⟩ :=
    exists_dumpRoots_complete hs MemorySink.empty config MemorySink.takesDistinct_empty hroots
  refine ⟨ms, tour, ?_, ?_⟩
  · have hids : ∀ n ∈ roots, d.idAt n = config.idScheme.idIn (entered ms) n := fun n hn =>
      hcomplete.ready.idAt (tour.subset hn)
    rw [hdump, hcomplete.records, List.map_congr_left hids]
  · rw [hdump, ← hcomplete.offers]
    exact MemorySink.records_of_takeAll_eq_ok hcomplete.taken

end AstDump
