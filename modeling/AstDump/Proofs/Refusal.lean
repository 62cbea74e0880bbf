import AstDump.Proofs.Complete
import AstDump.Sink.Quota

/-!
# A refused record ends the run

What a sink is offered does not depend on the sink, but for where it ends. The whole list is what a
sink that takes everything gets, its `transcript`: the first record that a sink refuses ends the run
with the sink's error, and a root outside the arena ends it where the transcript ends.

Results:
* `Dumper.replay_of_refused`: moves up to the first record that is refused.
* `dumpRoots_offers_of_refused`, `dumpRoots_offers_of_taken`: the two ways in which a dump of roots
  ends.
* `offered_prefix_transcript`: both together, for every sink.
-/

namespace AstDump

open Move

/-! ## A sink that takes everything -/

/-- A sink that takes every record, in order. -/
structure Transcript where
  records : List Record := []
  deriving DecidableEq, Repr

instance : Sink Transcript where
  beginRun _ t := t
  record r t := .ok () ⟨t.records ++ [r]⟩

theorem Transcript.takeAll_eq (rs : List Record) (t : Transcript) :
    Sink.takeAll rs t = .ok () ⟨t.records ++ rs⟩ := by
  induction rs generalizing t with
  | nil => simp [Sink.takeAll]
  | cons r rs ih =>
    rw [Sink.takeAll]
    show Sink.takeAll rs (⟨t.records ++ [r]⟩ : Transcript) = _
    rw [ih, List.append_assoc]
    rfl

/-- What a sink that takes everything gets from the roots before the first outside the arena. -/
def Arena.transcript (a : Arena) (roots : List NodeId) (config : Config) : List Record :=
  (dumpRoots a (roots.takeWhile a.contains) ({} : Transcript) config).sink.records

/-- The records that a run offered to its sink, in order. -/
def Run.offered {σ : Type} (run : Run σ) : List Record := run.dumper.offers.map Prod.snd

/-! ## Moves up to a refusal -/

variable {a : Arena} {s : IdScheme} {order : List NodeId} {ms : List Move}

/-- A node that was left was entered, and so was all that it leads to. -/
theorem Orderly.mem_of_mem_left (h : Orderly a order ms) :
    ∀ n ∈ left ms, n ∈ order ++ entered ms ∧ a.followed n ⊆ order ++ entered ms := by
  induction ms generalizing order with
  | nil => simp
  | cons m ms ih =>
    cases m with
    | enter m =>
      intro n hn
      have := ih h.2 n hn
      rwa [List.append_assoc] at this
    | leave m =>
      intro n hn
      obtain rfl | hn := List.mem_cons.1 hn
      · exact ⟨List.mem_append_left _ h.1.1, fun x hx => List.mem_append_left _ (h.1.2 hx)⟩
      · exact ih h.2 n hn

/-- What is left later does not change the records of what was left before. -/
theorem Arena.offeredBy_append (h : Orderly a order ms) (s : IdScheme) (ms' : List Move) :
    a.offeredBy s order (ms ++ ms') =
      a.offeredBy s order ms ++ a.offeredBy s (order ++ entered ms) ms' := by
  unfold offeredBy
  rw [entered_append, left_append, recordsIn_append, ← List.append_assoc,
    recordsIn_append_order h.mem_of_mem_left]

namespace Dumper

variable {σ : Type} [Sink σ] {d : Dumper σ}

omit [Sink σ] in
/-- Each node left has one record. -/
theorem Ready.map_fst_offeredBy (h : Ready a s order d) (hms : Orderly a order ms) :
    (a.offeredBy s order ms).map Prod.fst = left ms := by
  refine Arena.map_fst_recordsIn fun n hn => ?_
  obtain hn | hn := List.mem_append.1 (hms.mem_of_mem_left n hn).1
  · exact h.exists_node n hn
  · exact hms.exists_node n hn

/-- If the sink takes the records of some of the nodes left and refuses that of the next, the replay
    stops there. -/
theorem replay_of_refused (h : Ready a s order d) (hms : Orderly a order ms)
    {taken rest : List (NodeId × Record)} {n : NodeId} {r : Record} {sink sink' : σ}
    {e : SinkError} (hlist : a.offeredBy s order ms = taken ++ (n, r) :: rest)
    (htake : Sink.takeAll (taken.map Prod.snd) d.sink = .ok () sink)
    (hrefuse : Sink.record r sink = .error e sink') (depth : Nat) :
    ∃ d', replay depth ms d = .error (.sink e) d' ∧ d'.records = d.records + taken.length ∧
      d'.offers = d.offers ++ (taken ++ [(n, r)]) ∧ d'.sink = sink' := by
  have hwhole : Sink.takeAll ((a.offeredBy s order ms).map Prod.snd) d.sink = .error e sink' := by
    rw [hlist, List.map_append, Sink.takeAll_append htake, List.map_cons, Sink.takeAll, hrefuse]
  obtain ⟨before, m, after, node, d₁, depth₁, rfl, hnode, hafter, htake₁, hrefuse₁, hreplay⟩ :=
    replay_error h hms hwhole depth
  obtain ⟨hbefore, ⟨hm, hfollowed⟩, -⟩ := orderly_append.1 hms
  rw [Arena.offeredBy_append hbefore,
    Arena.offeredBy_leave hnode hm (Arena.children_subset hnode hfollowed)] at hlist
  -- The replay and the hypotheses tell of the same refusal.
  have hrecords := congrArg (List.map Prod.snd) hlist
  rw [List.map_append, List.map_append, List.map_cons, List.map_cons] at hrecords
  have hlength := congrArg List.length (Sink.taken_unique hrecords htake₁ hrefuse₁ htake hrefuse)
  rw [List.length_map, List.length_map] at hlength
  obtain ⟨rfl, hnext⟩ := List.append_inj hlist hlength
  obtain ⟨hpair, -⟩ := List.cons.inj hnext
  refine ⟨_, hreplay, ?_, ?_, rfl⟩
  · have hleft := congrArg List.length (h.map_fst_offeredBy hbefore)
    rw [List.length_map] at hleft
    show d₁.records + 0 = d.records + _
    rw [hafter.records, hleft]
    rfl
  · rw [offers_handOver, hafter.offers, hpair, List.append_assoc]

end Dumper

/-! ## A dump of roots -/

section Dump

/-- The transcript is the list of records of the nodes left by a tour. -/
theorem Arena.exists_transcript_eq (hs : a.Sound) (roots : List NodeId) (config : Config) :
    ∃ ms, Tour a [] (roots.takeWhile a.contains) ms ∧
      a.transcript roots config = (a.offeredBy config.idScheme [] ms).map Prod.snd := by
  have hlt : ∀ n ∈ roots.takeWhile a.contains, n.index < a.size := fun n hn =>
    Arena.index_lt_of_mem_takeWhile hn
  have hready := Dumper.ready_opened hs (roots.takeWhile a.contains) ({} : Transcript) config
  obtain ⟨ms, tour⟩ := hready.exists_tour hs hlt
  obtain ⟨d, hreplay, -, hsink⟩ := Dumper.replay_ok hready tour.orderly
    (Transcript.takeAll_eq _ _) 1
  refine ⟨ms, tour, ?_⟩
  rw [transcript, dumpRoots_eq hs tour hlt, hreplay]
  show d.sink.records = _
  rw [hsink]
  rfl

variable {σ : Type} [Sink σ] {roots : List NodeId} {sink sink' sink₁ : σ} {config : Config}

/-- A record that is refused ends a dump of roots at once. -/
theorem dumpRoots_offers_of_refused (hs : a.Sound)
    (tour : Tour a [] (roots.takeWhile a.contains) ms) {taken rest : List (NodeId × Record)}
    {n : NodeId} {r : Record} {e : SinkError}
    (hlist : a.offeredBy config.idScheme [] ms = taken ++ (n, r) :: rest)
    (htake : Sink.takeAll (taken.map Prod.snd) (Sink.beginRun config.runId sink) = .ok () sink₁)
    (hrefuse : Sink.record r sink₁ = .error e sink') :
    (dumpRoots a roots sink config).result = .error (.sink e) ∧
      (dumpRoots a roots sink config).dumper.offers = taken ++ [(n, r)] ∧
      (dumpRoots a roots sink config).dumper.records = taken.length ∧
      (dumpRoots a roots sink config).sink = sink' := by
  have hready := Dumper.ready_opened hs roots sink config
  obtain ⟨d, hreplay, hrecords, hoffers, hsink⟩ :=
    Dumper.replay_of_refused hready tour.orderly hlist htake hrefuse 1
  rw [dumpRoots_eq_stopOutside hs tour, hreplay]
  refine ⟨rfl, hoffers, ?_, hsink⟩
  exact hrecords.trans (Nat.zero_add _)

/-- The same, told by the records alone. -/
theorem dumpRoots_of_refused (hs : a.Sound) (tour : Tour a [] (roots.takeWhile a.contains) ms)
    {taken rest : List Record} {r : Record} {e : SinkError}
    (hlist : (a.offeredBy config.idScheme [] ms).map Prod.snd = taken ++ r :: rest)
    (htake : Sink.takeAll taken (Sink.beginRun config.runId sink) = .ok () sink₁)
    (hrefuse : Sink.record r sink₁ = .error e sink') :
    (dumpRoots a roots sink config).result = .error (.sink e) ∧
      (dumpRoots a roots sink config).offered = taken ++ [r] ∧
      (dumpRoots a roots sink config).dumper.records = taken.length ∧
      (dumpRoots a roots sink config).sink = sink' := by
  obtain ⟨before, next, hsplit, rfl, hnext⟩ := List.map_eq_append_iff.1 hlist
  obtain ⟨⟨n, r⟩, after, rfl, rfl, -⟩ := List.map_eq_cons_iff.1 hnext
  obtain ⟨hresult, hoffers, hrecords, hsink⟩ :=
    dumpRoots_offers_of_refused hs tour hsplit htake hrefuse
  refine ⟨hresult, ?_, ?_, hsink⟩
  · rw [Run.offered, hoffers, List.map_append]
    rfl
  · rw [hrecords, List.length_map]

/-- If no record is refused, a dump of roots ends at the first root outside the arena, or with all
    roots dumped and answered by their ids. -/
theorem dumpRoots_offers_of_taken (hs : a.Sound)
    (tour : Tour a [] (roots.takeWhile a.contains) ms)
    (htake : Sink.takeAll ((a.offeredBy config.idScheme [] ms).map Prod.snd)
      (Sink.beginRun config.runId sink) = .ok () sink') :
    (dumpRoots a roots sink config).dumper.offers = a.offeredBy config.idScheme [] ms ∧
      (dumpRoots a roots sink config).dumper.records = (left ms).length ∧
      (dumpRoots a roots sink config).sink = sink' ∧
      (dumpRoots a roots sink config).result =
        match roots.find? (!a.contains ·) with
        | none => .ok ⟨roots.map (config.idScheme.idIn (entered ms)), (left ms).length⟩
        | some n => .error (.rootOutOfRange n a.size) := by
  have hready := Dumper.ready_opened hs roots sink config
  obtain ⟨d, hreplay, hafter, hsink⟩ := Dumper.replay_ok hready tour.orderly htake 1
  have hoffers : d.offers = a.offeredBy config.idScheme [] ms := by
    rw [hafter.offers]
    rfl
  have hrecords : d.records = (left ms).length := by
    rw [hafter.records]
    exact Nat.zero_add _
  rw [dumpRoots_eq_stopOutside hs tour, hreplay]
  cases hfind : roots.find? (!a.contains ·) with
  | some n =>
    simp only [Run.stopOutside, hfind, Run.sink]
    exact ⟨hoffers, hrecords, hsink, trivial⟩
  | none =>
    rw [Arena.takeWhile_contains_eq_self hfind] at tour
    have hids : ∀ n ∈ roots, d.idAt n = config.idScheme.idIn (entered ms) n := fun n hn =>
      hafter.ready.idAt (tour.subset hn)
    simp only [Run.stopOutside, hfind, Run.conclude, Run.sink]
    refine ⟨?_, hrecords, hsink, ?_⟩
    · rw [← hoffers]
      exact Dumper.offers_push_of_ne_dump d (by intro n r h; cases h)
    · rw [List.map_congr_left hids, hrecords]

/-- The same, told by the records alone. -/
theorem dumpRoots_of_taken (hs : a.Sound) (tour : Tour a [] (roots.takeWhile a.contains) ms)
    (htake : Sink.takeAll ((a.offeredBy config.idScheme [] ms).map Prod.snd)
      (Sink.beginRun config.runId sink) = .ok () sink') :
    (dumpRoots a roots sink config).offered =
        (a.offeredBy config.idScheme [] ms).map Prod.snd ∧
      (dumpRoots a roots sink config).dumper.records =
        ((a.offeredBy config.idScheme [] ms).map Prod.snd).length ∧
      (dumpRoots a roots sink config).sink = sink' ∧
      match roots.find? (!a.contains ·) with
      | none => ∃ summary, (dumpRoots a roots sink config).result = .ok summary
      | some n => (dumpRoots a roots sink config).result = .error (.rootOutOfRange n a.size) := by
  obtain ⟨hoffers, hrecords, hsink, hresult⟩ := dumpRoots_offers_of_taken hs tour htake
  refine ⟨congrArg (List.map Prod.snd) hoffers, ?_, hsink, ?_⟩
  · rw [hrecords, List.length_map,
      ← (Dumper.ready_opened hs roots sink config).map_fst_offeredBy tour.orderly, List.length_map]
  · rw [hresult]
    cases roots.find? (!a.contains ·) with
    | some n => rfl
    | none => exact ⟨_, rfl⟩

/-- What a dump of roots offers is the beginning of what its tour gives, with the nodes. -/
theorem dumpRoots_offers_prefix_offeredBy (hs : a.Sound)
    (tour : Tour a [] (roots.takeWhile a.contains) ms) (sink : σ) (config : Config) :
    (dumpRoots a roots sink config).dumper.offers <+: a.offeredBy config.idScheme [] ms := by
  cases htake : Sink.takeAll ((a.offeredBy config.idScheme [] ms).map Prod.snd)
      (Sink.beginRun config.runId sink) with
  | ok u sink' =>
    obtain ⟨hoffers, -⟩ := dumpRoots_offers_of_taken hs tour htake
    exact hoffers ▸ List.prefix_rfl
  | error e sink' =>
    obtain ⟨taken, r, rest, sink₁, hsplit, htaken, hrefuse⟩ := Sink.exists_of_takeAll_eq_error htake
    obtain ⟨before, next, hlist, rfl, hnext⟩ := List.map_eq_append_iff.1 hsplit
    obtain ⟨⟨n, r⟩, after, rfl, rfl, -⟩ := List.map_eq_cons_iff.1 hnext
    rw [(dumpRoots_offers_of_refused hs tour hlist htaken hrefuse).2.1, hlist]
    exact ⟨after, by simp⟩

/-- **Main result.** For roots in or outside an arena that `finish` returned, any settings and any sink:
    the records that a dump offers are the beginning of the transcript. If the sink takes the first
    records of the transcript and refuses the next, the dump ends with the sink's error, and the sink
    stays as the refusal left it. If the sink takes the whole transcript, that is all it is offered, and
    the dump succeeds or ends with the first root outside the arena. -/
theorem offered_prefix_transcript (ha : a.Finished) (roots : List NodeId) (sink : σ)
    (config : Config) :
    (dumpRoots a roots sink config).offered <+: a.transcript roots config ∧
      (∀ taken r rest sink₁ e sink', a.transcript roots config = taken ++ r :: rest →
        Sink.takeAll taken (Sink.beginRun config.runId sink) = .ok () sink₁ →
        Sink.record r sink₁ = .error e sink' →
        (dumpRoots a roots sink config).result = .error (.sink e) ∧
          (dumpRoots a roots sink config).offered = taken ++ [r] ∧
          (dumpRoots a roots sink config).dumper.records = taken.length ∧
          (dumpRoots a roots sink config).sink = sink') ∧
      ∀ sink', Sink.takeAll (a.transcript roots config) (Sink.beginRun config.runId sink) =
          .ok () sink' →
        (dumpRoots a roots sink config).offered = a.transcript roots config ∧
          (dumpRoots a roots sink config).dumper.records = (a.transcript roots config).length ∧
          (dumpRoots a roots sink config).sink = sink' ∧
          match roots.find? (!a.contains ·) with
          | none => ∃ summary, (dumpRoots a roots sink config).result = .ok summary
          | some n =>
            (dumpRoots a roots sink config).result = .error (.rootOutOfRange n a.size) := by
  have hs := ha.sound
  obtain ⟨ms, tour, hlist⟩ := Arena.exists_transcript_eq hs roots config
  rw [hlist]
  refine ⟨?_, ?_, ?_⟩
  · cases htake : Sink.takeAll ((a.offeredBy config.idScheme [] ms).map Prod.snd)
        (Sink.beginRun config.runId sink) with
    | ok u sink' =>
      have hoffered := (dumpRoots_of_taken hs tour htake).1
      exact hoffered ▸ List.prefix_refl _
    | error e sink' =>
      obtain ⟨taken, r, rest, sink₁, hsplit, htake, hrefuse⟩ :=
        Sink.exists_of_takeAll_eq_error htake
      rw [(dumpRoots_of_refused hs tour hsplit htake hrefuse).2.1, hsplit]
      exact ⟨rest, by simp⟩
  · intro taken r rest sink₁ e sink' hsplit htake hrefuse
    exact dumpRoots_of_refused hs tour hsplit htake hrefuse
  · intro sink' htake
    exact dumpRoots_of_taken hs tour htake

/-- The third record of the linked record is refused, or else the second root ends the dump. -/
theorem offered_prefix_transcript_linkedRecord :
    (dumpRoots Arena.linkedRecord [⟨0⟩, ⟨9⟩, ⟨1⟩] ({ left := 2 } : QuotaSink) {}).result =
        .error (.sink (.io QuotaSink.closed)) ∧
      (dumpRoots Arena.linkedRecord [⟨0⟩, ⟨9⟩, ⟨1⟩] ({ left := 2 } : QuotaSink) {}).dumper.records =
        2 ∧
      (dumpRoots Arena.linkedRecord [⟨0⟩, ⟨9⟩, ⟨1⟩] ({ left := 9 } : QuotaSink) {}).result =
        .error (.rootOutOfRange ⟨9⟩ 9) := by
  obtain ⟨-, hrefused, -⟩ := offered_prefix_transcript Arena.finished_linkedRecord
    [⟨0⟩, ⟨9⟩, ⟨1⟩] ({ left := 2 } : QuotaSink) {}
  obtain ⟨-, -, htaken⟩ := offered_prefix_transcript Arena.finished_linkedRecord
    [⟨0⟩, ⟨9⟩, ⟨1⟩] ({ left := 9 } : QuotaSink) {}
  obtain ⟨hresult, -, hrecords, -⟩ := hrefused [_, _] _ _ _ _ _ rfl rfl rfl
  obtain ⟨-, -, -, houtside⟩ := htaken _ rfl
  exact ⟨hresult, hrecords, houtside⟩

end Dump

end AstDump
