import AstDump.Proofs.Refusal
import AstDump.Proofs.Relocation
import Mathlib.Logic.Equiv.Fintype

/-!
# Dumps that differ only in their ids

A walk does not look at ids. Two dumps that enter the same nodes, by different schemes or in different
orders, therefore give each node the same record up to a renaming of ids that is the same for all
records.

Results:
* `IdScheme.exists_perm_idIn`: two numberings of the same nodes differ by a permutation of ids.
* `Arena.recordsIn_rename`: the records of nodes by two numberings differ by that permutation.
* `dumpRoots_rename`: so do two dumps of the same roots into sinks that only count.
* `dumpRoots_sequential_nodeIndex`: the two schemes.
* `dumpRoots_perm_of_reachedFrom_iff`: roots from which the same nodes can be reached.
-/

namespace AstDump

open Move

/-! ## Sinks that only count -/

namespace Sink

variable {σ τ : Type} [Sink σ] [Sink τ]

/-- The error with which a sink refuses a record, if it does. -/
def refusal? : EStateM.Result SinkError σ Unit → Option SinkError
  | .ok _ _ => none
  | .error e _ => some e

/-- What the sink answers to a record depends only on how many it took before: after `k` records it
    answers `answer k`. -/
def AnswersByCount (answer : Nat → Option SinkError) (s : σ) : Prop :=
  ∀ (taken : List Record) (s' : σ) (r : Record), takeAll taken s = .ok () s' →
    refusal? (record r s') = answer taken.length

variable {answer : Nat → Option SinkError} {s s' : σ} {t t' : τ}

theorem AnswersByCount.tail (h : AnswersByCount answer s) {r : Record}
    (hrecord : record r s = .ok () s') : AnswersByCount (fun k => answer (k + 1)) s' := by
  intro taken s'' q htake
  refine h (r :: taken) s'' q ?_
  rw [takeAll, hrecord]
  exact htake

/-- What one sink takes, another that answers alike takes too, whatever the records are. -/
theorem AnswersByCount.exists_takeAll (hs : AnswersByCount answer s) (ht : AnswersByCount answer t)
    {rs qs : List Record} (hlen : rs.length = qs.length) (htake : takeAll rs s = .ok () s') :
    ∃ t', takeAll qs t = .ok () t' := by
  induction rs generalizing answer s t qs with
  | nil =>
    obtain rfl := List.length_eq_zero_iff.1 hlen.symm
    exact ⟨t, rfl⟩
  | cons r rs ih =>
    obtain ⟨q, qs, rfl⟩ := List.exists_cons_of_length_eq_add_one hlen.symm
    have hfirst := hs [] s r rfl
    have hfirst' := ht [] t q rfl
    cases hr : record r s with
    | error e s₁ =>
      rw [takeAll, hr] at htake
      cases htake
    | ok u s₁ =>
      rw [takeAll, hr] at htake
      cases hq : record q t with
      | error e t₁ =>
        rw [hr] at hfirst
        rw [hq, ← hfirst] at hfirst'
        cases hfirst'
      | ok u t₁ =>
        rw [takeAll, hq]
        exact ih (hs.tail hr) (ht.tail hq) (Nat.succ.inj hlen) htake

/-- A record that one sink refuses after so many, another that answers alike refuses too. -/
theorem AnswersByCount.exists_refused (hs : AnswersByCount answer s) (ht : AnswersByCount answer t)
    {rs qs : List Record} (hlen : rs.length = qs.length) (htake : takeAll rs s = .ok () s')
    {r q : Record} {e : SinkError} {s₁ : σ} (hrefuse : record r s' = .error e s₁) :
    ∃ t' t₁, takeAll qs t = .ok () t' ∧ record q t' = .error e t₁ := by
  obtain ⟨t', htake'⟩ := hs.exists_takeAll ht hlen htake
  have hanswer := hs rs s' r htake
  have hanswer' := ht qs t' q htake'
  rw [hrefuse, hlen] at hanswer
  rw [← hanswer] at hanswer'
  cases hq : record q t' with
  | ok u t₁ =>
    rw [hq] at hanswer'
    cases hanswer'
  | error e' t₁ =>
    rw [hq] at hanswer'
    cases hanswer'
    exact ⟨t', t₁, htake', hq⟩

end Sink

namespace QuotaSink

theorem left_of_takeAll_eq_ok {rs : List Record} {s s' : QuotaSink}
    (h : Sink.takeAll rs s = .ok () s') : s'.left + rs.length = s.left := by
  induction rs generalizing s with
  | nil =>
    cases h
    rfl
  | cons r rs ih =>
    obtain ⟨left, accepted, runs⟩ := s
    cases left with
    | zero => cases h
    | succ left =>
      have hleft : s'.left + rs.length = left := ih h
      show s'.left + (rs.length + 1) = left + 1
      omega

/-- A quota is a matter of counting. -/
theorem answersByCount (s : QuotaSink) :
    Sink.AnswersByCount (fun k => if k < s.left then none else some (.io closed)) s := by
  intro taken s' r htake
  have hleft := left_of_takeAll_eq_ok htake
  obtain ⟨left, accepted, runs⟩ := s'
  cases left with
  | zero =>
    have hfull : ¬ taken.length < s.left := by simp only at hleft; omega
    exact (if_neg hfull).symm
  | succ left =>
    have hroom : taken.length < s.left := by simp only at hleft; omega
    exact (if_pos hroom).symm

end QuotaSink

/-! ## Two numberings of the same nodes -/

variable {a : Arena} {s s' : IdScheme} {order order' ns : List NodeId} {n : NodeId} {node : Node}
  {ms : List Move} {f : DumpId → DumpId}

/-- Two numberings of the same nodes differ by a permutation of ids. -/
theorem IdScheme.exists_perm_idIn (hlen : order.length ≤ UInt32.size)
    (hlen' : order'.length ≤ UInt32.size) (hsub : order ⊆ order') (s s' : IdScheme) :
    ∃ e : Equiv.Perm DumpId, ∀ n ∈ order, e (s.idIn order n) = s'.idIn order' n := by
  obtain ⟨e, he⟩ := Equiv.Perm.exists_extending_pair
    (fun n : {n // n ∈ order} => s.idIn order n) (fun n => s'.idIn order' n)
    (fun m n heq => Subtype.ext ((idIn_inj hlen m.2 n.2).1 heq))
    (fun m n heq => Subtype.ext ((idIn_inj hlen' (hsub m.2) (hsub n.2)).1 heq))
  exact ⟨e, fun n hn => he ⟨n, hn⟩⟩

/-- A tour enters no more nodes than there are words. -/
theorem Tour.length_entered_le (tour : Tour a [] ns ms) (hs : a.Sound) :
    (entered ms).length ≤ UInt32.size :=
  hs.length_le tour.nodup_entered tour.orderly.exists_node

theorem Node.recordIn_rename (hf : ∀ m ∈ order, f (s.idIn order m) = s'.idIn order' m)
    (hn : n ∈ order) (hchildren : node.children n ⊆ order) :
    (node.recordIn s order n).mapIds f = node.recordIn s' order' n := by
  have hids : ∀ m ∈ node.children n, f (s.idIn order m) = s'.idIn order' m := fun m hm =>
    hf m (hchildren hm)
  simp only [recordIn, Record.mapIds, hf n hn, List.map_map, Record.mk.injEq, true_and]
  exact List.map_congr_left hids

/-- The records of nodes by two numberings differ as the ids of the nodes do. -/
theorem Arena.recordsIn_rename (hf : ∀ m ∈ order, f (s.idIn order m) = s'.idIn order' m)
    (hns : ∀ n ∈ ns, n ∈ order ∧ a.followed n ⊆ order) :
    (a.recordsIn s order ns).map (Prod.map id (Record.mapIds f)) = a.recordsIn s' order' ns := by
  unfold recordsIn
  rw [List.map_filterMap]
  refine List.filterMap_congr fun n hn => ?_
  obtain ⟨hmem, hfollowed⟩ := hns n hn
  cases hnode : a.node? n with
  | none => rfl
  | some node =>
    have hrecord := Node.recordIn_rename hf hmem (children_subset hnode hfollowed)
    simp only [Option.map_some, Prod.map, hrecord, id]

/-- The same for the records of the nodes left by a walk. -/
theorem Arena.offeredBy_rename (hms : Orderly a [] ms)
    (hf : ∀ n ∈ entered ms, f (s.idIn (entered ms) n) = s'.idIn (entered ms) n) :
    (a.offeredBy s [] ms).map (Prod.map id (Record.mapIds f)) = a.offeredBy s' [] ms :=
  recordsIn_rename hf hms.mem_of_mem_left

theorem Arena.map_snd_recordsIn_rename (hf : ∀ m ∈ order, f (s.idIn order m) = s'.idIn order' m)
    (hns : ∀ n ∈ ns, n ∈ order ∧ a.followed n ⊆ order) :
    ((a.recordsIn s order ns).map Prod.snd).map (Record.mapIds f) =
      (a.recordsIn s' order' ns).map Prod.snd := by
  rw [← recordsIn_rename hf hns, List.map_map, List.map_map]
  rfl

/-! ## Schemes -/

section Schemes

variable {σ τ : Type} [Sink σ] [Sink τ] {roots : List NodeId} {sink : σ} {sink' : τ}
  {config config' : Config} {answer : Nat → Option SinkError}

/-- Two dumps of the same roots by two numberings, into sinks that only count and answer alike: one
    succeeds if the other does, both fail alike, and the records differ as the ids do. -/
theorem dumpRoots_rename (hs : a.Sound) (tour : Tour a [] (roots.takeWhile a.contains) ms)
    (hf : ∀ n ∈ entered ms,
      f (config.idScheme.idIn (entered ms) n) = config'.idScheme.idIn (entered ms) n)
    (hsink : Sink.AnswersByCount answer (Sink.beginRun config.runId sink))
    (hsink' : Sink.AnswersByCount answer (Sink.beginRun config'.runId sink')) :
    (dumpRoots a roots sink' config').result =
        (dumpRoots a roots sink config).result.map (Summary.mapIds f) ∧
      (dumpRoots a roots sink' config').dumper.offers =
        (dumpRoots a roots sink config).dumper.offers.map (Prod.map id (Record.mapIds f)) := by
  have hoffered := Arena.offeredBy_rename tour.orderly hf
  cases htake : Sink.takeAll ((a.offeredBy config.idScheme [] ms).map Prod.snd)
      (Sink.beginRun config.runId sink) with
  | ok u sink₁ =>
    have hlen : ((a.offeredBy config.idScheme [] ms).map Prod.snd).length =
        ((a.offeredBy config'.idScheme [] ms).map Prod.snd).length := by
      rw [← hoffered]
      simp only [List.length_map]
    obtain ⟨sink₁', htake'⟩ := hsink.exists_takeAll hsink' hlen htake
    obtain ⟨hoffers, -, -, hresult⟩ := dumpRoots_offers_of_taken hs tour htake
    obtain ⟨hoffers', -, -, hresult'⟩ := dumpRoots_offers_of_taken hs tour htake'
    refine ⟨?_, by rw [hoffers, hoffers', hoffered]⟩
    rw [hresult, hresult']
    cases hfind : roots.find? (!a.contains ·) with
    | some n => rfl
    | none =>
      rw [Arena.takeWhile_contains_eq_self hfind] at tour
      have hids : ∀ n ∈ roots, config'.idScheme.idIn (entered ms) n =
          f (config.idScheme.idIn (entered ms) n) := fun n hn => (hf n (tour.subset hn)).symm
      rw [List.map_congr_left hids]
      simp only [Except.map, Summary.mapIds, List.map_map, Function.comp_def]
  | error e sink₁ =>
    -- Both sinks refuse the record at the same place.
    obtain ⟨taken, r, rest, sink₂, hsplit, htaken, hrefuse⟩ := Sink.exists_of_takeAll_eq_error htake
    obtain ⟨before, next, hlist, rfl, hnext⟩ := List.map_eq_append_iff.1 hsplit
    obtain ⟨⟨n, r⟩, after, rfl, rfl, -⟩ := List.map_eq_cons_iff.1 hnext
    have hlist' : a.offeredBy config'.idScheme [] ms =
        before.map (Prod.map id (Record.mapIds f)) ++
          (n, r.mapIds f) :: after.map (Prod.map id (Record.mapIds f)) := by
      rw [← hoffered, hlist, List.map_append]
      rfl
    have hlen : (before.map Prod.snd).length =
        ((before.map (Prod.map id (Record.mapIds f))).map Prod.snd).length := by
      simp only [List.length_map]
    obtain ⟨sink₂', sink₁', htaken', hrefuse'⟩ := hsink.exists_refused hsink' hlen htaken hrefuse
    obtain ⟨hresult, hoffers, -⟩ := dumpRoots_offers_of_refused hs tour hlist htaken hrefuse
    obtain ⟨hresult', hoffers', -⟩ := dumpRoots_offers_of_refused hs tour hlist' htaken' hrefuse'
    refine ⟨?_, ?_⟩
    · rw [hresult, hresult']
      rfl
    · rw [hoffers, hoffers', List.map_append]
      rfl

/-- The dump id of a node that is numbered by its position. -/
def DumpId.ofPosition (n : NodeId) : DumpId := ⟨n.raw⟩

/-- **Main result.** For roots in or outside an arena that `finish` returned, and any sink whose answers
    depend only on how many records it took, the dumps by the two schemes end alike and offer records of
    the same nodes in the same order. One injective map from the ids in sequence to nodes gives each
    record's node, and turns every record and every answer of the one dump into that of the other. -/
theorem dumpRoots_sequential_nodeIndex (ha : a.Finished) (roots : List NodeId) (sink : σ)
    (config : Config) (hsink : Sink.AnswersByCount answer (Sink.beginRun config.runId sink)) :
    ∃ position : DumpId → NodeId, Function.Injective position ∧
      (∀ n r, (n, r) ∈ (dumpRoots a roots sink
          { config with idScheme := .sequential }).dumper.offers → position r.id = n) ∧
      (dumpRoots a roots sink { config with idScheme := .nodeIndex }).result =
        (dumpRoots a roots sink { config with idScheme := .sequential }).result.map
          (Summary.mapIds fun d => .ofPosition (position d)) ∧
      (dumpRoots a roots sink { config with idScheme := .nodeIndex }).dumper.offers =
        (dumpRoots a roots sink { config with idScheme := .sequential }).dumper.offers.map
          (Prod.map id (Record.mapIds fun d => .ofPosition (position d))) := by
  have hs := ha.sound
  have hroots : ∀ n ∈ roots.takeWhile a.contains, n.index < a.size := fun n hn =>
    Arena.index_lt_of_mem_takeWhile hn
  obtain ⟨ms, tour⟩ := (Dumper.ready_opened hs roots sink config).exists_tour hs hroots
  have hlen := tour.length_entered_le hs
  obtain ⟨e, he⟩ := IdScheme.exists_perm_idIn hlen hlen (List.Subset.refl _) .sequential .nodeIndex
  refine ⟨fun d => ⟨(e d).raw⟩, ?_, ?_, ?_⟩
  · intro d d' heq
    have hraw : (e d).raw = (e d').raw := congrArg NodeId.raw heq
    exact e.injective (congrArg DumpId.mk hraw)
  · intro n r hr
    have hoffers := dumpRoots_offers_prefix_offeredBy hs tour sink
      { config with idScheme := .sequential }
    obtain ⟨hn, node, -, rfl⟩ := Arena.mem_recordsIn.1 (hoffers.subset hr)
    show NodeId.mk (e (IdScheme.sequential.idIn (entered ms) n)).raw = n
    rw [he n (tour.perm.mem_iff.1 hn)]
    rfl
  · exact dumpRoots_rename hs tour he hsink hsink

/-- The linked record in both schemes, with a quota that ends the dump in the middle. Node, id and children
    of each record that was offered are listed. -/
theorem dumpRoots_sequential_nodeIndex_linkedRecord :
    let run scheme := dumpRoots Arena.linkedRecord [⟨6⟩, ⟨9⟩] ({ left := 4 } : QuotaSink)
      { idScheme := scheme }
    let listed scheme := (run scheme).dumper.offers.map fun p => (p.1, p.2.id, p.2.children)
    (run .sequential).result = .error (.sink (.io QuotaSink.closed)) ∧
    (run .nodeIndex).result = .error (.sink (.io QuotaSink.closed)) ∧
    listed .sequential = [(⟨1⟩, ⟨7⟩, [⟨2⟩]), (⟨0⟩, ⟨6⟩, [⟨7⟩, ⟨0⟩]), (⟨5⟩, ⟨5⟩, []),
      (⟨4⟩, ⟨4⟩, [⟨5⟩]), (⟨3⟩, ⟨3⟩, [⟨4⟩])] ∧
    listed .nodeIndex = [(⟨1⟩, ⟨1⟩, [⟨2⟩]), (⟨0⟩, ⟨0⟩, [⟨1⟩, ⟨6⟩]), (⟨5⟩, ⟨5⟩, []),
      (⟨4⟩, ⟨4⟩, [⟨5⟩]), (⟨3⟩, ⟨3⟩, [⟨4⟩])] ∧
    ∃ position : DumpId → NodeId, Function.Injective position ∧
      (∀ n r, (n, r) ∈ (run .sequential).dumper.offers → position r.id = n) ∧
      (run .nodeIndex).result =
        (run .sequential).result.map (Summary.mapIds fun d => .ofPosition (position d)) ∧
      (run .nodeIndex).dumper.offers = (run .sequential).dumper.offers.map
        (Prod.map id (Record.mapIds fun d => .ofPosition (position d))) := by
  intro run listed
  exact ⟨by decide +kernel, by decide +kernel, by decide +kernel, by decide +kernel,
    dumpRoots_sequential_nodeIndex Arena.finished_linkedRecord [⟨6⟩, ⟨9⟩]
      ({ left := 4 } : QuotaSink) {} (QuotaSink.answersByCount _)⟩

end Schemes

/-! ## Orders of roots -/

/-- What can be reached does not depend on the order of the roots or on how often each is given. -/
theorem Arena.reachedFrom_congr {ns' : List NodeId} (h : ∀ m, m ∈ ns ↔ m ∈ ns') :
    a.ReachedFrom ns n ↔ a.ReachedFrom ns' n := by
  simp only [ReachedFrom, h]

theorem Arena.recordsIn_perm {ns' : List NodeId} (h : ns.Perm ns') :
    (a.recordsIn s order ns).Perm (a.recordsIn s order ns') := h.filterMap _

/-- Tours past nothing that enter the same nodes leave the same nodes. -/
theorem Tour.left_perm {ns' : List NodeId} {ms' : List Move} (tour : Tour a [] ns ms)
    (tour' : Tour a [] ns' ms') (h : ∀ n, n ∈ entered ms ↔ n ∈ entered ms') :
    (left ms).Perm (left ms') := by
  have hperm : (entered ms).Perm (entered ms') :=
    (List.perm_ext_iff_of_nodup tour.nodup_entered tour'.nodup_entered).2 h
  exact tour.perm.trans (hperm.trans tour'.perm.symm)

/-- **Main result.** Dumps into memory of roots of an arena that `finish` returned, from which the same
    nodes can be reached, succeed and give the same records in some order: by position the very same,
    and in sequence the same up to a permutation of ids. -/
theorem dumpRoots_perm_of_reachedFrom_iff (ha : a.Finished) {roots roots' : List NodeId}
    (hroots : ∀ n ∈ roots, a.contains n) (hroots' : ∀ n ∈ roots', a.contains n)
    (hreached : ∀ n, a.ReachedFrom roots n ↔ a.ReachedFrom roots' n) (config : Config) :
    ∃ summary summary',
      (dumpRoots a roots MemorySink.empty config).result = .ok summary ∧
      (dumpRoots a roots' MemorySink.empty config).result = .ok summary' ∧
      (config.idScheme = .nodeIndex →
        (dumpRoots a roots MemorySink.empty config).sink.records.toList.Perm
          (dumpRoots a roots' MemorySink.empty config).sink.records.toList) ∧
      (config.idScheme = .sequential →
        (dumpRoots a roots MemorySink.empty config).sink.size =
            (dumpRoots a roots' MemorySink.empty config).sink.size ∧
          ∃ e : Equiv.Perm DumpId,
            ((dumpRoots a roots MemorySink.empty config).sink.records.toList.map
                (Record.mapIds e)).Perm
              (dumpRoots a roots' MemorySink.empty config).sink.records.toList) := by
  have hs := ha.sound
  obtain ⟨ms, tour, hresult, hrecords⟩ := exists_dumpRoots_memory hs config hroots
  obtain ⟨ms', tour', hresult', hrecords'⟩ := exists_dumpRoots_memory hs config hroots'
  have hmem : ∀ n, n ∈ entered ms ↔ n ∈ entered ms' := fun n => by
    rw [tour.mem_entered_iff, tour'.mem_entered_iff, hreached]
  have hperm := tour.left_perm tour' hmem
  refine ⟨_, _, hresult, hresult', ?_, ?_⟩
  · intro hscheme
    rw [hrecords, hrecords', hscheme]
    exact (Arena.recordsIn_perm hperm).map _
  · intro hscheme
    obtain ⟨e, he⟩ := IdScheme.exists_perm_idIn (tour.length_entered_le hs)
      (tour'.length_entered_le hs) (fun n hn => (hmem n).1 hn) config.idScheme config.idScheme
    have hleft : ∀ n ∈ left ms, n ∈ entered ms ∧ a.followed n ⊆ entered ms :=
      tour.orderly.mem_of_mem_left
    have hrecords'' : ((dumpRoots a roots MemorySink.empty config).sink.records.toList.map
        (Record.mapIds e)).Perm
          (dumpRoots a roots' MemorySink.empty config).sink.records.toList := by
      rw [hrecords, hrecords', Arena.map_snd_recordsIn_rename he hleft]
      exact (Arena.recordsIn_perm hperm).map _
    refine ⟨?_, e, hrecords''⟩
    have hlength := hrecords''.length_eq
    rw [List.length_map] at hlength
    exact hlength

/-- The linked record from its declaration, and from its type twice; and from two roots in either order
    with one of them twice. Id and children of each record are listed. -/
theorem dumpRoots_perm_of_reachedFrom_iff_linkedRecord :
    let records scheme roots :=
      (dumpRoots Arena.linkedRecord roots MemorySink.empty { idScheme := scheme }).sink.records.toList
    let listed scheme roots := (records scheme roots).map fun r => (r.id, r.children)
    listed .sequential [⟨0⟩] = [(⟨5⟩, []), (⟨4⟩, [⟨5⟩]), (⟨3⟩, [⟨4⟩]), (⟨2⟩, [⟨3⟩]), (⟨1⟩, [⟨2⟩]),
      (⟨8⟩, []), (⟨7⟩, [⟨2⟩, ⟨4⟩, ⟨2⟩]), (⟨6⟩, [⟨7⟩]), (⟨0⟩, [⟨1⟩, ⟨6⟩])] ∧
    listed .sequential [⟨5⟩, ⟨5⟩] = [(⟨5⟩, [⟨0⟩]), (⟨4⟩, [⟨5⟩]), (⟨3⟩, [⟨4⟩]), (⟨2⟩, [⟨3⟩]),
      (⟨8⟩, []), (⟨7⟩, [⟨3⟩, ⟨5⟩, ⟨3⟩]), (⟨6⟩, [⟨7⟩]), (⟨1⟩, [⟨2⟩, ⟨6⟩]), (⟨0⟩, [])] ∧
    (∃ e : Equiv.Perm DumpId,
      ((records .sequential [⟨0⟩]).map (Record.mapIds e)).Perm (records .sequential [⟨5⟩, ⟨5⟩])) ∧
    listed .nodeIndex [⟨6⟩, ⟨2⟩] = [(⟨1⟩, [⟨2⟩]), (⟨0⟩, [⟨1⟩, ⟨6⟩]), (⟨5⟩, []), (⟨4⟩, [⟨5⟩]),
      (⟨3⟩, [⟨4⟩]), (⟨2⟩, [⟨3⟩]), (⟨8⟩, []), (⟨7⟩, [⟨2⟩, ⟨4⟩, ⟨2⟩]), (⟨6⟩, [⟨7⟩])] ∧
    listed .nodeIndex [⟨2⟩, ⟨6⟩, ⟨2⟩] = [(⟨1⟩, [⟨2⟩]), (⟨8⟩, []), (⟨7⟩, [⟨2⟩, ⟨4⟩, ⟨2⟩]),
      (⟨6⟩, [⟨7⟩]), (⟨0⟩, [⟨1⟩, ⟨6⟩]), (⟨5⟩, []), (⟨4⟩, [⟨5⟩]), (⟨3⟩, [⟨4⟩]), (⟨2⟩, [⟨3⟩])] ∧
    (records .nodeIndex [⟨6⟩, ⟨2⟩]).Perm (records .nodeIndex [⟨2⟩, ⟨6⟩, ⟨2⟩]) := by
  intro records listed
  have hstep : ∀ m n : NodeId, n ∈ Arena.linkedRecord.followed m → Arena.linkedRecord.Reaches m n :=
    fun m n h => Relation.ReflTransGen.single h
  have hback : Arena.linkedRecord.Reaches ⟨5⟩ ⟨0⟩ := hstep _ _ (by decide)
  have hforth : Arena.linkedRecord.Reaches ⟨0⟩ ⟨5⟩ :=
    (((((hstep ⟨0⟩ ⟨1⟩ (by decide)).trans (hstep ⟨1⟩ ⟨2⟩ (by decide))).trans
      (hstep ⟨2⟩ ⟨3⟩ (by decide))).trans (hstep ⟨3⟩ ⟨4⟩ (by decide +kernel))).trans
      (hstep ⟨4⟩ ⟨5⟩ (by decide)))
  have hreached : ∀ n, Arena.linkedRecord.ReachedFrom [⟨0⟩] n ↔
      Arena.linkedRecord.ReachedFrom [⟨5⟩, ⟨5⟩] n := by
    intro n
    constructor
    · exact Arena.ReachedFrom.trans (by simpa [Arena.ReachedFrom] using hback)
    · exact Arena.ReachedFrom.trans (by simpa [Arena.ReachedFrom] using hforth)
  have hsame : ∀ m : NodeId, m ∈ [⟨6⟩, ⟨2⟩] ↔ m ∈ [⟨2⟩, ⟨6⟩, (⟨2⟩ : NodeId)] := by
    intro m
    simp only [List.mem_cons, List.not_mem_nil, or_false]
    tauto
  obtain ⟨_, _, -, -, -, hsequential⟩ := dumpRoots_perm_of_reachedFrom_iff
    Arena.finished_linkedRecord (by decide) (by decide) hreached {}
  obtain ⟨_, _, -, -, hposition, -⟩ := dumpRoots_perm_of_reachedFrom_iff
    Arena.finished_linkedRecord (by decide) (by decide) (fun _ => Arena.reachedFrom_congr hsame)
    { idScheme := .nodeIndex }
  exact ⟨by decide +kernel, by decide +kernel, (hsequential rfl).2, by decide +kernel,
    by decide +kernel, hposition rfl⟩

end AstDump
