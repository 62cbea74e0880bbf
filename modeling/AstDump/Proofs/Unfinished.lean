import AstDump.Proofs.Refusal
import AstDump.Proofs.Safety
import Mathlib.Data.List.Chain

/-!
# Nodes that a failed call leaves unfinished

A node is claimed before its record is made, so a refused record leaves nodes claimed without a record:
those that were in progress. They form one chain, from the node of the call to the node whose record
was refused. They keep their ids and are never dumped again, and no node is ever offered twice.

Results:
* `Tour.exists_chain`: the nodes in progress during a tour form a chain.
* `Dumper.Claimed.leaves`: what one call adds, and what it leaves unfinished.
* `Dumper.Claimed.afterCalls`: what many calls add.
* `Dumper.exists_unfinished`: the account of all calls to a dumper.
-/

namespace AstDump

open Move

variable {a : Arena} {s : IdScheme} {seen order ns : List NodeId} {ms : List Move}

/-! ## Nodes in progress -/

/-- When a tour leaves a node, the nodes that were entered and not left before form a chain to that
    node from one of the nodes that the tour started from. -/
theorem Tour.exists_chain (h : Tour a seen ns ms) {before after : List Move} {n : NodeId}
    (hms : ms = before ++ .leave n :: after) :
    ∃ chain, (∃ r ∈ ns, chain.head? = some r) ∧ chain.getLast? = some n ∧
      chain.IsChain (fun x y => y ∈ a.followed x) ∧
      (entered before).Perm (left before ++ chain) := by
  induction h generalizing before after n with
  | done seen => simp at hms
  | pass _ _ ih =>
    obtain ⟨chain, ⟨r, hr, hhead⟩, hchain⟩ := ih hms
    exact ⟨chain, ⟨r, List.mem_cons_of_mem _ hr, hhead⟩, hchain⟩
  | @visit seen ns m node inner ms hm hnode inside _ ihin ihrest =>
    cases before with
    | nil => simp at hms
    | cons first before =>
      obtain ⟨rfl, hms'⟩ := List.cons.inj hms
      have hself : (entered (.enter m :: inner)).Perm (left (.enter m :: inner) ++ [m]) := by
        simp only [entered_enter, left_enter]
        exact (inside.perm.symm.cons m).trans (List.perm_append_singleton m _).symm
      obtain ⟨middle, rfl, hrest⟩ | ⟨middle, rfl, hrest⟩ := List.append_eq_append_iff.1 hms'
      · cases middle with
        | nil =>
          obtain ⟨heq, -⟩ := List.cons.inj hrest
          cases heq
          rw [List.append_nil]
          exact ⟨[m], ⟨m, List.mem_cons_self, rfl⟩, rfl, List.isChain_singleton _, hself⟩
        | cons first middle =>
          -- The inner tour is over, and so is `m`.
          obtain ⟨rfl, hafter⟩ := List.cons.inj hrest
          obtain ⟨chain, ⟨r, hr, hhead⟩, hlast, hchain, hperm⟩ := ihrest hafter
          refine ⟨chain, ⟨r, List.mem_cons_of_mem _ hr, hhead⟩, hlast, hchain, ?_⟩
          simp only [entered_enter, entered_append, entered_leave, left_enter, left_append,
            left_leave, List.append_assoc, List.cons_append]
          exact ((inside.perm.symm.append hperm).cons m).trans List.perm_middle.symm
      · cases middle with
        | nil =>
          obtain ⟨heq, -⟩ := List.cons.inj hrest
          cases heq
          rw [List.append_nil] at hself
          exact ⟨[m], ⟨m, List.mem_cons_self, rfl⟩, rfl, List.isChain_singleton _, hself⟩
        | cons first middle =>
          -- The node is left by the inner tour, whose chain starts with a node that `m` leads to.
          obtain ⟨rfl, -⟩ := List.cons.inj hrest
          obtain ⟨chain, ⟨r, hr, hhead⟩, hlast, hchain, hperm⟩ := ihin rfl
          refine ⟨m :: chain, ⟨m, List.mem_cons_self, rfl⟩, ?_, ?_, ?_⟩
          · rw [List.getLast?_cons, hlast, Option.getD_some]
          · rw [List.isChain_cons]
            refine ⟨fun y hy => ?_, hchain⟩
            rw [hhead, Option.mem_some_iff] at hy
            exact hy ▸ hr
          · simp only [entered_enter, left_enter]
            exact (hperm.cons m).trans List.perm_middle.symm

namespace Dumper

variable {σ : Type} [Sink σ] {d d' : Dumper σ}

/-! ## Nodes claimed so far -/

omit [Sink σ] in
/-- The nodes claimed in between are those that were entered in between. -/
theorem Ready.claimed_between_iff {new : List NodeId} (h : Ready a s order d)
    (h' : Ready a s (order ++ new) d') {n : NodeId} :
    (d.registry.isDumped n = false ∧ d'.registry.isDumped n = true) ↔ n ∈ new := by
  obtain ⟨-, -, hdisjoint⟩ := List.nodup_append.1 h'.entered.nodup
  rw [← Bool.not_eq_true, h.entered.isDumped_iff, h'.entered.isDumped_iff, List.mem_append]
  constructor
  · rintro ⟨hold, hn⟩
    exact hn.resolve_left hold
  · intro hn
    exact ⟨fun hold => hdisjoint n hold n hn rfl, .inr hn⟩

/-- A dumper after calls, answered or not: the nodes `order` were claimed, and of them no more than one
    record each was offered. -/
structure Claimed (a : Arena) (s : IdScheme) (order : List NodeId) (d : Dumper σ) : Prop where
  ready : Ready a s order d
  once : (d.offers.map Prod.fst).Nodup
  mem : d.offers.map Prod.fst ⊆ order

theorem claimed_new (hs : a.Sound) (sink : σ) (config : Config) :
    Claimed a config.idScheme [] (new a sink config) where
  ready := ready_new hs sink config
  once := List.nodup_nil
  mem := List.Subset.refl _

omit [Sink σ] in
/-- Moves that were made keep this, if they leave only nodes that they enter. -/
theorem Claimed.after (h : Claimed a s order d) (hms : Orderly a order ms)
    (hafter : After a s order ms d d') {chain : List NodeId}
    (hperm : (entered ms).Perm (left ms ++ chain)) :
    Claimed a s (order ++ entered ms) d' := by
  have hoffers : d'.offers.map Prod.fst = d.offers.map Prod.fst ++ left ms := by
    rw [hafter.offers, List.map_append, h.ready.map_fst_offeredBy hms]
  obtain ⟨-, hnodup, hdisjoint⟩ := List.nodup_append.1 hafter.ready.entered.nodup
  have hsub : left ms ⊆ entered ms := fun n hn => hperm.mem_iff.2 (List.mem_append_left _ hn)
  refine ⟨hafter.ready, ?_, ?_⟩
  · rw [hoffers, List.nodup_append]
    refine ⟨h.once, (List.nodup_append.1 (hperm.nodup_iff.1 hnodup)).1, fun m hm n hn => ?_⟩
    exact hdisjoint m (h.mem hm) n (hsub hn)
  · rw [hoffers]
    exact List.append_subset.2 ⟨fun n hn => List.mem_append_left _ (h.mem hn),
      fun n hn => List.mem_append_right _ (hsub hn)⟩

omit [Sink σ] in
/-- A refused record keeps this, if it is the first of its node. -/
theorem Claimed.handOver (h : Claimed a s order d) {n : NodeId} (hn : n ∈ order)
    (hnew : n ∉ d.offers.map Prod.fst) (depth : Nat) (r : Record) (sink : σ) (taken : Nat) :
    Claimed a s order (handOver depth n r sink taken d) := by
  refine ⟨h.ready.handOver depth n r sink taken, ?_, ?_⟩
  · rw [offers_handOver, List.map_append, List.map_singleton]
    exact NodeId.nodup_concat h.once hnew
  · rw [offers_handOver, List.map_append, List.map_singleton]
    exact List.append_subset.2 ⟨h.mem, by simpa using hn⟩

/-! ## One call -/

/-- What a call `c` did that led from `d` to `d'` and ended with the refusal `e`. The sink took the
    records `taken` and refused the record of the last node of `chain`. The nodes of `chain` start with
    the node of the call, and each leads to the next. They and the nodes of `taken` are what the call
    claimed, and no node is in both. -/
structure Interrupted (a : Arena) (c : Call) (e : SinkError) (d d' : Dumper σ)
    (chain : List NodeId) (taken : List (NodeId × Record)) : Prop where
  starts : chain.head? = some c.node
  linked : chain.IsChain fun x y => y ∈ a.followed x
  nodup : chain.Nodup
  refused : ∃ n r sink, chain.getLast? = some n ∧ d'.offers = d.offers ++ (taken ++ [(n, r)]) ∧
    Sink.takeAll (taken.map Prod.snd) d.sink = .ok () sink ∧
    Sink.record r sink = .error e d'.sink
  claimed : ∀ n, (d.registry.isDumped n = false ∧ d'.registry.isDumped n = true) ↔
    n ∈ chain ∨ n ∈ taken.map Prod.fst
  apart : ∀ n ∈ chain, n ∉ taken.map Prod.fst

/-- The chains that a call `c` to the dumper `d` leaves unfinished, by its outcome: one after a refusal,
    none after an answer or when the call does not fit. -/
inductive Leaves (a : Arena) (c : Call) (d : Dumper σ) :
    Outcome σ DumpId → List (List NodeId) → Prop
  | answered (id : DumpId) (d' : Dumper σ) : Leaves a c d (.ok id d') []
  | refused {e : SinkError} {d' : Dumper σ} {chain : List NodeId} {taken : List (NodeId × Record)}
      (h : Interrupted a c e d d' chain taken) : Leaves a c d (.error (.sink e) d') [chain]
  | unfit {err : DumpError} (h : ∀ e, err ≠ .sink e) : Leaves a c d (.error err d) []

/-- A call that ends with a refusal leaves one chain. -/
theorem Leaves.exists_chain {c : Call} {e : SinkError} {chains : List (List NodeId)}
    (h : Leaves a c d (.error (.sink e) d') chains) :
    ∃ chain taken, chains = [chain] ∧ Interrupted a c e d d' chain taken := by
  cases h with
  | refused h => exact ⟨_, _, rfl, h⟩
  | unfit h => exact absurd rfl (h e)

/-- What calls add that lead from `d` to `d'`: they claim the nodes `entered` and offer the records
    `offered`, of new nodes only. All new nodes but those of `chains` had their records taken. -/
structure Adds (a : Arena) (s : IdScheme) (order : List NodeId) (d : Dumper σ)
    (entered : List NodeId) (offered : List (NodeId × Record)) (chains : List (List NodeId))
    (d' : Dumper σ) : Prop where
  claimed : Claimed a s (order ++ entered) d'
  offers : d'.offers = d.offers ++ offered
  mem : offered.map Prod.fst ⊆ entered
  unfinished : chains.flatten ⊆ entered
  balance : d'.records + chains.flatten.length = d.records + entered.length

omit [Sink σ] in
theorem Claimed.adds_nil (h : Claimed a s order d) : Adds a s order d [] [] [] d where
  claimed := by rwa [List.append_nil]
  offers := (List.append_nil _).symm
  mem := List.Subset.refl _
  unfinished := List.Subset.refl _
  balance := rfl

omit [Sink σ] in
/-- A call that fits and is answered enters nodes and has their records taken. -/
theorem Claimed.adds_of_taken (h : Claimed a s order d) {c : Call}
    (tour : Tour a order [c.node] ms) (hafter : After a s order ms d d') :
    Adds a s order d (entered ms) (a.offeredBy s order ms) [] d' where
  claimed := by
    have hperm : (entered ms).Perm (left ms ++ []) := by
      rw [List.append_nil]
      exact tour.perm.symm
    exact h.after tour.orderly hafter hperm
  offers := hafter.offers
  mem := by
    rw [h.ready.map_fst_offeredBy tour.orderly]
    exact fun n hn => tour.perm.mem_iff.1 hn
  unfinished := List.nil_subset _
  balance := by
    rw [hafter.records, tour.perm.length_eq]
    rfl

/-- A call that fits and ends with a refusal leaves the nodes in progress. -/
theorem Claimed.exists_chain_of_refused (h : Claimed a s order d) {c : Call} {before after : List Move}
    {n : NodeId} (tour : Tour a order [c.node] (before ++ .leave n :: after)) {d₁ : Dumper σ}
    (hafter : After a s order before d d₁)
    (htake : Sink.takeAll ((a.offeredBy s order before).map Prod.snd) d.sink = .ok () d₁.sink)
    {r : Record} {e : SinkError} {sink' : σ} (hrefuse : Sink.record r d₁.sink = .error e sink')
    (depth : Nat) :
    ∃ chain, Adds a s order d (entered before) (a.offeredBy s order before ++ [(n, r)]) [chain]
        (Dumper.handOver depth n r sink' 0 d₁) ∧
      Interrupted a c e d (Dumper.handOver depth n r sink' 0 d₁) chain
        (a.offeredBy s order before) := by
  obtain ⟨hbefore, -⟩ := orderly_append.1 tour.orderly
  obtain ⟨chain, ⟨m, hm, hhead⟩, hlast, hchain, hperm⟩ := tour.exists_chain rfl
  obtain ⟨-, hnodup, hdisjoint⟩ := List.nodup_append.1 hafter.ready.entered.nodup
  obtain ⟨-, hchain_nodup, happart⟩ := List.nodup_append.1 (hperm.nodup_iff.1 hnodup)
  have hfst := h.ready.map_fst_offeredBy hbefore
  have hsub : chain ⊆ entered before := fun m hm => hperm.mem_iff.2 (List.mem_append_right _ hm)
  have hnchain : n ∈ chain := List.mem_of_getLast? hlast
  have hnentered := hsub hnchain
  have hoffers : (Dumper.handOver depth n r sink' 0 d₁).offers =
      d.offers ++ (a.offeredBy s order before ++ [(n, r)]) := by
    rw [offers_handOver, hafter.offers, List.append_assoc]
  have hclaimed : Claimed a s (order ++ entered before) (Dumper.handOver depth n r sink' 0 d₁) := by
    refine (h.after hbefore hafter hperm).handOver (List.mem_append_right _ hnentered) ?_ _ _ _ _
    rw [hafter.offers, List.map_append, hfst, List.mem_append]
    rintro (hn | hn)
    · exact hdisjoint n (h.mem hn) n hnentered rfl
    · exact happart n hn n hnchain rfl
  refine ⟨chain, ⟨hclaimed, hoffers, ?_, by simpa using hsub, ?_⟩, ?_⟩
  · rw [List.map_append, hfst, List.map_singleton]
    exact List.append_subset.2 ⟨fun m hm => hperm.mem_iff.2 (List.mem_append_left _ hm),
      by simpa using hnentered⟩
  · show d₁.records + 0 + _ = _
    rw [List.flatten_singleton, hafter.records, hperm.length_eq, List.length_append, Nat.add_zero,
      Nat.add_assoc]
  · refine ⟨?_, hchain, hchain_nodup, ⟨n, r, d₁.sink, hlast, hoffers, htake, hrefuse⟩,
      fun m => ?_, fun m hm hm' => ?_⟩
    · rw [hhead, List.mem_singleton.1 hm]
    · rw [h.ready.claimed_between_iff hclaimed.ready, hfst, hperm.mem_iff, List.mem_append, or_comm]
    · rw [hfst] at hm'
      exact happart m hm' m hm rfl

/-- **The step.** What one call adds, whatever it answers, and what it leaves unfinished. -/
theorem Claimed.leaves (h : Claimed a s order d) (hs : a.Sound) (c : Call) :
    ∃ entered offered chains, Adds a s order d entered offered chains (d.call c).after ∧
      Leaves a c d (d.call c) chains := by
  cases hlocate : locate a c.edge with
  | error err =>
    have hcall : d.call c = .error err d := by
      rw [h.ready.call_eq, visitAt_of_locate_eq_error (h.ready.arena ▸ hlocate) (Nat.succ_pos _)]
    have hsink : ∀ e, err ≠ .sink e := by
      rintro e rfl
      obtain ⟨-, herr⟩ | ⟨v, node, -, -, -, herr⟩ := locate_eq_error hlocate <;> cases herr
    rw [hcall]
    exact ⟨[], [], [], h.adds_nil, .unfit hsink⟩
  | ok node =>
    obtain ⟨ms, tour, heq⟩ :=
      exists_call_eq_replay hs h.ready ⟨node, Arena.locate_eq_ok_iff.1 hlocate⟩
    rw [h.ready.call_eq, heq _ (Nat.lt_succ_self _)]
    cases htake : Sink.takeAll ((a.offeredBy s order ms).map Prod.snd) d.sink with
    | ok u sink =>
      obtain ⟨d', hreplay, hafter, -⟩ := replay_ok h.ready tour.orderly htake 0
      rw [hreplay]
      exact ⟨_, _, [], h.adds_of_taken tour hafter, .answered _ d'⟩
    | error e sink =>
      obtain ⟨before, n, after, node', d₁, depth₁, rfl, -, hafter, htake₁, hrefuse, hreplay⟩ :=
        replay_error h.ready tour.orderly htake 0
      obtain ⟨chain, hadds, hinterrupted⟩ :=
        h.exists_chain_of_refused tour hafter htake₁ hrefuse depth₁
      rw [hreplay]
      exact ⟨_, _, [chain], hadds, .refused hinterrupted⟩

/-! ## Many calls -/

/-- The chains that calls to the dumper `d`, one after the other, leave unfinished, in order. -/
inductive Unfinished (a : Arena) : Dumper σ → List Call → List (List NodeId) → Prop
  | nil (d : Dumper σ) : Unfinished a d [] []
  | cons {d : Dumper σ} {c : Call} {calls : List Call} {first rest : List (List NodeId)}
      (hcall : Leaves a c d (d.call c) first)
      (hcalls : Unfinished a (d.call c).after calls rest) :
      Unfinished a d (c :: calls) (first ++ rest)

omit [Sink σ] in
theorem Adds.trans {entered entered' : List NodeId} {offered offered' : List (NodeId × Record)}
    {chains chains' : List (List NodeId)} {d₁ : Dumper σ}
    (h : Adds a s order d entered offered chains d₁)
    (h' : Adds a s (order ++ entered) d₁ entered' offered' chains' d') :
    Adds a s order d (entered ++ entered') (offered ++ offered') (chains ++ chains') d' where
  claimed := by
    rw [← List.append_assoc]
    exact h'.claimed
  offers := by rw [h'.offers, h.offers, List.append_assoc]
  mem := by
    rw [List.map_append]
    exact List.append_subset.2 ⟨List.subset_append_of_subset_left _ h.mem,
      List.subset_append_of_subset_right _ h'.mem⟩
  unfinished := by
    rw [List.flatten_append]
    exact List.append_subset.2 ⟨List.subset_append_of_subset_left _ h.unfinished,
      List.subset_append_of_subset_right _ h'.unfinished⟩
  balance := by
    have hfirst := h.balance
    have hrest := h'.balance
    rw [List.flatten_append, List.length_append, List.length_append]
    omega

/-- **The run.** What any calls add, and what they leave unfinished. -/
theorem Claimed.afterCalls (h : Claimed a s order d) (hs : a.Sound) (calls : List Call) :
    ∃ entered offered chains, Adds a s order d entered offered chains (d.afterCalls calls) ∧
      Unfinished a d calls chains := by
  induction calls generalizing order d with
  | nil => exact ⟨[], [], [], h.adds_nil, .nil d⟩
  | cons c calls ih =>
    obtain ⟨new, offered, first, hadds, hleaves⟩ := h.leaves hs c
    obtain ⟨new', offered', rest, hadds', hunfinished⟩ := ih hadds.claimed
    exact ⟨new ++ new', offered ++ offered', first ++ rest, hadds.trans hadds',
      .cons hleaves hunfinished⟩

/-- What holds of a dumper whose calls left the nodes of `chains` unfinished. No node was offered twice,
    and only claimed nodes were offered; the nodes claimed are those whose records were taken and those
    left unfinished. After any further calls, a call for a claimed node does nothing: it answers the
    node's id, unless it asks for a visitor that does not serve the node's category. Further calls offer
    only nodes that were not claimed. -/
structure Account (a : Arena) (chains : List (List NodeId)) (d : Dumper σ) : Prop where
  once : (d.offers.map Prod.fst).Nodup
  offered : ∀ n ∈ d.offers.map Prod.fst, d.registry.isDumped n
  balance : d.registry.dumped = d.records + chains.flatten.length
  unfinished : ∀ n ∈ chains.flatten, d.registry.isDumped n
  known : ∀ n, d.registry.isDumped n → ∃ id found,
    d.registry.get? n = some id ∧ a.category? n = some found ∧ ∀ more,
      (d.afterCalls more).call ⟨none, n⟩ = .ok id (d.afterCalls more) ∧
      (d.afterCalls more).call ⟨some found.visitor, n⟩ = .ok id (d.afterCalls more) ∧
      ∀ v, found.visitor ≠ v → (d.afterCalls more).call ⟨some v, n⟩ =
        .error (.categoryMismatch n v.name found) (d.afterCalls more)
  fresh : ∀ more, ∃ offered, (d.afterCalls more).offers = d.offers ++ offered ∧
    ∀ n ∈ offered.map Prod.fst, d.registry.isDumped n = false

/-- A call for a node that was claimed answers its id. -/
theorem Ready.call_of_mem (h : Ready a s order d) {c : Call} (hn : c.node ∈ order)
    (hc : c.Fits a) : d.call c = .ok (s.idIn order c.node) d := by
  obtain ⟨node, hlead⟩ := hc
  rw [h.call_eq, visitAt_of_mem h hlead hn, ← h.idAt hn]
  rfl

/-- A call that asks for a visitor of another category does nothing. -/
theorem Ready.call_of_visitor_ne (h : Ready a s order d) {n : NodeId} {node : Node}
    (hnode : a.node? n = some node) {v : Visitor} (hv : node.category.visitor ≠ v) :
    d.call ⟨some v, n⟩ = .error (.categoryMismatch n v.name node.category) d := by
  have hlocate : locate a (Call.edge ⟨some v, n⟩) =
      .error (.categoryMismatch n v.name node.category) := by
    simp only [locate, Call.edge, hnode, if_neg hv]
  rw [h.call_eq, visitAt_of_locate_eq_error (h.arena ▸ hlocate) (Nat.succ_pos _)]

theorem Claimed.account (h : Claimed a s order d) (hs : a.Sound) {chains : List (List NodeId)}
    (hbalance : d.records + chains.flatten.length = order.length)
    (hchains : chains.flatten ⊆ order) : Account a chains d where
  once := h.once
  offered n hn := h.ready.entered.isDumped_iff.2 (h.mem hn)
  balance := by rw [h.ready.entered.claims.dumped, hbalance]
  unfinished n hn := h.ready.entered.isDumped_iff.2 (hchains hn)
  known n hn := by
    have hmem := h.ready.entered.isDumped_iff.1 hn
    obtain ⟨node, hnode⟩ := h.ready.exists_node n hmem
    refine ⟨s.idIn order n, node.category, h.ready.get?_eq.trans (if_pos hmem),
      congrArg (Option.map Node.category) hnode, fun more => ?_⟩
    obtain ⟨new, offered, _, hadds, -⟩ := h.afterCalls hs more
    have hready := hadds.claimed.ready
    have hcall : ∀ via, Call.Fits a ⟨via, n⟩ →
        (d.afterCalls more).call ⟨via, n⟩ = .ok (s.idIn order n) (d.afterCalls more) := by
      intro via hc
      rw [hready.call_of_mem (List.mem_append_left _ hmem) hc, IdScheme.idIn_append hmem]
    refine ⟨hcall _ ⟨node, hnode, ?_⟩, hcall _ ⟨node, hnode, ?_⟩, fun v hv => ?_⟩
    · intro v hv
      cases hv
    · intro v hv
      exact Option.some.inj hv
    · exact hready.call_of_visitor_ne hnode hv
  fresh more := by
    obtain ⟨new, offered, _, hadds, -⟩ := h.afterCalls hs more
    refine ⟨offered, hadds.offers, fun n hn => ?_⟩
    exact ((h.ready.claimed_between_iff hadds.claimed.ready).2 (hadds.mem hn)).1

/-- **Main result.** Over an arena that `finish` returned, with any settings and any sink, after any
    calls, failed ones among them: each call that ended with a refusal left one chain of nodes
    unfinished, no node was offered twice, and the nodes claimed without a record taken are those of
    the chains. They keep their ids, and no later call offers them. -/
theorem exists_unfinished (ha : a.Finished) (sink : σ) (config : Config) (calls : List Call) :
    ∃ chains, Unfinished a (new a sink config) calls chains ∧
      Account a chains ((new a sink config).afterCalls calls) := by
  have hs := ha.sound
  obtain ⟨order, offered, chains, hadds, hunfinished⟩ :=
    (claimed_new hs sink config).afterCalls hs calls
  refine ⟨chains, hunfinished, hadds.claimed.account hs ?_ hadds.unfinished⟩
  rw [hadds.balance, List.nil_append]
  exact Nat.zero_add _

/-- A sink that takes two records interrupts the visit of the record and then that of its method. The
    two chains hold all but two of the nine nodes. -/
theorem exists_unfinished_linkedRecord :
    ∃ chains, Unfinished Arena.linkedRecord (new Arena.linkedRecord ({ left := 2 } : QuotaSink) {})
        [⟨none, ⟨0⟩⟩, ⟨none, ⟨9⟩⟩, ⟨some .decl, ⟨6⟩⟩, ⟨some .type, ⟨3⟩⟩] chains ∧
      chains.flatten.length = 7 := by
  obtain ⟨chains, hunfinished, haccount⟩ := exists_unfinished Arena.finished_linkedRecord
    ({ left := 2 } : QuotaSink) {} [⟨none, ⟨0⟩⟩, ⟨none, ⟨9⟩⟩, ⟨some .decl, ⟨6⟩⟩, ⟨some .type, ⟨3⟩⟩]
  have hbalance : 9 = 2 + chains.flatten.length := haccount.balance
  exact ⟨chains, hunfinished, by omega⟩

/-- A visit of the linked record leaves the record itself unfinished. A later call that asks for a type
    there is not answered. -/
theorem call_unfinished_ne_ok_linkedRecord :
    ∃ chain, Unfinished Arena.linkedRecord (new Arena.linkedRecord ({ left := 2 } : QuotaSink) {})
        [⟨none, ⟨0⟩⟩] [chain] ∧
      (⟨0⟩ : NodeId) ∈ chain ∧
      ∀ id d', stoppedLinkedRecord.call ⟨some .type, ⟨0⟩⟩ ≠ .ok id d' := by
  obtain ⟨_, _, chains, -, hunfinished⟩ := (claimed_new Arena.finished_linkedRecord.sound
    ({ left := 2 } : QuotaSink) {}).afterCalls Arena.finished_linkedRecord.sound [⟨none, ⟨0⟩⟩]
  cases hunfinished with
  | @cons _ _ _ first rest hcall hcalls =>
    cases hcalls
    have hrefused : Leaves Arena.linkedRecord ⟨none, ⟨0⟩⟩
        (new Arena.linkedRecord ({ left := 2 } : QuotaSink) {})
        (.error (.sink (.io QuotaSink.closed)) stoppedLinkedRecord) first := hcall
    obtain ⟨chain, taken, rfl, hinterrupted⟩ := hrefused.exists_chain
    refine ⟨chain, .cons hcall (.nil _), List.mem_of_head? hinterrupted.starts, ?_⟩
    intro id d' hok
    cases hok

end Dumper

end AstDump
