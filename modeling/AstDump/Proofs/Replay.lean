import AstDump.Dumper
import AstDump.Proofs.DepthFirst
import AstDump.Proofs.Registry
import AstDump.Proofs.Sink

/-!
# Moves made by a dumper

What a dumper does at each move of a walk: it enters a node in its registry, and hands a node's record
to its sink when it leaves the node. `Dumper.replay` makes a list of moves, one after the other, and
stops at the first record that the sink refuses.

Results:
* `Dumper.replay_ok`: if the sink takes the records of the nodes left, all moves are made, and the
  dumper at the end is settled by the moves.
* `Dumper.replay_error`: otherwise the replay stops with the sink's error.
-/

namespace AstDump

open Move

/-! ## Records by order of entry -/

/-- The record of the node with id `n` when the nodes `order` were entered, in that order. -/
def Node.recordIn (node : Node) (s : IdScheme) (order : List NodeId) (n : NodeId) : Record :=
  ⟨s.idIn order n, node.recordKind, (node.children n).map (s.idIn order)⟩

theorem Node.recordIn_append {node : Node} {s : IdScheme} {order : List NodeId} {n : NodeId}
    (hn : n ∈ order) (hchildren : node.children n ⊆ order) (more : List NodeId) :
    node.recordIn s (order ++ more) n = node.recordIn s order n := by
  unfold recordIn
  rw [IdScheme.idIn_append hn, List.map_congr_left fun m hm => IdScheme.idIn_append (hchildren hm) more]

/-- The nodes `ns` with their records when the nodes `order` were entered, in that order. -/
def Arena.recordsIn (a : Arena) (s : IdScheme) (order ns : List NodeId) : List (NodeId × Record) :=
  ns.filterMap fun n => (a.node? n).map fun node => (n, node.recordIn s order n)

theorem Arena.recordsIn_cons {a : Arena} {n : NodeId} {node : Node} (h : a.node? n = some node)
    (s : IdScheme) (order ns : List NodeId) :
    a.recordsIn s order (n :: ns) = (n, node.recordIn s order n) :: a.recordsIn s order ns := by
  simp [recordsIn, h]

/-- The nodes left by the moves `ms` with their records, when the nodes `order` were entered before. -/
def Arena.offeredBy (a : Arena) (s : IdScheme) (order : List NodeId) (ms : List Move) :
    List (NodeId × Record) := a.recordsIn s (order ++ entered ms) (left ms)

theorem Arena.offeredBy_enter (a : Arena) (s : IdScheme) (order : List NodeId) (n : NodeId)
    (ms : List Move) :
    a.offeredBy s order (.enter n :: ms) = a.offeredBy s (order ++ [n]) ms := by
  simp [offeredBy]

/-- The record of a node that is left does not change by what is entered later. -/
theorem Arena.offeredBy_leave {a : Arena} {order : List NodeId} {n : NodeId} {node : Node}
    (hnode : a.node? n = some node) (hn : n ∈ order) (hchildren : node.children n ⊆ order)
    (s : IdScheme) (ms : List Move) :
    a.offeredBy s order (.leave n :: ms) =
      (n, node.recordIn s order n) :: a.offeredBy s order ms := by
  unfold offeredBy
  rw [left_leave, entered_leave, recordsIn_cons hnode, Node.recordIn_append hn hchildren]

/-- The number of spans that a node opens around what it leads to. -/
def Node.spans : Node → Nat
  | .type _ => 1
  | _ => 0

/-- The number of open spans after moves, from `depth` on. -/
def Arena.depthAfter (a : Arena) : (depth : Nat) → List Move → Nat
  | depth, [] => depth
  | depth, .enter n :: ms => a.depthAfter (depth + ((a.node? n).map Node.spans).getD 0) ms
  | depth, .leave n :: ms => a.depthAfter (depth - ((a.node? n).map Node.spans).getD 0) ms

theorem Arena.depthAfter_append (a : Arena) (depth : Nat) (ms ms' : List Move) :
    a.depthAfter depth (ms ++ ms') = a.depthAfter (a.depthAfter depth ms) ms' := by
  induction ms generalizing depth with
  | nil => rfl
  | cons m ms ih => cases m <;> exact ih _

/-- A tour closes the spans that it opens. -/
theorem Tour.depthAfter {a : Arena} {seen ns : List NodeId} {ms : List Move}
    (h : Tour a seen ns ms) (depth : Nat) : a.depthAfter depth ms = depth := by
  induction h generalizing depth with
  | done seen => rfl
  | pass _ _ ih => exact ih depth
  | visit _ hnode _ _ ihin ihrest =>
    rw [Arena.depthAfter, Arena.depthAfter_append, ihin, Arena.depthAfter, Nat.add_sub_cancel, ihrest]

namespace Dumper

variable {σ : Type}

/-! ## One move -/

/-- The id that the registry has for a node. -/
def idAt (d : Dumper σ) (n : NodeId) : DumpId := (d.registry.get? n).getD .invalid

/-- The record of a node, by the ids that the registry has. -/
def recordAt (d : Dumper σ) (n : NodeId) (node : Node) : Record :=
  ⟨d.idAt n, node.recordKind, (node.children n).map d.idAt⟩

/-- Reports the span that a node opens, if it opens one. -/
def reportSpan (depth : Nat) (n : NodeId) (node : Node) (d : Dumper σ) : Dumper σ :=
  match spanOf d.arena n node with
  | .ok (some span) => { d with log := d.log.push ⟨depth, span⟩ }
  | _ => d

/-- Makes one move with `depth` spans open, and answers the number of spans open after it. -/
def perform [Sink σ] (depth : Nat) : Move → Dumper σ → Outcome σ Nat
  | .enter n, d =>
    match d.arena.node? n, d.registry.enter? n with
    | some node, some (_, registry) =>
      .ok (depth + node.spans) (reportSpan depth n node { d with registry })
    | _, _ => .error .unresolved d
  | .leave n, d =>
    match d.arena.node? n with
    | none => .error .unresolved d
    | some node =>
      match offer (depth - node.spans) n (d.recordAt n node) d with
      | .error e d => .error e d
      | .ok () d => .ok (depth - node.spans) d

/-- Makes moves in order, up to the first that fails. -/
def replay [Sink σ] : (depth : Nat) → List Move → Dumper σ → Outcome σ Nat
  | depth, [], d => .ok depth d
  | depth, m :: ms, d =>
    match perform depth m d with
    | .error e d => .error e d
    | .ok depth d => replay depth ms d

/-- The records reported so far, each with its node. -/
def offers (d : Dumper σ) : List (NodeId × Record) :=
  d.log.toList.filterMap fun entry =>
    match entry.event with
    | .dump n r => some (n, r)
    | _ => none

/-- A report that is not of a record adds none. -/
theorem offers_push_of_ne_dump (d : Dumper σ) {entry : TraceEntry}
    (h : ∀ n r, entry.event ≠ .dump n r) :
    offers { d with log := d.log.push entry } = d.offers := by
  obtain ⟨depth, event⟩ := entry
  cases event with
  | dump n r => exact absurd rfl (h n r)
  | _ => simp [offers]

/-! ## Dumpers in a traversal -/

/-- A dumper over `a` in whose registry the nodes `order` were entered, in that order. -/
structure Ready (a : Arena) (s : IdScheme) (order : List NodeId) (d : Dumper σ) : Prop where
  arena : d.arena = a
  scheme : d.registry.scheme = s
  size : d.registry.ids.size = a.size
  entered : d.registry.Entered order

variable {a : Arena} {s : IdScheme} {order : List NodeId} {d : Dumper σ} {n : NodeId} {node : Node}

theorem ready_new [Sink σ] (hs : a.Sound) (sink : σ) (config : Config) :
    Ready a config.idScheme [] (new a sink config) where
  arena := rfl
  scheme := rfl
  size := by simp [new, Registry.new]
  entered := Registry.entered_new hs.size_lt _

theorem Ready.get?_eq (h : Ready a s order d) :
    d.registry.get? n = if n ∈ order then some (s.idIn order n) else none := by
  rw [h.entered.get?_eq, h.scheme]

theorem Ready.idAt (h : Ready a s order d) (hn : n ∈ order) : d.idAt n = s.idIn order n := by
  rw [Dumper.idAt, h.get?_eq, if_pos hn]
  rfl

theorem Ready.get?_eq_idAt (h : Ready a s order d) (hn : n ∈ order) :
    d.registry.get? n = some (d.idAt n) := by
  rw [h.get?_eq, if_pos hn, h.idAt hn]

theorem Ready.recordAt (h : Ready a s order d) (hn : n ∈ order)
    (hchildren : node.children n ⊆ order) : d.recordAt n node = node.recordIn s order n := by
  unfold Dumper.recordAt Node.recordIn
  rw [h.idAt hn, List.map_congr_left fun m hm => h.idAt (hchildren hm)]

theorem Ready.exists_node (h : Ready a s order d) :
    ∀ n ∈ order, ∃ node, a.node? n = some node := by
  intro n hn
  apply Arena.exists_node_of_lt
  rw [← h.size]
  exact h.entered.covers n hn

theorem Ready.covers (h : Ready a s order d) (hn : n.index < a.size) : d.registry.Covers n := by
  unfold Registry.Covers
  rw [h.size]
  exact hn

/-- A node that was entered has its id, and a question for it changes nothing. -/
theorem Ready.idOf (h : Ready a s order d) (hn : n ∈ order) : idOf n d = .ok (d.idAt n) d := by
  have hcovers := h.entered.covers n hn
  have hassign := h.entered.numbers.assign_of_mem hcovers hn
  rw [h.scheme, ← h.idAt hn] at hassign
  simp only [Dumper.idOf, dif_pos hcovers, hassign]

/-! ## Entering a node -/

/-- The dumper after a node is entered for the first time. -/
def arrive (depth : Nat) (n : NodeId) (node : Node) (d : Dumper σ) : Dumper σ :=
  reportSpan depth n node { d with registry := d.registry.enroll n }

/-- Only the log tells that a span was reported, and it tells of no record. -/
theorem reportSpan_spec (depth : Nat) (n : NodeId) (node : Node) (d : Dumper σ) :
    (reportSpan depth n node d).arena = d.arena ∧
      (reportSpan depth n node d).registry = d.registry ∧
      (reportSpan depth n node d).sink = d.sink ∧
      (reportSpan depth n node d).records = d.records ∧
      (reportSpan depth n node d).offers = d.offers := by
  unfold reportSpan
  split
  · rename_i span hspan
    refine ⟨rfl, rfl, rfl, rfl, offers_push_of_ne_dump d ?_⟩
    intro m r hdump
    rw [show span = .dump m r from hdump] at hspan
    unfold spanOf at hspan
    split at hspan
    · split at hspan <;> cases hspan
    · cases hspan
  · exact ⟨rfl, rfl, rfl, rfl, rfl⟩

theorem Ready.arrive (h : Ready a s order d) (hnode : a.node? n = some node) (hn : n ∉ order)
    (depth : Nat) : Ready a s (order ++ [n]) (arrive depth n node d) := by
  obtain ⟨harena, hregistry, -⟩ :=
    reportSpan_spec depth n node { d with registry := d.registry.enroll n }
  have hcovers := h.covers (Arena.index_lt_of_node? hnode)
  refine ⟨?_, ?_, ?_, ?_⟩
  · exact harena.trans h.arena
  · rw [Dumper.arrive, hregistry]
    exact h.scheme
  · rw [Dumper.arrive, hregistry, Registry.size_ids_enroll, h.size]
  · rw [Dumper.arrive, hregistry]
    exact h.entered.enroll hcovers hn

theorem perform_enter [Sink σ] (h : Ready a s order d) (hnode : a.node? n = some node)
    (hn : n ∉ order) (depth : Nat) :
    perform depth (.enter n) d = .ok (depth + node.spans) (arrive depth n node d) := by
  have hcovers := h.covers (Arena.index_lt_of_node? hnode)
  have henter : d.registry.enter? n = some (true, d.registry.enroll n) := by
    rw [Registry.enter?, dif_pos hcovers, h.entered.enter_of_not_mem hcovers hn]
  have hnode' : d.arena.node? n = some node := by rw [h.arena, hnode]
  simp only [perform, hnode', henter]
  rfl

/-! ## Leaving a node -/

/-- The dumper after it reported a record and handed it to its sink, which is now `sink`. -/
def handOver (depth : Nat) (n : NodeId) (r : Record) (sink : σ) (taken : Nat) (d : Dumper σ) :
    Dumper σ :=
  { d with sink, records := d.records + taken, log := d.log.push ⟨depth, .dump n r⟩ }

theorem offers_handOver (depth : Nat) (n : NodeId) (r : Record) (sink : σ) (taken : Nat)
    (d : Dumper σ) : (handOver depth n r sink taken d).offers = d.offers ++ [(n, r)] := by
  simp [offers, handOver]

theorem Ready.handOver (h : Ready a s order d) (depth : Nat) (n : NodeId) (r : Record) (sink : σ)
    (taken : Nat) : Ready a s order (handOver depth n r sink taken d) :=
  ⟨h.arena, h.scheme, h.size, h.entered⟩

theorem offer_eq [Sink σ] (depth : Nat) (n : NodeId) (r : Record) (d : Dumper σ) :
    offer depth n r d =
      match Sink.record r d.sink with
      | .ok () sink => .ok () (handOver depth n r sink 1 d)
      | .error e sink => .error (.sink e) (handOver depth n r sink 0 d) := rfl

/-- A node that was entered is offered with its id. -/
theorem Ready.emit [Sink σ] (h : Ready a s order d) (hn : n ∈ order) (depth : Nat) (kind : RecordKind)
    (children : List DumpId) :
    emit depth n kind children d = offer depth n ⟨d.idAt n, kind, children⟩ d := by
  simp only [Dumper.emit, h.idOf hn]

theorem perform_leave [Sink σ] (h : Ready a s order d) (hnode : a.node? n = some node)
    (hn : n ∈ order) (hchildren : node.children n ⊆ order) (depth : Nat) :
    perform depth (.leave n) d =
      match Sink.record (node.recordIn s order n) d.sink with
      | .ok () sink => .ok (depth - node.spans)
          (handOver (depth - node.spans) n (node.recordIn s order n) sink 1 d)
      | .error e sink => .error (.sink e)
          (handOver (depth - node.spans) n (node.recordIn s order n) sink 0 d) := by
  have hnode' : d.arena.node? n = some node := by rw [h.arena, hnode]
  simp only [perform, hnode', h.recordAt hn hchildren, offer_eq]
  cases Sink.record (node.recordIn s order n) d.sink <;> rfl

/-! ## Many moves -/

theorem replay_append [Sink σ] (depth : Nat) (ms ms' : List Move) (d : Dumper σ) :
    replay depth (ms ++ ms') d =
      match replay depth ms d with
      | .error e d => .error e d
      | .ok depth d => replay depth ms' d := by
  induction ms generalizing depth d with
  | nil => rfl
  | cons m ms ih =>
    rw [List.cons_append, replay, replay]
    cases perform depth m d with
    | error e d => rfl
    | ok depth d => exact ih depth d

/-- The dumper `d'` is `d` after the moves `ms`, with every record taken. -/
structure After (a : Arena) (s : IdScheme) (order : List NodeId) (ms : List Move)
    (d d' : Dumper σ) : Prop where
  ready : Ready a s (order ++ entered ms) d'
  records : d'.records = d.records + (left ms).length
  offers : d'.offers = d.offers ++ a.offeredBy s order ms

theorem After.nil (h : Ready a s order d) : After a s order [] d d where
  ready := by simpa using h
  records := by simp
  offers := by simp [Arena.offeredBy, Arena.recordsIn]

theorem After.enter {d' : Dumper σ} {ms : List Move} {depth : Nat}
    (h : After a s (order ++ [n]) ms (arrive depth n node d) d') :
    After a s order (.enter n :: ms) d d' := by
  obtain ⟨-, -, -, hrecords, hoffers⟩ :=
    reportSpan_spec depth n node { d with registry := d.registry.enroll n }
  refine ⟨?_, ?_, ?_⟩
  · simpa using h.ready
  · rw [h.records, left_enter]
    exact congrArg (· + (left ms).length) hrecords
  · rw [h.offers, Arena.offeredBy_enter]
    exact congrArg (· ++ a.offeredBy s (order ++ [n]) ms) hoffers

theorem After.leave {d' : Dumper σ} {ms : List Move} {depth : Nat} {sink : σ}
    (hnode : a.node? n = some node) (hn : n ∈ order) (hchildren : node.children n ⊆ order)
    (h : After a s order ms (Dumper.handOver depth n (node.recordIn s order n) sink 1 d) d') :
    After a s order (.leave n :: ms) d d' := by
  refine ⟨h.ready, ?_, ?_⟩
  · rw [h.records, left_leave, List.length_cons]
    show d.records + 1 + (left ms).length = d.records + ((left ms).length + 1)
    omega
  · rw [h.offers, offers_handOver, Arena.offeredBy_leave hnode hn hchildren, List.append_assoc]
    rfl

/-- A node that can be left is there, and its children have been entered. -/
theorem Ready.exists_children_subset (h : Ready a s order d) (hn : n ∈ order)
    (hfollowed : a.followed n ⊆ order) :
    ∃ node, a.node? n = some node ∧ node.children n ⊆ order := by
  obtain ⟨node, hnode⟩ := h.exists_node n hn
  exact ⟨node, hnode, Arena.children_subset hnode hfollowed⟩

variable [Sink σ] {ms : List Move} {sink' : σ}

/-- If the sink takes the records of the nodes left, all moves are made. -/
theorem replay_ok (h : Ready a s order d) (hms : Orderly a order ms)
    (htake : Sink.takeAll ((a.offeredBy s order ms).map Prod.snd) d.sink = .ok () sink')
    (depth : Nat) :
    ∃ d', replay depth ms d = .ok (a.depthAfter depth ms) d' ∧ After a s order ms d d' ∧
      d'.sink = sink' := by
  induction ms generalizing order d depth with
  | nil =>
    cases htake
    exact ⟨d, rfl, After.nil h, rfl⟩
  | cons m ms ih =>
    cases m with
    | enter n =>
      obtain ⟨⟨hn, node, hnode⟩, hms⟩ := hms
      have hsink := (reportSpan_spec depth n node { d with registry := d.registry.enroll n }).2.2.1
      rw [Arena.offeredBy_enter, ← hsink] at htake
      obtain ⟨d', hreplay, hafter, hsink'⟩ := ih (h.arrive hnode hn depth) hms htake
        (depth + node.spans)
      refine ⟨d', ?_, hafter.enter, hsink'⟩
      rw [replay, perform_enter h hnode hn, Arena.depthAfter, hnode]
      exact hreplay
    | leave n =>
      obtain ⟨⟨hn, hfollowed⟩, hms⟩ := hms
      obtain ⟨node, hnode, hchildren⟩ := h.exists_children_subset hn hfollowed
      rw [Arena.offeredBy_leave hnode hn hchildren, List.map_cons, Sink.takeAll] at htake
      cases hrecord : Sink.record (node.recordIn s order n) d.sink with
      | error e sink => simp [hrecord] at htake
      | ok _ sink =>
        simp only [hrecord] at htake
        obtain ⟨d', hreplay, hafter, hsink'⟩ := ih
          (h.handOver (depth - node.spans) n (node.recordIn s order n) sink 1) hms htake
          (depth - node.spans)
        refine ⟨d', ?_, hafter.leave hnode hn hchildren, hsink'⟩
        rw [replay, perform_leave h hnode hn hchildren, hrecord, Arena.depthAfter, hnode]
        exact hreplay

/-- If the sink refuses a record, the replay stops there: the moves before are made, and the registry
    stays as they left it. -/
theorem replay_error {e : SinkError} (h : Ready a s order d) (hms : Orderly a order ms)
    (htake : Sink.takeAll ((a.offeredBy s order ms).map Prod.snd) d.sink = .error e sink')
    (depth : Nat) :
    ∃ before n after node d₁ depth₁, ms = before ++ .leave n :: after ∧ a.node? n = some node ∧
      After a s order before d d₁ ∧
      Sink.takeAll ((a.offeredBy s order before).map Prod.snd) d.sink = .ok () d₁.sink ∧
      Sink.record (node.recordIn s (order ++ entered before) n) d₁.sink = .error e sink' ∧
      replay depth ms d = .error (.sink e)
        (handOver depth₁ n (node.recordIn s (order ++ entered before) n) sink' 0 d₁) := by
  induction ms generalizing order d depth with
  | nil => cases htake
  | cons m ms ih =>
    cases m with
    | enter n =>
      obtain ⟨⟨hn, node, hnode⟩, hms⟩ := hms
      have hsink := (reportSpan_spec depth n node { d with registry := d.registry.enroll n }).2.2.1
      rw [Arena.offeredBy_enter, ← hsink] at htake
      obtain ⟨before, m, after, node', d₁, depth₁, rfl, hnode', hafter, htake₁, hrecord, hreplay⟩ :=
        ih (h.arrive hnode hn depth) hms htake (depth + node.spans)
      refine ⟨.enter n :: before, m, after, node', d₁, depth₁, rfl, hnode', hafter.enter, ?_, ?_, ?_⟩
      · rw [Arena.offeredBy_enter]
        exact hsink ▸ htake₁
      · simpa using hrecord
      · rw [replay, perform_enter h hnode hn]
        simpa using hreplay
    | leave n =>
      obtain ⟨⟨hn, hfollowed⟩, hms⟩ := hms
      obtain ⟨node, hnode, hchildren⟩ := h.exists_children_subset hn hfollowed
      rw [Arena.offeredBy_leave hnode hn hchildren, List.map_cons, Sink.takeAll] at htake
      cases hrecord : Sink.record (node.recordIn s order n) d.sink with
      | error e' sink =>
        simp only [hrecord] at htake
        cases htake
        refine ⟨[], n, ms, node, d, depth - node.spans, rfl, hnode, After.nil h, rfl, ?_, ?_⟩
        · simpa using hrecord
        · rw [replay, perform_leave h hnode hn hchildren, hrecord]
          simp
      | ok _ sink =>
        simp only [hrecord] at htake
        obtain ⟨before, m, after, node', d₁, depth₁, rfl, hnode', hafter, htake₁, hrecord', hreplay⟩ :=
          ih (h.handOver (depth - node.spans) n (node.recordIn s order n) sink 1) hms htake
            (depth - node.spans)
        refine ⟨.leave n :: before, m, after, node', d₁, depth₁, rfl, hnode',
          hafter.leave hnode hn hchildren, ?_, hrecord', ?_⟩
        · rw [Arena.offeredBy_leave hnode hn hchildren, List.map_cons, Sink.takeAll, hrecord]
          exact htake₁
        · rw [replay, perform_leave h hnode hn hchildren, hrecord]
          exact hreplay

/-- Moves that were all made had their records taken. -/
theorem after_of_replay_eq_ok {d' : Dumper σ} {depth depth' : Nat} (h : Ready a s order d)
    (hms : Orderly a order ms) (hreplay : replay depth ms d = .ok depth' d') :
    depth' = a.depthAfter depth ms ∧ After a s order ms d d' ∧
      Sink.takeAll ((a.offeredBy s order ms).map Prod.snd) d.sink = .ok () d'.sink := by
  cases htake : Sink.takeAll ((a.offeredBy s order ms).map Prod.snd) d.sink with
  | ok _ sink' =>
    obtain ⟨d'', hreplay', hafter, hsink⟩ := replay_ok h hms htake depth
    rw [hreplay] at hreplay'
    cases hreplay'
    exact ⟨rfl, hafter, by rw [hsink]⟩
  | error e sink' =>
    obtain ⟨_, _, _, _, _, _, _, _, _, _, _, hreplay'⟩ := replay_error h hms htake depth
    rw [hreplay] at hreplay'
    cases hreplay'

end Dumper

end AstDump
