import AstDump.Dump
import AstDump.Proofs.Replay
import Mathlib.Data.List.TakeWhile

/-!
# The traversal as a replay

A visit that follows edges by nested calls makes the moves of a depth-first tour, in order: for every
sink, refusing or not, its outcome is that of the replay of the tour.

Results:
* `Dumper.follow_visitAt`: edges of a sound arena followed by a dumper.
* `Dumper.visitAt_eq_replay`: one visit, with any bound on nesting that exceeds the number of nodes.
* `dumpRoots_eq`: a dump of roots.
* `dumpRoots_eq_stopOutside`: a dump of roots in or outside the arena.
-/

namespace AstDump

open Move Edge

namespace Dumper

variable {σ : Type}

/-- The outcome with its answer read off the dumper. -/
def Outcome.answering {α β : Type} (f : Dumper σ → β) : Outcome σ α → Outcome σ β
  | .ok _ d => .ok (f d) d
  | .error e d => .error e d

/-! ## Edges in order -/

theorem follow_cons_ok {visit : Edge → Dumper σ → Outcome σ DumpId} {e : Edge} {es : List Edge}
    {d d' : Dumper σ} {id : DumpId} (h : visit e d = .ok id d') :
    follow visit (e :: es) d =
      match follow visit es d' with
      | .error err d => .error err d
      | .ok ids d => .ok (if e.structural then id :: ids else ids) d := by
  cases hrest : follow visit es d' with
  | error err d => simp only [follow, h, hrest]
  | ok ids d => simp only [follow, h, hrest]

theorem follow_cons_error {visit : Edge → Dumper σ → Outcome σ DumpId} {e : Edge} {es : List Edge}
    {d d' : Dumper σ} {err : DumpError} (h : visit e d = .error err d') :
    follow visit (e :: es) d = .error err d' := by
  simp only [follow, h]

theorem follow_append (visit : Edge → Dumper σ → Outcome σ DumpId) (es es' : List Edge)
    (d : Dumper σ) :
    follow visit (es ++ es') d =
      match follow visit es d with
      | .error err d => .error err d
      | .ok ids d =>
        match follow visit es' d with
        | .error err d => .error err d
        | .ok ids' d => .ok (ids ++ ids') d := by
  induction es generalizing d with
  | nil =>
    simp only [List.nil_append, follow]
    cases follow visit es' d <;> rfl
  | cons e es ih =>
    cases hvisit : visit e d with
    | error err d₁ => simp only [List.cons_append, follow, hvisit]
    | ok id d₁ =>
      rw [List.cons_append, follow_cons_ok hvisit, follow_cons_ok hvisit, ih]
      cases follow visit es d₁ with
      | error err d₂ => rfl
      | ok ids d₂ =>
        simp only
        cases follow visit es' d₂ with
        | error err d₃ => rfl
        | ok ids' d₃ => cases e.structural <;> rfl

theorem childTargets_cons (e : Edge) (es : List Edge) :
    childTargets (e :: es) =
      if e.structural then e.target :: childTargets es else childTargets es := by
  unfold childTargets targets
  rw [List.filter_cons]
  split <;> rfl

variable [Sink σ] {a : Arena} {s : IdScheme} {order : List NodeId} {d : Dumper σ} {e : Edge}
  {node : Node}

/-- After a first visit, the answer for the rest stands with the id of the first, which does not
    change any more. -/
theorem follow_cons_eq {visit : Edge → Dumper σ → Outcome σ DumpId} {es : List Edge}
    {d₁ : Dumper σ} {ms : List Move} {depth : Nat} (h₁ : Ready a s order d₁)
    (hms : Orderly a order ms) (hmem : e.target ∈ order)
    (hvisit : visit e d = .ok (d₁.idAt e.target) d₁)
    (hrest : follow visit es d₁ =
      (replay depth ms d₁).answering fun d' => (childTargets es).map d'.idAt) :
    follow visit (e :: es) d =
      (replay depth ms d₁).answering fun d' => (childTargets (e :: es)).map d'.idAt := by
  rw [follow_cons_ok hvisit, hrest, childTargets_cons]
  cases hreplay : replay depth ms d₁ with
  | error err d' => rfl
  | ok depth' d' =>
    obtain ⟨-, hafter, -⟩ := after_of_replay_eq_ok h₁ hms hreplay
    have hid : d'.idAt e.target = d₁.idAt e.target := by
      rw [hafter.ready.idAt (List.mem_append_left _ hmem), h₁.idAt hmem,
        IdScheme.idIn_append hmem]
    simp only [Outcome.answering, ← hid]
    split <;> rfl

/-! ## One visit -/

omit [Sink σ] in
theorem Ready.locate_eq (h : Ready a s order d) (hlead : a.Leads e node) :
    locate d.arena e = .ok node := by
  rw [h.arena]
  exact Arena.locate_eq_ok_iff.2 hlead

/-- A node that was entered before is only looked up. -/
theorem visitAt_of_mem (h : Ready a s order d) (hlead : a.Leads e node) (hmem : e.target ∈ order)
    (bound depth : Nat) : visitAt (bound + 1) depth e d = .ok (d.idAt e.target) d := by
  have hcovers := h.covers (Arena.index_lt_of_node? hlead.1)
  rw [visitAt, h.locate_eq hlead]
  simp only [dif_pos hcovers, h.entered.enter_of_mem hcovers hmem]
  exact h.idOf hmem

/-- A node of the arena is expanded, wrapper or not. -/
theorem dump_eq (harena : d.arena = a) {n : NodeId} (hnode : a.node? n = some node)
    (visit : Nat → Edge → Dumper σ → Outcome σ DumpId) (depth : Nat) :
    dump visit depth n node d = expand visit depth n node d := by
  have hnode' : d.arena.node? n = some node := by rw [harena, hnode]
  cases node with
  | qualType u q => rfl
  | type t => simp only [dump, dispatch, hnode']
  | stmt c cs => simp only [dump, dispatch, hnode']
  | decl c cs => simp only [dump, dispatch, hnode']

/-- A node that was not entered before is entered and expanded, and then its id is looked up. -/
theorem visitAt_of_not_mem (h : Ready a s order d) (hlead : a.Leads e node)
    (hmem : e.target ∉ order) (bound depth : Nat) :
    visitAt (bound + 1) depth e d =
      match expand (visitAt bound) depth e.target node
        { d with registry := d.registry.enroll e.target } with
      | .error err d => .error err d
      | .ok () d => idOf e.target d := by
  have hcovers := h.covers (Arena.index_lt_of_node? hlead.1)
  have hdump := dump_eq (d := { d with registry := d.registry.enroll e.target }) h.arena hlead.1
    (visitAt bound) depth
  rw [visitAt, h.locate_eq hlead]
  cases hexpand : expand (visitAt bound) depth e.target node
      { d with registry := d.registry.enroll e.target } with
  | error err d' =>
    simp only [dif_pos hcovers, h.entered.enter_of_not_mem hcovers hmem, guarded_eq, hdump, hexpand]
  | ok _ d' =>
    simp only [dif_pos hcovers, h.entered.enter_of_not_mem hcovers hmem, guarded_eq, hdump, hexpand]

/-- A node of a sound arena opens its span, has its edges followed, and hands over its record. -/
theorem expand_eq (hs : a.Sound) (harena : d.arena = a) {n : NodeId} (hnode : a.node? n = some node)
    (visit : Nat → Edge → Dumper σ → Outcome σ DumpId) (depth : Nat) :
    expand visit depth n node d =
      match follow (visit (depth + node.spans)) (node.edges n) (reportSpan depth n node d) with
      | .error e d => .error e d
      | .ok children d => emit depth n node.recordKind children d := by
  cases node with
  | type t =>
    obtain ⟨name, hname, -⟩ := hs.classified hnode
    have hspan : spanOf d.arena n (.type t) = .ok (some (.typeSpan n t.shape.kind name)) := by
      rw [harena]
      simp only [spanOf, Arena.className?, hname]
    simp only [expand, reportSpan, hspan]
    rfl
  | qualType u q => rfl
  | stmt c cs => rfl
  | decl c cs => rfl

omit [Sink σ] in
/-- A bound on nesting that exceeds the number of nodes still to enter is not used up. -/
theorem Ready.exists_bound_eq_succ {bound : Nat} (h : Ready a s order d)
    (hbound : a.size < bound + order.length) : ∃ b, bound = b + 1 := by
  have := h.entered.length_le
  have := h.size
  exact ⟨bound - 1, by omega⟩

/-! ## The whole traversal -/

/-- A first visit enters its node, follows the node's edges and leaves the node. -/
theorem visitAt_eq_of_not_mem (hs : a.Sound) (h : Ready a s order d) (hlead : a.Leads e node)
    (hmem : e.target ∉ order) {inner : List Move} {bound depth : Nat}
    (inside : Tour a (order ++ [e.target]) (a.followed e.target) inner)
    (hfollow : follow (visitAt bound (depth + node.spans)) (node.edges e.target)
        (arrive depth e.target node d) =
      (replay (depth + node.spans) inner (arrive depth e.target node d)).answering fun d' =>
        (childTargets (node.edges e.target)).map d'.idAt) :
    visitAt (bound + 1) depth e d =
      (replay depth (.enter e.target :: (inner ++ [.leave e.target])) d).answering
        (·.idAt e.target) := by
  have hnode := hlead.1
  have hready := h.arrive hnode hmem depth
  have harrive : reportSpan depth e.target node { d with registry := d.registry.enroll e.target } =
    arrive depth e.target node d := rfl
  rw [visitAt_of_not_mem h hlead hmem,
    expand_eq (d := { d with registry := d.registry.enroll e.target }) hs h.arena hnode, harrive,
    hfollow, replay, perform_enter h hnode hmem]
  simp only [replay_append]
  cases hreplay : replay (depth + node.spans) inner (arrive depth e.target node d) with
  | error err d' => rfl
  | ok depth' d' =>
    obtain ⟨rfl, hafter, -⟩ := after_of_replay_eq_ok hready inside.orderly hreplay
    rw [inside.depthAfter]
    -- The ids answered on the way are those at the end.
    have htarget : e.target ∈ order ++ [e.target] ++ entered inner := by simp
    have hchildren : node.children e.target ⊆ order ++ [e.target] ++ entered inner :=
      Arena.children_subset hnode inside.subset
    have hrecord : (⟨d'.idAt e.target, node.recordKind,
        (childTargets (node.edges e.target)).map d'.idAt⟩ : Record) =
          node.recordIn s (order ++ [e.target] ++ entered inner) e.target := by
      rw [Node.childTargets_edges, ← hafter.ready.recordAt htarget hchildren, recordAt]
    simp only [Outcome.answering, hafter.ready.emit htarget, hrecord, offer_eq, replay,
      perform_leave hafter.ready hnode htarget hchildren, Nat.add_sub_cancel]
    cases Sink.record (node.recordIn s (order ++ [e.target] ++ entered inner) e.target) d'.sink with
    | error err sink => rfl
    | ok _ sink =>
      exact (hafter.ready.handOver depth e.target
        (node.recordIn s (order ++ [e.target] ++ entered inner) e.target) sink 1).idOf htarget

/-- **Main result.** Following edges of a sound arena replays the tour of their targets. The bound on
    nesting never matters: a nested visit of a new node has one more node entered before it. -/
theorem follow_visitAt (hs : a.Sound) {ns : List NodeId} {ms : List Move}
    (tour : Tour a order ns ms) {bound depth : Nat} {es : List Edge} (h : Ready a s order d)
    (hes : targets es = ns) (hlead : ∀ e ∈ es, ∃ node, a.Leads e node)
    (hbound : a.size < bound + order.length) :
    follow (visitAt bound depth) es d =
      (replay depth ms d).answering fun d' => (childTargets es).map d'.idAt := by
  induction tour generalizing bound depth es d with
  | done seen =>
    obtain rfl : es = [] := List.map_eq_nil_iff.1 hes
    rfl
  | @pass seen ns n ms hn rest ih =>
    obtain ⟨e, es, rfl, rfl, hns⟩ := List.map_eq_cons_iff.1 hes
    obtain ⟨bound, rfl⟩ := h.exists_bound_eq_succ hbound
    obtain ⟨node, hnode⟩ := hlead e List.mem_cons_self
    exact follow_cons_eq h rest.orderly hn (visitAt_of_mem h hnode hn bound depth)
      (ih h hns (fun e he => hlead e (List.mem_cons_of_mem _ he)) hbound)
  | @visit seen ns n node inner ms hn hnode inside rest ihin ihrest =>
    obtain ⟨e, es, rfl, rfl, hns⟩ := List.map_eq_cons_iff.1 hes
    obtain ⟨bound, rfl⟩ := h.exists_bound_eq_succ hbound
    have hlead' : a.Leads e node := by
      obtain ⟨node', hnode', hvia⟩ := hlead e List.mem_cons_self
      obtain rfl : node' = node := by simpa [hnode'] using hnode
      exact ⟨hnode', hvia⟩
    have hfollow : follow (visitAt bound (depth + node.spans)) (node.edges e.target)
        (arrive depth e.target node d) =
          (replay (depth + node.spans) inner (arrive depth e.target node d)).answering fun d' =>
            (childTargets (node.edges e.target)).map d'.idAt :=
      ihin (h.arrive hnode hn depth) (by rw [Node.targets_edges, Arena.followed_eq hnode])
        (fun e he => hs.leads hnode he) (by simp; omega)
    have hvisit := visitAt_eq_of_not_mem hs h hlead' hn inside hfollow
    rw [show Move.enter e.target :: (inner ++ .leave e.target :: ms) =
      .enter e.target :: (inner ++ [.leave e.target]) ++ ms by simp, replay_append]
    have horderly : Orderly a seen (.enter e.target :: (inner ++ [.leave e.target])) :=
      (Tour.visit hn hnode inside (.done _)).orderly
    have hdepth := (Tour.visit hn hnode inside (.done _)).depthAfter depth
    cases hreplay : replay depth (.enter e.target :: (inner ++ [.leave e.target])) d with
    | error err d' =>
      rw [hreplay] at hvisit
      rw [follow_cons_error hvisit]
      rfl
    | ok depth' d' =>
      obtain ⟨rfl, hafter, -⟩ := after_of_replay_eq_ok h horderly hreplay
      rw [hreplay] at hvisit
      rw [hdepth]
      have hready : Ready a s (seen ++ [e.target] ++ entered inner) d' := by
        simpa using hafter.ready
      exact follow_cons_eq hready rest.orderly (by simp) hvisit
        (ihrest hready hns (fun e he => hlead e (List.mem_cons_of_mem _ he)) (by simp; omega))

/-! ## Calls from outside -/

/-- One call to a dumper: the node to visit, and the visitor if one is asked for. -/
structure Call where
  via : Option Visitor
  node : NodeId
  deriving DecidableEq, Repr

/-- A call as a step to a child. -/
def Call.edge (c : Call) : Edge := ⟨c.node, c.via, true⟩

/-- The call names a node of the arena that the visitor serves. -/
def Call.Fits (a : Arena) (c : Call) : Prop := ∃ node, a.Leads c.edge node

instance (a : Arena) (c : Call) : Decidable (c.Fits a) :=
  match h : locate a c.edge with
  | .ok node => .isTrue ⟨node, Arena.locate_eq_ok_iff.1 h⟩
  | .error _ => .isFalse fun ⟨node, hlead⟩ => by
    rw [Arena.locate_eq_ok_iff.2 hlead] at h
    cases h

/-- Makes a call. -/
def call (d : Dumper σ) (c : Call) : Outcome σ DumpId :=
  match c.via with
  | none => d.visit c.node
  | some v => d.visitVia v c.node

omit [Sink σ] in
/-- The dumper that an outcome leaves, be it an answer or an error. -/
def Outcome.after {α : Type} : Outcome σ α → Dumper σ
  | .ok _ d => d
  | .error _ d => d

/-- The dumper after calls, whatever they answered. -/
def afterCalls (d : Dumper σ) (calls : List Call) : Dumper σ :=
  calls.foldl (fun d c => (d.call c).after) d

/-- A call is a visit with the bound on nesting that the dumper sets itself. -/
theorem Ready.call_eq (h : Ready a s order d) (c : Call) :
    d.call c = visitAt (a.size + 1) 0 c.edge d := by
  rw [← h.arena]
  obtain ⟨via, n⟩ := c
  cases via <;> rfl

/-- One visit of a sound arena replays a tour of its node, whatever bound on nesting is set. -/
theorem visitAt_eq_replay (hs : a.Sound) (h : Ready a s order d) {ms : List Move}
    (tour : Tour a order [e.target] ms) (hlead : a.Leads e node) {bound depth : Nat}
    (hbound : a.size < bound) :
    visitAt bound depth e d = (replay depth ms d).answering (·.idAt e.target) := by
  obtain ⟨bound, rfl⟩ : ∃ b, bound = b + 1 := ⟨bound - 1, by omega⟩
  cases tour with
  | pass hn rest =>
    cases rest
    exact visitAt_of_mem h hlead hn bound depth
  | @visit _ _ _ node' inner _ hn hnode inside rest =>
    cases rest
    obtain rfl : node = node' := by simpa [hlead.1] using hnode
    exact visitAt_eq_of_not_mem hs h hlead hn inside
      (follow_visitAt hs inside (h.arrive hnode hn depth)
        (by rw [Node.targets_edges, Arena.followed_eq hnode]) (fun e he => hs.leads hnode he)
        (by simp; omega))

omit [Sink σ] in
/-- From nodes of the arena there is a tour past the nodes entered so far. -/
theorem Ready.exists_tour (h : Ready a s order d) (hs : a.Sound) {ns : List NodeId}
    (hns : ∀ n ∈ ns, n.index < a.size) : ∃ ms, Tour a order ns ms := by
  refine hs.exists_tour ns hns h.entered.nodup fun n hn => ?_
  rw [← h.size]
  exact h.entered.covers n hn

/-- A call that fits makes the moves of a tour. -/
theorem exists_call_eq_replay (hs : a.Sound) (h : Ready a s order d) {c : Call} (hc : c.Fits a) :
    ∃ ms, Tour a order [c.node] ms ∧
      ∀ bound, a.size < bound →
        visitAt bound 0 c.edge d = (replay 0 ms d).answering (·.idAt c.node) := by
  obtain ⟨node, hlead⟩ := hc
  have hlt : ∀ n ∈ [c.node], n.index < a.size := by
    intro n hn
    rw [List.mem_singleton.1 hn]
    exact Arena.index_lt_of_node? hlead.1
  obtain ⟨ms, tour⟩ := h.exists_tour hs hlt
  exact ⟨ms, tour, fun bound hbound => visitAt_eq_replay hs h tour hlead hbound⟩

end Dumper

/-! ## A dump of roots -/

section Roots

variable {σ : Type} [Sink σ]

/-- The dumper with which a dump of roots begins. -/
def Dumper.opened (a : Arena) (roots : List NodeId) (sink : σ) (config : Config) : Dumper σ :=
  { new a sink config with log := #[⟨0, .rootsSpan a.size roots.length⟩] }

/-- How a dump of roots ends after its moves. -/
def Run.conclude (roots : List NodeId) : Dumper.Outcome σ Nat → Run σ
  | .error e d => ⟨.error e, d⟩
  | .ok _ d =>
    ⟨.ok ⟨roots.map d.idAt, d.records⟩,
      { d with log := d.log.push ⟨1, .complete d.records d.registry.assigned⟩ }⟩

theorem Dumper.ready_opened {a : Arena} (hs : a.Sound) (roots : List NodeId) (sink : σ)
    (config : Config) : Ready a config.idScheme [] (opened a roots sink config) :=
  have h := ready_new hs sink config
  ⟨h.arena, h.scheme, h.size, h.entered⟩

/-- A dump of roots follows the steps to them. -/
theorem dumpRoots_eq_follow (a : Arena) (roots : List NodeId) (sink : σ) (config : Config) :
    dumpRoots a roots sink config =
      match Dumper.follow (Dumper.visitAt (a.size + 1) 1) (roots.map child)
        (Dumper.opened a roots sink config) with
      | .error e d => ⟨.error e, d⟩
      | .ok ids d => ⟨.ok ⟨ids, d.records⟩,
          { d with log := d.log.push ⟨1, .complete d.records d.registry.assigned⟩ }⟩ := rfl

/-- Roots of the arena, followed with the bound on nesting that a dump sets. -/
theorem Dumper.follow_roots {a : Arena} (hs : a.Sound) {roots : List NodeId} {ms : List Move}
    {s : IdScheme} {d : Dumper σ} (h : Ready a s [] d) (tour : Tour a [] roots ms)
    (hroots : ∀ n ∈ roots, n.index < a.size) :
    follow (visitAt (a.size + 1) 1) (roots.map child) d =
      (replay 1 ms d).answering fun d => roots.map d.idAt := by
  have hlead : ∀ e ∈ roots.map child, ∃ node, a.Leads e node := by
    intro e he
    obtain ⟨n, hn, rfl⟩ := List.mem_map.1 he
    obtain ⟨node, hnode⟩ := Arena.exists_node_of_lt (hroots n hn)
    exact ⟨node, hnode, by simp [child]⟩
  have hbound : a.size < a.size + 1 + ([] : List NodeId).length := Nat.lt_succ_self _
  rw [follow_visitAt hs tour h (targets_child roots) hlead hbound, childTargets_child]

/-- A dump of roots replays their tour, whatever the sink takes or refuses. -/
theorem dumpRoots_eq {a : Arena} (hs : a.Sound) {roots : List NodeId} {ms : List Move}
    (tour : Tour a [] roots ms) (hroots : ∀ n ∈ roots, n.index < a.size) (sink : σ)
    (config : Config) :
    dumpRoots a roots sink config =
      Run.conclude roots (Dumper.replay 1 ms (Dumper.opened a roots sink config)) := by
  rw [dumpRoots_eq_follow,
    Dumper.follow_roots hs (Dumper.ready_opened hs roots sink config) tour hroots]
  cases Dumper.replay 1 ms (Dumper.opened a roots sink config) with
  | error e d => rfl
  | ok depth d => rfl

theorem Arena.index_lt_of_mem_takeWhile {a : Arena} {roots : List NodeId} {n : NodeId}
    (h : n ∈ roots.takeWhile a.contains) : n.index < a.size := by
  have hcontains : a.contains n := List.mem_takeWhile_imp h
  exact of_decide_eq_true hcontains

/-- If no root is outside the arena, the roots before the first outside are all roots. -/
theorem Arena.takeWhile_contains_eq_self {a : Arena} {roots : List NodeId}
    (h : roots.find? (!a.contains ·) = none) : roots.takeWhile a.contains = roots :=
  List.takeWhile_eq_self_iff.2 fun n hn => by simpa using List.find?_eq_none.1 h n hn

theorem Dumper.Ready.visitAt_outside {a : Arena} {s : IdScheme} {order : List NodeId}
    {d : Dumper σ} (h : Ready a s order d) {n : NodeId} (hn : a.contains n = false)
    (bound depth : Nat) :
    visitAt (bound + 1) depth (child n) d = .error (.rootOutOfRange n a.size) d := by
  have hnode : d.arena.node? n = none := by
    rw [h.arena]
    exact Array.getElem?_eq_none (Nat.le_of_not_lt (of_decide_eq_false hn))
  rw [visitAt, locate, show (child n).target = n from rfl, hnode, h.arena]

/-- How a dump of roots ends after the moves for the roots before the first outside the arena. -/
def Run.stopOutside (a : Arena) (roots : List NodeId) : Dumper.Outcome σ Nat → Run σ
  | .error e d => ⟨.error e, d⟩
  | .ok depth d =>
    match roots.find? (!a.contains ·) with
    | some n => ⟨.error (.rootOutOfRange n a.size), d⟩
    | none => .conclude roots (.ok depth d)

/-- A dump of any roots replays the tour of those before the first outside the arena. -/
theorem dumpRoots_eq_stopOutside {a : Arena} (hs : a.Sound) {roots : List NodeId} {ms : List Move}
    (tour : Tour a [] (roots.takeWhile a.contains) ms) (sink : σ) (config : Config) :
    dumpRoots a roots sink config =
      Run.stopOutside a roots (Dumper.replay 1 ms (Dumper.opened a roots sink config)) := by
  have hlt : ∀ n ∈ roots.takeWhile a.contains, n.index < a.size := fun n hn =>
    Arena.index_lt_of_mem_takeWhile hn
  cases hfind : roots.find? (!a.contains ·) with
  | none =>
    rw [Arena.takeWhile_contains_eq_self hfind] at tour hlt
    rw [dumpRoots_eq hs tour hlt]
    cases Dumper.replay 1 ms (Dumper.opened a roots sink config) with
    | error e d => rfl
    | ok depth d => simp only [Run.stopOutside, hfind]
  | some n =>
    -- The roots before `n` are replayed, and then `n` is not found.
    obtain ⟨hn, inside, rest, hroots, hinside⟩ := List.find?_eq_some_iff_append.1 hfind
    simp only [Bool.not_not, Bool.not_eq_true'] at hn hinside
    have hbefore : roots.takeWhile a.contains = inside := by
      rw [hroots, List.takeWhile_append_of_pos hinside, List.takeWhile_cons_of_neg (by simp [hn]),
        List.append_nil]
    rw [hbefore] at tour hlt
    have hready := Dumper.ready_opened hs roots sink config
    rw [dumpRoots_eq_follow, hroots, List.map_append, Dumper.follow_append, ← hroots,
      Dumper.follow_roots hs hready tour hlt]
    cases hreplay : Dumper.replay 1 ms (Dumper.opened a roots sink config) with
    | error e d => rfl
    | ok depth d =>
      obtain ⟨-, hafter, -⟩ := Dumper.after_of_replay_eq_ok hready tour.orderly hreplay
      have hvisit := hafter.ready.visitAt_outside hn a.size 1
      simp only [Dumper.Outcome.answering, List.map_cons, Dumper.follow_cons_error hvisit,
        Run.stopOutside, hfind]

end Roots

end AstDump
