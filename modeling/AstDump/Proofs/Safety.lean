import AstDump.Proofs.Traversal
import AstDump.Sink.Quota

/-!
# Checked arenas are safe to walk

A call to a dumper over an arena that `finish` returned can end in four ways only. It answers an id;
or its sink refuses a record; or the node named in the call is outside the arena; or that node is of a
category that the visitor named in the call does not serve. In the last two cases nothing happened.
No call runs out of its bound on nesting, looks outside a table, or meets a node without a rule, and
this stays so after calls that failed.

Results:
* `Dumper.ends_visitAt`: the four ways in which a call can end.
* `Dumper.exists_ready_afterCalls`: what every sequence of calls keeps.
* `Dumper.call_safe`: both together, with the reason: every edge was checked.
-/

namespace AstDump

open Move Edge

namespace Dumper

variable {σ : Type} [Sink σ] {a : Arena} {s : IdScheme} {order : List NodeId} {d : Dumper σ}

/-! ## Calls that do not fit -/

omit [Sink σ] in
theorem locate_eq_error {e : Edge} {err : DumpError} (h : locate a e = .error err) :
    (a.node? e.target = none ∧ err = .rootOutOfRange e.target a.size) ∨
      ∃ v node, e.via = some v ∧ a.node? e.target = some node ∧ node.category.visitor ≠ v ∧
        err = .categoryMismatch e.target v.name node.category := by
  unfold locate at h
  split at h
  · rename_i hnode
    cases h
    exact .inl ⟨hnode, rfl⟩
  · rename_i node hnode
    split at h
    · cases h
    · rename_i v hvia
      split at h
      · cases h
      · rename_i hne
        cases h
        exact .inr ⟨v, node, hvia, hnode, hne, rfl⟩

theorem visitAt_of_locate_eq_error {e : Edge} {err : DumpError}
    (h : locate d.arena e = .error err) {bound : Nat} (hbound : 0 < bound) (depth : Nat) :
    visitAt bound depth e d = .error err d := by
  obtain ⟨bound, rfl⟩ : ∃ b, bound = b + 1 := ⟨bound - 1, by omega⟩
  rw [visitAt, h]

/-! ## The ways a call can end -/

/-- The ways in which a call `c` to the dumper `d` over the arena `a` can end. It answers the id that
    its node has then; or the sink takes some records and refuses the next; or nothing happens, because
    the node is outside the arena or the visitor does not serve its category. -/
inductive Ends (a : Arena) (d : Dumper σ) (c : Call) : Outcome σ DumpId → Prop
  | answered (id : DumpId) (d' : Dumper σ) (hc : c.Fits a)
      (hid : d'.registry.get? c.node = some id) : Ends a d c (.ok id d')
  | refused (rs : List Record) (r : Record) (sink : σ) (e : SinkError) (d' : Dumper σ)
      (hc : c.Fits a) (htake : Sink.takeAll rs d.sink = .ok () sink)
      (hrefuse : Sink.record r sink = .error e d'.sink) : Ends a d c (.error (.sink e) d')
  | outOfRange (h : a.contains c.node = false) :
      Ends a d c (.error (.rootOutOfRange c.node a.size) d)
  | mismatch (v : Visitor) (found : Category) (hvia : c.via = some v)
      (hfound : a.category? c.node = some found) (hne : found.visitor ≠ v) :
      Ends a d c (.error (.categoryMismatch c.node v.name found) d)

/-- A call ends in one of these ways, whatever bound on nesting is set, and leaves a dumper that is
    ready for the next call. -/
theorem ends_visitAt (hs : a.Sound) (h : Ready a s order d) (c : Call) {bound : Nat}
    (hbound : a.size < bound) :
    Ends a d c (visitAt bound 0 c.edge d) ∧
      ∃ order', Ready a s order' (visitAt bound 0 c.edge d).after := by
  cases hlocate : locate a c.edge with
  | ok node =>
    have hc : c.Fits a := ⟨node, Arena.locate_eq_ok_iff.1 hlocate⟩
    obtain ⟨ms, tour, heq⟩ := exists_call_eq_replay hs h hc
    rw [heq bound hbound]
    cases htake : Sink.takeAll ((a.offeredBy s order ms).map Prod.snd) d.sink with
    | ok _ sink =>
      obtain ⟨d', hreplay, hafter, -⟩ := replay_ok h tour.orderly htake 0
      have hid := hafter.ready.get?_eq_idAt (tour.subset List.mem_cons_self)
      rw [hreplay]
      exact ⟨.answered _ d' hc hid, _, hafter.ready⟩
    | error e sink =>
      obtain ⟨before, n, after, node', d₁, depth₁, -, -, hafter, htake₁, hrefuse, hreplay⟩ :=
        replay_error h tour.orderly htake 0
      rw [hreplay]
      exact ⟨.refused _ _ d₁.sink e _ hc htake₁ hrefuse, _, hafter.ready.handOver _ _ _ _ _⟩
  | error err =>
    have hpos : 0 < bound := by omega
    rw [visitAt_of_locate_eq_error (h.arena ▸ hlocate) hpos]
    refine ⟨?_, order, h⟩
    obtain ⟨hnode, rfl⟩ | ⟨v, node, hvia, hnode, hne, rfl⟩ := locate_eq_error hlocate
    · refine .outOfRange ?_
      rw [Arena.contains, decide_eq_false_iff_not]
      intro hlt
      obtain ⟨node, hsome⟩ := Arena.exists_node_of_lt hlt
      rw [show a.node? c.node = none from hnode] at hsome
      cases hsome
    · exact .mismatch v node.category hvia (congrArg (Option.map Node.category) hnode) hne

/-- After any calls, answered or not, a dumper is ready for the next. -/
theorem exists_ready_afterCalls (hs : a.Sound) (h : Ready a s order d) (calls : List Call) :
    ∃ order', Ready a s order' (d.afterCalls calls) := by
  induction calls generalizing order d with
  | nil => exact ⟨order, h⟩
  | cons c calls ih =>
    obtain ⟨-, order', h'⟩ := ends_visitAt hs h c (Nat.lt_succ_self a.size)
    rw [← h.call_eq] at h'
    exact ih h'

/-- **Main result.** Over an arena that `finish` returned, and after any calls to the dumper, answered
    or not, with any sink: a call ends in one of the four ways of `Ends`; more room for nesting would
    not change its outcome; and each edge that a visit follows was checked by `finish` as a reference,
    with a category that the edge's visitor serves, and leads to a node of that category. -/
theorem call_safe (ha : a.Finished) (sink : σ) (config : Config) (calls : List Call) (c : Call) :
    Ends a ((new a sink config).afterCalls calls) c (((new a sink config).afterCalls calls).call c) ∧
      (∀ bound, a.size < bound →
        visitAt bound 0 c.edge ((new a sink config).afterCalls calls) =
          ((new a sink config).afterCalls calls).call c) ∧
      ∀ n node, a.node? n = some node → ∀ e ∈ node.edges n,
        (∃ r ∈ node.references, r.Covers e) ∧ ∃ target, a.Leads e target := by
  have hs := ha.sound
  obtain ⟨order, h⟩ := exists_ready_afterCalls hs (ready_new hs sink config) calls
  refine ⟨?_, ?_, ?_⟩
  · rw [h.call_eq]
    exact (ends_visitAt hs h c (Nat.lt_succ_self _)).1
  · intro bound hbound
    rw [h.call_eq]
    cases hlocate : locate a c.edge with
    | ok node =>
      obtain ⟨ms, -, heq⟩ := exists_call_eq_replay hs h ⟨node, Arena.locate_eq_ok_iff.1 hlocate⟩
      rw [heq bound hbound, heq (a.size + 1) (Nat.lt_succ_self _)]
    | error err =>
      have hlocate' : locate ((new a sink config).afterCalls calls).arena c.edge = .error err := by
        rw [h.arena, hlocate]
      rw [visitAt_of_locate_eq_error hlocate' (by omega),
        visitAt_of_locate_eq_error hlocate' (by omega)]
  · intro n node hnode e he
    exact ⟨node.covered n e he, hs.leads hnode he⟩

/-- A dumper over the linked record whose sink takes two records and refuses the third, which ended a
    first call. -/
def stoppedLinkedRecord : Dumper QuotaSink :=
  (new Arena.linkedRecord { left := 2 } {}).afterCalls [⟨none, ⟨0⟩⟩]

theorem call_safe_linkedRecord :
    Ends Arena.linkedRecord stoppedLinkedRecord ⟨some .type, ⟨7⟩⟩
      (stoppedLinkedRecord.call ⟨some .type, ⟨7⟩⟩) := by
  obtain ⟨hends, -⟩ :=
    call_safe Arena.finished_linkedRecord ({ left := 2 } : QuotaSink) {} [⟨none, ⟨0⟩⟩]
      ⟨some .type, ⟨7⟩⟩
  exact hends

end Dumper

end AstDump
