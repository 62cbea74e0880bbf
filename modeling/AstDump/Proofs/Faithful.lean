import AstDump.Proofs.ExactlyOnce

/-!
# Records tell what their nodes are

At the end of a dump each record shows the id that the registry has for its node, the kind that the
node's class name stands for, and the ids that the registry has for the node's children. A child may
have been in progress when its id was collected; the id is still the one at the end.

Results:
* `Dumper.Ready.describes`, `Dumper.Complete.describes`: one record, and those of a complete dumper.
* `exists_dumpRoots_describes`: the records of a dump of roots.
-/

namespace AstDump

open Move

/-- The kind of the records of nodes like `node`. That of a type goes by the name of its class. -/
def Arena.kindOf? (a : Arena) (node : Node) : Option RecordKind :=
  match node with
  | .type t => (a.className? t.className).map fun name => .type (TypeKind.ofClass name)
  | .qualType _ _ => some .qualType
  | .stmt _ _ => some .stmt
  | .decl _ _ => some .decl

/-- The kind by the class name is the kind by the shape. -/
theorem Arena.Sound.kindOf?_eq {a : Arena} (hs : a.Sound) {n : NodeId} {node : Node}
    (hnode : a.node? n = some node) : a.kindOf? node = some node.recordKind := by
  cases node with
  | type t =>
    obtain ⟨name, hname, hkind⟩ := hs.classified hnode
    rw [kindOf?, className?, hname, Option.map_some, hkind]
    rfl
  | qualType u q => rfl
  | stmt c cs => rfl
  | decl c cs => rfl

/-- The record says of node `n` of the arena what the registry and the node have: the id, the kind, and
    the ids of the children, in order and with repetitions. -/
structure Record.Describes (r : Record) (a : Arena) (registry : Registry) (n : NodeId) : Prop where
  id_eq : registry.get? n = some r.id
  kind_eq : (a.node? n).bind a.kindOf? = some r.kind
  children_eq : (a.node? n).map (fun node => (node.children n).map registry.get?) =
    some (r.children.map some)

/-- The record of a node describes it, once the node and its children were entered. -/
theorem Dumper.Ready.describes {σ : Type} {a : Arena} {s : IdScheme} {order : List NodeId}
    {d : Dumper σ} (h : Ready a s order d) (hs : a.Sound) {n : NodeId} {node : Node}
    (hnode : a.node? n = some node) (hn : n ∈ order) (hchildren : node.children n ⊆ order) :
    (node.recordIn s order n).Describes a d.registry n := by
  refine ⟨?_, ?_, ?_⟩
  · rw [h.get?_eq, if_pos hn]
    rfl
  · rw [hnode, Option.bind_some, hs.kindOf?_eq hnode]
    rfl
  · have hids : ∀ m ∈ node.children n, d.registry.get? m = some (s.idIn order m) := by
      intro m hm
      rw [h.get?_eq, if_pos (hchildren hm)]
    rw [hnode, Option.map_some, List.map_congr_left hids, Node.recordIn, List.map_map]
    rfl

/-- Every record of a complete dumper describes its node. -/
theorem Dumper.Complete.describes {σ : Type} [Sink σ] {a : Arena} {s : IdScheme} {sink₀ : σ}
    {order out : List NodeId} {d : Dumper σ} (h : Complete a s sink₀ order out d) (hs : a.Sound)
    {n : NodeId} {r : Record} (hr : (n, r) ∈ d.offers) : r.Describes a d.registry n := by
  rw [h.offers] at hr
  obtain ⟨hn, node, hnode, rfl⟩ := Arena.mem_recordsIn.1 hr
  have hmem := h.perm.mem_iff.1 hn
  exact h.ready.describes hs hnode hmem (Arena.children_subset hnode (h.closed n hmem))

/-- **Main result.** A dump of roots of an arena that `finish` returned, with any settings and any
    sink that takes records with different ids, succeeds. Each node that can be reached from the roots
    has one record, and the record describes it by the registry at the end. -/
theorem exists_dumpRoots_describes {σ : Type} [Sink σ] {a : Arena} (ha : a.Finished) (sink : σ)
    (config : Config) (hsink : Sink.TakesDistinct (Sink.beginRun config.runId sink))
    (roots : List NodeId) (hroots : ∀ n ∈ roots, a.contains n) :
    ∃ summary d, dumpRoots a roots sink config = ⟨.ok summary, d⟩ ∧
      Dumper.Holds a roots (Sink.beginRun config.runId sink) d ∧
      ∀ n r, (n, r) ∈ d.offers → r.Describes a d.registry n := by
  have hs := ha.sound
  obtain ⟨ms, d, tour, -, hdump, hcomplete⟩ :=
    exists_dumpRoots_complete hs sink config hsink hroots
  have hmem : ∀ n, n ∈ entered ms ↔ a.ReachedFrom roots n := by
    intro n
    have hiff := tour.mem_iff (n := n) (by simp)
    simpa using hiff
  exact ⟨_, d, hdump, hcomplete.holds hs hmem, fun n r hr => hcomplete.describes hs hr⟩

/-- The wrapper around a pointer to another name. The record of the pointer lists its desugared form and
    then its pointee, that of the desugared form not the form itself, that of the name the record type, and
    that of the record type nothing. -/
theorem exists_dumpRoots_describes_aliasedPointer :
    ∃ summary d, dumpRoots Arena.aliasedPointer [⟨2⟩, ⟨2⟩] MemorySink.empty {} = ⟨.ok summary, d⟩ ∧
      Dumper.Holds Arena.aliasedPointer [⟨2⟩, ⟨2⟩] MemorySink.empty d ∧
      (∀ n r, (n, r) ∈ d.offers → r.Describes Arena.aliasedPointer d.registry n) ∧
      d.offers = [(⟨1⟩, ⟨⟨6⟩, .decl, [⟨0⟩]⟩), (⟨0⟩, ⟨⟨5⟩, .decl, [⟨6⟩]⟩),
        (⟨8⟩, ⟨⟨4⟩, .type .tag, []⟩), (⟨6⟩, ⟨⟨3⟩, .qualType, [⟨4⟩]⟩),
        (⟨4⟩, ⟨⟨2⟩, .type .pointer, [⟨3⟩]⟩), (⟨7⟩, ⟨⟨8⟩, .type .generic, [⟨4⟩]⟩),
        (⟨5⟩, ⟨⟨7⟩, .qualType, [⟨8⟩]⟩), (⟨3⟩, ⟨⟨1⟩, .type .pointer, [⟨2⟩, ⟨7⟩]⟩),
        (⟨2⟩, ⟨⟨0⟩, .qualType, [⟨1⟩]⟩)] := by
  obtain ⟨summary, d, hdump, hholds, hdescribes⟩ := exists_dumpRoots_describes
    Arena.finished_aliasedPointer MemorySink.empty {} MemorySink.takesDistinct_empty [⟨2⟩, ⟨2⟩]
    (by decide)
  have hoffers : (dumpRoots Arena.aliasedPointer [⟨2⟩, ⟨2⟩] MemorySink.empty {}).dumper.offers =
      [(⟨1⟩, ⟨⟨6⟩, .decl, [⟨0⟩]⟩), (⟨0⟩, ⟨⟨5⟩, .decl, [⟨6⟩]⟩),
        (⟨8⟩, ⟨⟨4⟩, .type .tag, []⟩), (⟨6⟩, ⟨⟨3⟩, .qualType, [⟨4⟩]⟩),
        (⟨4⟩, ⟨⟨2⟩, .type .pointer, [⟨3⟩]⟩), (⟨7⟩, ⟨⟨8⟩, .type .generic, [⟨4⟩]⟩),
        (⟨5⟩, ⟨⟨7⟩, .qualType, [⟨8⟩]⟩), (⟨3⟩, ⟨⟨1⟩, .type .pointer, [⟨2⟩, ⟨7⟩]⟩),
        (⟨2⟩, ⟨⟨0⟩, .qualType, [⟨1⟩]⟩)] := by
    decide +kernel
  rw [hdump] at hoffers
  exact ⟨summary, d, hdump, hholds, hdescribes, hoffers⟩

end AstDump
