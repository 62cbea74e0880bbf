import AstDump.Proofs.Complete
import Mathlib.Data.Finset.Lattice.Lemmas

/-!
# The traversal as a machine with a stack

Depth-first search without nested calls. The machine keeps the set of nodes visited and a stack of
frames, each a node with what it still leads to. One step looks at the next node of the top frame, or
at the next root if the stack is empty: a visited node is skipped, any other is pushed, and a frame
with nothing left is popped.

A dump of roots makes the machine's moves: it enters a node in its registry where the machine pushes
one, and hands over a record where the machine pops one.

Results:
* `Search.steps_of_tour`: the machine makes the moves of a tour, whatever lies below on the stack.
* `Search.halts_of_tour`: the machine halts, with the moves of the tour of the roots.
* `exists_halts_dumpRoots`: a dump of roots makes the machine's moves, and numbers nodes by them.
-/

namespace AstDump

open Move

/-! ## The machine -/

/-- A node on the stack, with what it leads to and was not looked at yet, in order. -/
structure Frame where
  node : NodeId
  remaining : List NodeId
  deriving DecidableEq, Repr

/-- A state of the machine: the roots not looked at yet, in order; the nodes pushed so far; the frames,
    the top one first; and the pushes and pops so far. A node is entered by a push and left by a pop. -/
structure Search where
  roots : List NodeId
  visited : Finset NodeId
  stack : List Frame
  moves : List Move
  deriving DecidableEq

namespace Search

/-- The machine before its first step. -/
def start (roots : List NodeId) : Search := ⟨roots, ∅, [], []⟩

/-- The nodes to look at next: those of the top frame, or the roots. -/
def next (s : Search) : List NodeId :=
  match s.stack with
  | [] => s.roots
  | f :: _ => f.remaining

/-- The machine with other nodes to look at next. -/
def withNext (s : Search) (ns : List NodeId) : Search :=
  match s.stack with
  | [] => { s with roots := ns }
  | f :: fs => { s with stack := { f with remaining := ns } :: fs }

/-- Pushes a node with all that it leads to. -/
def push (a : Arena) (s : Search) (n : NodeId) : Search :=
  { s with
    visited := insert n s.visited
    stack := ⟨n, a.followed n⟩ :: s.stack
    moves := s.moves ++ [.enter n] }

/-- One step, or none if there is nothing left to do. -/
def step (a : Arena) (s : Search) : Option Search :=
  match s.next with
  | n :: ns => some (if n ∈ s.visited then s.withNext ns else (s.withNext ns).push a n)
  | [] =>
    match s.stack with
    | [] => none
    | f :: fs => some { s with stack := fs, moves := s.moves ++ [.leave f.node] }

/-- The nodes pushed so far, in order. -/
def pushed (s : Search) : List NodeId := entered s.moves

/-- The nodes popped so far, in order. -/
def popped (s : Search) : List NodeId := left s.moves

/-- The second state comes from the first by steps. -/
def Steps (a : Arena) : Search → Search → Prop :=
  Relation.ReflTransGen fun s s' => s.step a = some s'

/-- The machine stops in the second state when it is started in the first. -/
def Halts (a : Arena) (s s' : Search) : Prop := Steps a s s' ∧ s'.step a = none

/-! ## One step -/

variable {a : Arena} {s : Search} {n : NodeId} {ns : List NodeId}

theorem next_withNext (s : Search) (ns : List NodeId) : (s.withNext ns).next = ns := by
  unfold withNext next
  cases s.stack <;> rfl

theorem visited_withNext (s : Search) (ns : List NodeId) : (s.withNext ns).visited = s.visited := by
  unfold withNext
  cases s.stack <;> rfl

theorem step_of_mem (h : s.next = n :: ns) (hn : n ∈ s.visited) :
    s.step a = some (s.withNext ns) := by
  rw [step, h]
  simp only [if_pos hn]

theorem step_of_not_mem (h : s.next = n :: ns) (hn : n ∉ s.visited) :
    s.step a = some ((s.withNext ns).push a n) := by
  rw [step, h]
  simp only [if_neg hn]

/-! ## Many steps -/

/-- The machine after the moves `ms`, with the nodes `ns` to look at next. -/
def after (s : Search) (ms : List Move) (ns : List NodeId) : Search :=
  { s.withNext ns with
    visited := s.visited ∪ (entered ms).toFinset
    moves := s.moves ++ ms }

theorem next_after (s : Search) (ms : List Move) (ns : List NodeId) : (s.after ms ns).next = ns :=
  next_withNext s ns

/-- No move was made, and the nodes to look at next are the same. -/
theorem after_nil_next (s : Search) : s.after [] s.next = s := by
  obtain ⟨roots, visited, stack, moves⟩ := s
  cases stack <;> simp [after, withNext, next]

theorem after_withNext (s : Search) (ns ns' : List NodeId) (ms : List Move) :
    (s.withNext ns).after ms ns' = s.after ms ns' := by
  obtain ⟨roots, visited, stack, moves⟩ := s
  cases stack <;> rfl

theorem after_after (s : Search) (ns ns' : List NodeId) (ms ms' : List Move) :
    (s.after ms ns).after ms' ns' = s.after (ms ++ ms') ns' := by
  obtain ⟨roots, visited, stack, moves⟩ := s
  cases stack <;> simp [after, withNext]

/-- When nothing is left of what a pushed node leads to, the node is popped, and the machine goes on
    where it was. -/
theorem step_after_push (s : Search) (n : NodeId) (inner : List Move) (ns : List NodeId) :
    (((s.withNext ns).push a n).after inner []).step a =
      some (s.after (.enter n :: (inner ++ [.leave n])) ns) := by
  obtain ⟨roots, visited, stack, moves⟩ := s
  cases stack <;> simp [after, withNext, push, step, next]

/-- **The simulation.** A nested tour leaves the frames below it alone: from any state that has seen
    what the tour has, the machine makes the moves of the tour. -/
theorem steps_of_tour {seen : List NodeId} {ms : List Move} (h : Tour a seen ns ms) (s : Search)
    (rest : List NodeId) (hnext : s.next = ns ++ rest) (hseen : s.visited = seen.toFinset) :
    Steps a s (s.after ms rest) := by
  induction h generalizing s rest with
  | done seen =>
    rw [show rest = s.next from hnext.symm, after_nil_next]
    exact Relation.ReflTransGen.refl
  | @pass seen ns n ms hn _ ih =>
    have hmem : n ∈ s.visited := by
      rw [hseen]
      exact List.mem_toFinset.2 hn
    have hrest := ih (s.withNext (ns ++ rest)) rest (next_withNext s _)
      (by rw [visited_withNext, hseen])
    rw [after_withNext] at hrest
    exact Relation.ReflTransGen.head (step_of_mem hnext hmem) hrest
  | @visit seen ns n node inner ms hn _ _ _ ihin ihrest =>
    have hmem : n ∉ s.visited := by
      rw [hseen]
      exact fun hn' => hn (List.mem_toFinset.1 hn')
    -- The node is pushed on what was there, walked from, and popped off it.
    have hpush : s.step a = some ((s.withNext (ns ++ rest)).push a n) := step_of_not_mem hnext hmem
    have hinside := ihin ((s.withNext (ns ++ rest)).push a n) []
      (List.append_nil _).symm (by simp [push, visited_withNext, hseen])
    have hpop := step_after_push (a := a) s n inner (ns ++ rest)
    have hrest := ihrest (s.after (.enter n :: (inner ++ [.leave n])) (ns ++ rest)) rest
      (next_after s _ _) (by simp [after, hseen])
    rw [after_after, show Move.enter n :: (inner ++ [.leave n]) ++ ms =
      .enter n :: (inner ++ .leave n :: ms) by simp] at hrest
    exact Relation.ReflTransGen.head hpush (hinside.trans (Relation.ReflTransGen.head hpop hrest))

/-- Started with roots that have a tour, the machine makes its moves and halts. -/
theorem halts_of_tour {roots : List NodeId} {ms : List Move} (h : Tour a [] roots ms) :
    Halts a (start roots) ⟨[], (entered ms).toFinset, [], ms⟩ := by
  have hsteps := steps_of_tour h (start roots) [] (List.append_nil _).symm rfl
  have hafter : (start roots).after ms [] = ⟨[], (entered ms).toFinset, [], ms⟩ := by
    simp [after, start, withNext]
  rw [hafter] at hsteps
  exact ⟨hsteps, rfl⟩

end Search

/-! ## A dump makes the machine's moves -/

section Dump

variable {σ : Type} [Sink σ] {a : Arena} {sink₀ : σ} {order out : List NodeId} {d : Dumper σ}

/-- Numbered in sequence, the ids of the records are the numbers below that of the records. -/
theorem Dumper.Complete.perm_range (h : Complete a .sequential sink₀ order out d)
    (hlen : order.length ≤ UInt32.size) :
    (((d.offers.map Prod.snd).map (·.id)).map (·.raw.toNat)).Perm (List.range d.records) := by
  rw [h.map_id_offers, h.records, h.perm.length_eq,
    ← IdScheme.map_toNat_idIn h.ready.entered.nodup hlen]
  exact (h.perm.map _).map _

/-- **Main result.** For roots of an arena that `finish` returned, any settings and any sink that takes
    records with different ids, the machine halts, and a dump of the roots makes its moves, one by one.
    Then the registry has entered nodes in the order of pushes, records were taken in the order of
    pops, and in sequence an id is a position among the pushes, so that the ids used are those below
    the number of records. -/
theorem exists_halts_dumpRoots (ha : a.Finished) (sink : σ) (config : Config)
    (hsink : Sink.TakesDistinct (Sink.beginRun config.runId sink)) (roots : List NodeId)
    (hroots : ∀ n ∈ roots, a.contains n) :
    ∃ final summary d, Search.Halts a (.start roots) final ∧
      dumpRoots a roots sink config =
        .conclude roots (Dumper.replay 1 final.moves (Dumper.opened a roots sink config)) ∧
      dumpRoots a roots sink config = ⟨.ok summary, d⟩ ∧
      d.registry.Entered final.pushed ∧
      d.offers.map Prod.fst = final.popped ∧
      Sink.takeAll (d.offers.map Prod.snd) (Sink.beginRun config.runId sink) = .ok () d.sink ∧
      (config.idScheme = .sequential →
        (∀ (i : Nat) (hi : i < final.pushed.length),
          ∃ id, d.registry.get? final.pushed[i] = some id ∧ id.raw.toNat = i) ∧
        (((d.offers.map Prod.snd).map (·.id)).map (·.raw.toNat)).Perm (List.range d.records)) := by
  have hs := ha.sound
  obtain ⟨ms, d, tour, hreplay, hdump, hcomplete⟩ :=
    exists_dumpRoots_complete hs sink config hsink hroots
  have hentered := hcomplete.ready.entered
  have hlen := hs.length_le hentered.nodup hcomplete.ready.exists_node
  refine ⟨⟨[], (entered ms).toFinset, [], ms⟩, _, d, Search.halts_of_tour tour, hreplay, hdump,
    hentered, hcomplete.map_fst_offers, hcomplete.taken, ?_⟩
  intro hscheme
  rw [hscheme] at hcomplete
  refine ⟨fun i hi => ?_, hcomplete.perm_range hlen⟩
  refine ⟨_, hcomplete.ready.get?_eq.trans (if_pos (List.getElem_mem hi)), ?_⟩
  exact IdScheme.toNat_idIn_getElem hentered.nodup hlen hi

/-- A method of the record, and then the record, which the method leads to. -/
theorem exists_halts_dumpRoots_linkedRecord :
    ∃ final summary d, Search.Halts Arena.linkedRecord (.start [⟨6⟩, ⟨0⟩]) final ∧
      dumpRoots Arena.linkedRecord [⟨6⟩, ⟨0⟩] MemorySink.empty {} = ⟨.ok summary, d⟩ ∧
      d.registry.Entered final.pushed ∧ d.offers.map Prod.fst = final.popped ∧
      ∀ (i : Nat) (hi : i < final.pushed.length),
        ∃ id, d.registry.get? final.pushed[i] = some id ∧ id.raw.toNat = i := by
  obtain ⟨final, summary, d, hhalts, -, hdump, hentered, hpopped, -, hsequential⟩ :=
    exists_halts_dumpRoots Arena.finished_linkedRecord MemorySink.empty {}
      MemorySink.takesDistinct_empty [⟨6⟩, ⟨0⟩] (by decide)
  exact ⟨final, summary, d, hhalts, hdump, hentered, hpopped, (hsequential rfl).1⟩

end Dump

end AstDump
