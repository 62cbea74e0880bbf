import AstDump.Proofs.Children
import AstDump.Proofs.Registry
import AstDump.Proofs.Sound

/-!
# Depth-first walks

A traversal without its dumper. `Tour a seen ns ms` says that the moves `ms`, each the entering or the
leaving of a node, walk depth first through what can be reached from the nodes `ns` in turn, past the
nodes `seen`, which were entered before. A node is entered when it is met for the first time and left
when everything that it leads to has been met.

Results:
* `Arena.Sound.exists_tour`: from nodes of a sound arena there is always a tour, cycles or not.
* `Tour.orderly`: a tour enters no node twice, and leaves a node when all that it leads to is entered.
* `Tour.unique`: where a walk starts, and past what, settles its moves.
* `Tour.perm`: a tour leaves exactly the nodes that it enters.
* `Tour.mem_iff`: if what was seen leads only to itself, a tour enters exactly what can be reached.
-/

namespace AstDump

/-- One event of a walk: a node is met for the first time, or everything that it leads to has been
    met. -/
inductive Move where
  | enter (n : NodeId)
  | leave (n : NodeId)
  deriving DecidableEq, Repr

namespace Move

/-- The nodes entered by moves, in order. -/
def entered : List Move → List NodeId
  | [] => []
  | .enter n :: ms => n :: entered ms
  | .leave _ :: ms => entered ms

/-- The nodes left by moves, in order. -/
def left : List Move → List NodeId
  | [] => []
  | .enter _ :: ms => left ms
  | .leave n :: ms => n :: left ms

variable (n : NodeId) (ms ms' : List Move)

@[simp] theorem entered_nil : entered [] = [] := rfl

@[simp] theorem entered_enter : entered (.enter n :: ms) = n :: entered ms := rfl

@[simp] theorem entered_leave : entered (.leave n :: ms) = entered ms := rfl

@[simp] theorem left_nil : left [] = [] := rfl

@[simp] theorem left_enter : left (.enter n :: ms) = left ms := rfl

@[simp] theorem left_leave : left (.leave n :: ms) = n :: left ms := rfl

@[simp] theorem entered_append : entered (ms ++ ms') = entered ms ++ entered ms' := by
  induction ms with
  | nil => rfl
  | cons m ms ih => cases m <;> simp [ih]

@[simp] theorem left_append : left (ms ++ ms') = left ms ++ left ms' := by
  induction ms with
  | nil => rfl
  | cons m ms ih => cases m <;> simp [ih]

end Move

open Move

/-- The moves of a depth-first walk from the nodes `ns`, one after the other, when the nodes `seen` were
    entered before. Such a node is passed over; any other is entered, walked from, and left. -/
inductive Tour (a : Arena) : (seen ns : List NodeId) → List Move → Prop
  | done (seen : List NodeId) : Tour a seen [] []
  | pass {seen ns : List NodeId} {n : NodeId} {ms : List Move} (hn : n ∈ seen)
      (rest : Tour a seen ns ms) : Tour a seen (n :: ns) ms
  | visit {seen ns : List NodeId} {n : NodeId} {node : Node} {inner ms : List Move} (hn : n ∉ seen)
      (hnode : a.node? n = some node) (inside : Tour a (seen ++ [n]) (a.followed n) inner)
      (rest : Tour a (seen ++ [n] ++ entered inner) ns ms) :
      Tour a seen (n :: ns) (.enter n :: (inner ++ .leave n :: ms))

/-! ## Moves in good order -/

/-- Moves that a dumper can make after the nodes `order` were entered: a node is entered once, and
    left when it and all that it leads to were entered. -/
def Orderly (a : Arena) : (order : List NodeId) → List Move → Prop
  | _, [] => True
  | order, .enter n :: ms =>
    (n ∉ order ∧ ∃ node, a.node? n = some node) ∧ Orderly a (order ++ [n]) ms
  | order, .leave n :: ms => (n ∈ order ∧ a.followed n ⊆ order) ∧ Orderly a order ms

variable {a : Arena} {seen order ns : List NodeId} {n : NodeId} {ms ms' : List Move}

theorem orderly_append :
    Orderly a order (ms ++ ms') ↔ Orderly a order ms ∧ Orderly a (order ++ entered ms) ms' := by
  induction ms generalizing order with
  | nil => simp [Orderly]
  | cons m ms ih =>
    cases m with
    | enter n => simp [Orderly, ih, and_assoc]
    | leave n => simp [Orderly, ih, and_assoc]

theorem Orderly.nodup (h : Orderly a order ms) (horder : order.Nodup) :
    (order ++ entered ms).Nodup := by
  induction ms generalizing order with
  | nil => simpa using horder
  | cons m ms ih =>
    cases m with
    | enter n =>
      obtain ⟨⟨hn, -⟩, hrest⟩ := h
      have hall := ih hrest (NodeId.nodup_concat horder hn)
      rw [List.append_assoc] at hall
      exact hall
    | leave n => exact ih h.2 horder

/-- The nodes entered are nodes of the arena. -/
theorem Orderly.exists_node (h : Orderly a order ms) :
    ∀ n ∈ entered ms, ∃ node, a.node? n = some node := by
  induction ms generalizing order with
  | nil => simp
  | cons m ms ih =>
    cases m with
    | enter n =>
      intro m hm
      obtain rfl | hm := List.mem_cons.1 hm
      · exact h.1.2
      · exact ih h.2 m hm
    | leave n => exact ih h.2

/-! ## Tours -/

namespace Tour

/-- Whatever a tour starts from has been met at its end. -/
theorem subset (h : Tour a seen ns ms) : ns ⊆ seen ++ entered ms := by
  induction h with
  | done seen => simp
  | pass hn _ ih =>
    intro m hm
    obtain rfl | hm := List.mem_cons.1 hm
    · exact List.mem_append_left _ hn
    · exact ih hm
  | @visit seen ns n node inner ms hn hnode _ _ _ ih =>
    intro m hm
    obtain rfl | hm := List.mem_cons.1 hm
    · simp
    · have := ih hm
      simpa using this

theorem orderly (h : Tour a seen ns ms) : Orderly a seen ms := by
  induction h with
  | done seen => trivial
  | pass _ _ ih => exact ih
  | @visit seen ns n node inner ms hn hnode inside _ ihin ihrest =>
    refine ⟨⟨hn, node, hnode⟩, ?_⟩
    rw [orderly_append]
    refine ⟨ihin, ⟨?_, inside.subset⟩, ihrest⟩
    simp

/-- Where a walk starts, and past what, settles its moves. -/
theorem unique (h : Tour a seen ns ms) (h' : Tour a seen ns ms') : ms = ms' := by
  induction h generalizing ms' with
  | done seen =>
    cases h'
    rfl
  | pass hn _ ih =>
    cases h' with
    | pass _ rest => exact ih rest
    | visit hn' => exact absurd hn hn'
  | visit hn _ _ _ ihin ihrest =>
    cases h' with
    | pass hn' => exact absurd hn' hn
    | visit _ _ inside rest =>
      obtain rfl := ihin inside
      rw [ihrest rest]

/-- A tour leaves exactly the nodes that it enters. -/
theorem perm (h : Tour a seen ns ms) : (left ms).Perm (entered ms) := by
  induction h with
  | done seen => exact List.Perm.refl _
  | pass _ _ ih => exact ih
  | @visit seen ns n node inner ms hn hnode _ _ ihin ihrest =>
    simp only [left_enter, left_append, left_leave, entered_enter, entered_append, entered_leave]
    exact List.perm_middle.trans ((ihin.append ihrest).cons n)

/-- Whatever a node leads to has been met when the tour that enters the node is over. -/
theorem followed_subset (h : Tour a seen ns ms) :
    ∀ m ∈ entered ms, a.followed m ⊆ seen ++ entered ms := by
  induction h with
  | done seen => simp
  | pass _ _ ih => exact ih
  | @visit seen ns n node inner ms hn hnode inside _ ihin ihrest =>
    -- The inner tour has met all that `n` and the nodes inside lead to.
    have hinner : ∀ m ∈ n :: entered inner, a.followed m ⊆ seen ++ [n] ++ entered inner := by
      intro m hm
      obtain rfl | hm := List.mem_cons.1 hm
      · exact inside.subset
      · exact ihin m hm
    intro m hm x hx
    simp only [entered_enter, entered_append, entered_leave] at hm ⊢
    rw [← List.cons_append, List.mem_append] at hm
    obtain hm | hm := hm
    · have := hinner m hm hx
      simp only [List.mem_append, List.mem_cons, List.not_mem_nil, or_false] at this ⊢
      tauto
    · have := ihrest m hm hx
      simp only [List.mem_append, List.mem_cons, List.not_mem_nil, or_false] at this ⊢
      tauto

/-- A tour enters only what can be reached. -/
theorem reachedFrom (h : Tour a seen ns ms) : ∀ m ∈ entered ms, a.ReachedFrom ns m := by
  induction h with
  | done seen => simp
  | pass _ _ ih =>
    intro m hm
    obtain ⟨r, hr, hreach⟩ := ih m hm
    exact ⟨r, List.mem_cons_of_mem _ hr, hreach⟩
  | @visit seen ns n node inner ms hn hnode _ _ ihin ihrest =>
    intro m hm
    simp only [entered_enter, entered_append, entered_leave, List.mem_cons, List.mem_append] at hm
    obtain rfl | hm | hm := hm
    · exact ⟨m, List.mem_cons_self, Relation.ReflTransGen.refl⟩
    · obtain ⟨r, hr, hreach⟩ := ihin m hm
      exact ⟨n, List.mem_cons_self, Relation.ReflTransGen.head hr hreach⟩
    · obtain ⟨r, hr, hreach⟩ := ihrest m hm
      exact ⟨r, List.mem_cons_of_mem _ hr, hreach⟩

/-- If the nodes seen before lead only to each other, so do the nodes seen after. -/
theorem closed (h : Tour a seen ns ms) (hseen : ∀ m ∈ seen, a.followed m ⊆ seen) :
    ∀ m ∈ seen ++ entered ms, a.followed m ⊆ seen ++ entered ms := by
  intro m hm
  obtain hm | hm := List.mem_append.1 hm
  · exact List.Subset.trans (hseen m hm) (List.subset_append_left _ _)
  · exact h.followed_subset m hm

/-- If the nodes seen before lead only to each other, a tour adds exactly what can be reached. -/
theorem mem_iff (h : Tour a seen ns ms) (hseen : ∀ m ∈ seen, a.followed m ⊆ seen) :
    n ∈ seen ++ entered ms ↔ n ∈ seen ∨ a.ReachedFrom ns n := by
  constructor
  · intro hn
    obtain hn | hn := List.mem_append.1 hn
    · exact .inl hn
    · exact .inr (h.reachedFrom n hn)
  · rintro (hn | ⟨r, hr, hreach⟩)
    · exact List.mem_append_left _ hn
    · exact hreach.mem_of_closed (h.closed hseen) (h.subset hr)

/-- A tour past nothing enters no node twice. -/
theorem nodup_entered (h : Tour a [] ns ms) : (entered ms).Nodup :=
  h.orderly.nodup List.nodup_nil

/-- A tour past nothing enters exactly what can be reached. -/
theorem mem_entered_iff (h : Tour a [] ns ms) : n ∈ entered ms ↔ a.ReachedFrom ns n := by
  have hiff := h.mem_iff (n := n) (by simp)
  simpa using hiff

end Tour

/-! ## There is always a tour -/

namespace Arena

theorem index_lt_of_node? {node : Node} (h : a.node? n = some node) : n.index < a.size := by
  unfold node? at h
  exact (Array.getElem?_eq_some_iff.1 h).1

theorem exists_node_of_lt (h : n.index < a.size) : ∃ node, a.node? n = some node := by
  unfold node?
  exact ⟨_, Array.getElem?_eq_getElem h⟩

theorem mem_ids (h : n.index < a.size) : n ∈ a.ids :=
  List.mem_map.2 ⟨n.index, List.mem_range.2 h, NodeId.ofIndex_index n⟩

/-- A node of a sound arena leads to nodes of the arena. -/
theorem Sound.index_lt_of_mem_followed (h : a.Sound) {m : NodeId} (hm : m ∈ a.followed n) :
    m.index < a.size := by
  unfold followed at hm
  split at hm
  · simp at hm
  · rename_i node hnode
    rw [← Node.targets_edges] at hm
    obtain ⟨e, he, rfl⟩ := List.mem_map.1 hm
    obtain ⟨m, hm, -⟩ := h.leads hnode he
    exact index_lt_of_node? hm

/-- **Main result.** Whatever the cycles, a depth-first walk comes to an end: each node that it enters
    leaves fewer to enter. -/
theorem Sound.exists_tour (h : a.Sound) (ns : List NodeId) (hns : ∀ n ∈ ns, n.index < a.size)
    (hnodup : seen.Nodup) (hseen : ∀ n ∈ seen, n.index < a.size) : ∃ ms, Tour a seen ns ms := by
  induction hk : a.size - seen.length using Nat.strongRecOn generalizing seen ns with
  | ind k ih =>
    induction ns with
    | nil => exact ⟨[], .done seen⟩
    | cons n ns ihns =>
      by_cases hn : n ∈ seen
      · obtain ⟨ms, hms⟩ := ihns fun m hm => hns m (List.mem_cons_of_mem _ hm)
        exact ⟨ms, .pass hn hms⟩
      · have hlt := hns n List.mem_cons_self
        obtain ⟨node, hnode⟩ := exists_node_of_lt hlt
        -- Entering `n` leaves one node fewer.
        have hnodup' := NodeId.nodup_concat hnodup hn
        have hseen' : ∀ m ∈ seen ++ [n], m.index < a.size := by
          intro m hm
          obtain hm | hm := List.mem_append.1 hm
          · exact hseen m hm
          · exact List.mem_singleton.1 hm ▸ hlt
        have hless := NodeId.length_le_of_nodup hnodup' hseen'
        simp only [List.length_append, List.length_singleton] at hless
        obtain ⟨inner, hinner⟩ := ih (a.size - (seen ++ [n]).length) (by simp; omega)
          (a.followed n) (fun m hm => h.index_lt_of_mem_followed hm) hnodup' hseen' rfl
        -- The nodes entered on the way stay entered.
        have hnodup'' := hinner.orderly.nodup hnodup'
        have hseen'' : ∀ m ∈ seen ++ [n] ++ entered inner, m.index < a.size := by
          intro m hm
          obtain hm | hm := List.mem_append.1 hm
          · exact hseen' m hm
          · obtain ⟨node, hnode⟩ := hinner.orderly.exists_node m hm
            exact index_lt_of_node? hnode
        obtain ⟨ms, hms⟩ := ih (a.size - (seen ++ [n] ++ entered inner).length) (by simp; omega)
          ns (fun m hm => hns m (List.mem_cons_of_mem _ hm)) hnodup'' hseen'' rfl
        exact ⟨_, .visit hn hnode hinner hms⟩

end Arena

end AstDump
