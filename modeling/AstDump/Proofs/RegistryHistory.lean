import AstDump.Proofs.Registry
import Mathlib.Data.List.Induction

/-!
# A registry under any questions

A registry may be asked for the id of a node and told to enter one, in any order. The nodes with ids and the
nodes entered are then read off the questions: those asked for in any way, in order of first mention, and
those that were to be entered.

Results:
* `Registry.Numbers.assign`, `Registry.Claims.assign`: both parts after a question for an id.
* `Registry.Stands.idOf?`, `Registry.Stands.enter?`: both parts after one question.
* `Registry.stands_askAll`: both parts after any questions, read off the questions.
* `Registry.askAll_exact`: what a registry holds and answers after any questions.
-/

namespace AstDump

/-! ## Nodes in order of first mention -/

/-- The nodes `ns` and then `n`, unless it is among them. -/
def NodeId.noted (ns : List NodeId) (n : NodeId) : List NodeId := if n ∈ ns then ns else ns ++ [n]

namespace NodeId

variable {ns : List NodeId} {m n : NodeId}

theorem noted_of_mem (h : n ∈ ns) : noted ns n = ns := if_pos h

theorem noted_of_not_mem (h : n ∉ ns) : noted ns n = ns ++ [n] := if_neg h

theorem mem_noted_self (ns : List NodeId) (n : NodeId) : n ∈ noted ns n := by
  by_cases h : n ∈ ns
  · rwa [noted_of_mem h]
  · simp [noted_of_not_mem h]

theorem mem_noted (h : m ∈ ns) : m ∈ noted ns n := by
  unfold noted
  split
  · exact h
  · exact List.mem_append_left _ h

theorem eraseDups_concat (ns : List NodeId) (n : NodeId) :
    (ns ++ [n]).eraseDups = noted ns.eraseDups n := by
  rw [List.eraseDups_append]
  by_cases h : n ∈ ns
  · rw [noted_of_mem (List.mem_eraseDups.2 h)]
    simp [List.removeAll, h]
  · rw [noted_of_not_mem (mt List.mem_eraseDups.1 h)]
    simp [List.removeAll, List.eraseDups_cons, h]

end NodeId

namespace Registry

variable {r : Registry} {known claimed : List NodeId} {m n : NodeId}

/-! ## A question for an id -/

/-- A question for an id answers by the order of the first questions. -/
theorem Numbers.assign (h : r.Numbers known) (hc : r.Covers n) :
    (r.assign n hc).1 = r.scheme.idIn (NodeId.noted known n) n ∧
      (r.assign n hc).2.Numbers (NodeId.noted known n) := by
  by_cases hn : n ∈ known
  · rw [h.assign_of_mem hc hn, NodeId.noted_of_mem hn]
    exact ⟨rfl, h⟩
  · rw [h.assign_of_not_mem hc hn, NodeId.noted_of_not_mem hn]
    exact ⟨rfl, h.give hc hn⟩

/-- A question for an id enters nothing. -/
theorem Claims.assign (h : r.Claims claimed) (hc : r.Covers n) : (r.assign n hc).2.Claims claimed := by
  obtain ⟨d, -, hassign⟩ | ⟨-, hassign⟩ := assign_cases hc
  · rw [hassign]
    exact h
  · rw [hassign]
    exact h.give n

theorem assign_keeps (hc : r.Covers n) :
    (r.assign n hc).2.ids.size = r.ids.size ∧ (r.assign n hc).2.scheme = r.scheme := by
  obtain ⟨d, -, hassign⟩ | ⟨-, hassign⟩ := assign_cases hc
  · rw [hassign]
    exact ⟨rfl, rfl⟩
  · rw [hassign]
    exact ⟨Array.size_setIfInBounds, rfl⟩

/-! ## One question -/

/-- A question to a registry: for the id of a node, or to enter one. -/
inductive Question where
  | idOf (n : NodeId)
  | enter (n : NodeId)
  deriving DecidableEq, Repr

/-- The node that a question is about. -/
def Question.node : Question → NodeId
  | .idOf n => n
  | .enter n => n

/-- The node that a question enters. -/
def Question.claims? : Question → Option NodeId
  | .idOf _ => none
  | .enter n => some n

/-- The registry after a question, which is passed over if its node is outside the arena. -/
def ask (r : Registry) : Question → Registry
  | .idOf n => ((r.idOf? n).map Prod.snd).getD r
  | .enter n => ((r.enter? n).map Prod.snd).getD r

/-- The registry after some questions. -/
def askAll (r : Registry) (qs : List Question) : Registry := qs.foldl ask r

/-- A registry for `size` nodes in which the nodes `known` have ids and the nodes `claimed`, all of them
    known, were entered. -/
structure Stands (r : Registry) (size : Nat) (scheme : IdScheme) (known claimed : List NodeId) :
    Prop where
  size_eq : r.ids.size = size
  scheme_eq : r.scheme = scheme
  numbers : r.Numbers known
  claims : r.Claims claimed
  subset : claimed ⊆ known

variable {size : Nat} {scheme : IdScheme}

theorem stands_new (hsize : size < UInt32.size) (scheme : IdScheme) :
    (new size scheme).Stands size scheme [] [] where
  size_eq := Array.size_replicate
  scheme_eq := rfl
  numbers := numbers_new hsize scheme
  claims := claims_new size scheme
  subset := List.Subset.refl []

theorem Stands.covers_iff (h : r.Stands size scheme known claimed) : r.Covers n ↔ n.index < size := by
  rw [Covers, h.size_eq]

theorem Stands.assign (h : r.Stands size scheme known claimed) (hc : r.Covers n) :
    (r.assign n hc).1 = scheme.idIn (NodeId.noted known n) n ∧
      (r.assign n hc).2.Stands size scheme (NodeId.noted known n) claimed := by
  obtain ⟨hid, hnumbers⟩ := h.numbers.assign hc
  obtain ⟨hsize, hscheme⟩ := assign_keeps hc
  rw [h.scheme_eq] at hid
  exact ⟨hid, hsize.trans h.size_eq, hscheme.trans h.scheme_eq, hnumbers, h.claims.assign hc,
    fun _ hm => NodeId.mem_noted (h.subset hm)⟩

/-- A question for the id of a node is answered. -/
theorem Stands.idOf? (h : r.Stands size scheme known claimed) (hn : n.index < size) :
    r.idOf? n = some (scheme.idIn (NodeId.noted known n) n, r.ask (.idOf n)) ∧
      (r.ask (.idOf n)).Stands size scheme (NodeId.noted known n) claimed := by
  have hc : r.Covers n := h.covers_iff.2 hn
  obtain ⟨hid, hstands⟩ := h.assign hc
  have hanswer : r.idOf? n = some (r.assign n hc) := dif_pos hc
  have hask : r.ask (.idOf n) = (r.assign n hc).2 := by
    rw [ask, hanswer]
    rfl
  rw [hanswer, hask, ← hid]
  exact ⟨rfl, hstands⟩

/-- To enter a node is answered by whether it is the first time, and the node then has an id. -/
theorem Stands.enter? (h : r.Stands size scheme known claimed) (hn : n.index < size) :
    r.enter? n = some (decide (n ∉ claimed), r.ask (.enter n)) ∧
      (r.ask (.enter n)).Stands size scheme (NodeId.noted known n) (NodeId.noted claimed n) := by
  have hc : r.Covers n := h.covers_iff.2 hn
  have hanswer : r.enter? n = some (r.enter n hc) := dif_pos hc
  have hask : r.ask (.enter n) = (r.enter n hc).2 := by
    rw [ask, hanswer]
    rfl
  rw [hanswer, hask]
  by_cases hclaimed : n ∈ claimed
  · rw [enter_of_isDumped hc ((h.claims.isDumped_iff n).2 hclaimed), NodeId.noted_of_mem hclaimed,
      NodeId.noted_of_mem (h.subset hclaimed)]
    exact ⟨by simp [hclaimed], h⟩
  · have hmark : (r.mark n).Covers n := covers_mark.2 hc
    obtain ⟨-, hnumbers⟩ := (h.numbers.mark n).assign hmark
    obtain ⟨hsize, hscheme⟩ := assign_keeps hmark
    rw [enter_of_not_isDumped hc (h.claims.isDumped_eq_false hclaimed),
      NodeId.noted_of_not_mem hclaimed]
    refine ⟨by simp [hclaimed], hsize.trans h.size_eq, hscheme.trans h.scheme_eq, hnumbers,
      (h.claims.mark hc hclaimed).assign hmark, ?_⟩
    intro m hm
    rw [List.mem_append, List.mem_singleton] at hm
    obtain hm | rfl := hm
    · exact NodeId.mem_noted (h.subset hm)
    · exact NodeId.mem_noted_self known m

/-! ## Many questions -/

theorem askAll_concat (r : Registry) (qs : List Question) (q : Question) :
    r.askAll (qs ++ [q]) = (r.askAll qs).ask q := by
  rw [askAll, List.foldl_append]
  rfl

/-- After some questions the nodes that they are about have ids, in order of first mention, and those
    that they enter were entered. -/
theorem stands_askAll (hsize : size < UInt32.size) (scheme : IdScheme) {qs : List Question}
    (hqs : ∀ q ∈ qs, q.node.index < size) :
    ((new size scheme).askAll qs).Stands size scheme (qs.map Question.node).eraseDups
      (qs.filterMap Question.claims?).eraseDups := by
  induction qs using List.reverseRecOn with
  | nil => exact stands_new hsize scheme
  | append_singleton qs q ih =>
    have hbefore := ih fun q' hq' => hqs q' (List.mem_append_left _ hq')
    have hq := hqs q (by simp)
    rw [askAll_concat, List.map_append, List.filterMap_append]
    cases q with
    | idOf n =>
      have hclaims : [Question.idOf n].filterMap Question.claims? = [] := rfl
      rw [List.map_singleton, NodeId.eraseDups_concat, hclaims, List.append_nil]
      exact (hbefore.idOf? hq).2
    | enter n =>
      have hclaims : [Question.enter n].filterMap Question.claims? = [n] := rfl
      rw [List.map_singleton, NodeId.eraseDups_concat, hclaims, NodeId.eraseDups_concat]
      exact (hbefore.enter? hq).2

/-- Further questions only add to the nodes with ids. -/
theorem Stands.exists_askAll (h : r.Stands size scheme known claimed) {later : List Question}
    (hlater : ∀ q ∈ later, q.node.index < size) :
    ∃ more claimed', (r.askAll later).Stands size scheme (known ++ more) claimed' := by
  induction later using List.reverseRecOn with
  | nil => exact ⟨[], claimed, by rwa [List.append_nil]⟩
  | append_singleton later q ih =>
    obtain ⟨more, claimed', hbefore⟩ := ih fun q' hq' => hlater q' (List.mem_append_left _ hq')
    have hq := hlater q (by simp)
    have hnoted : ∃ more', NodeId.noted (known ++ more) q.node = known ++ more' := by
      by_cases hmem : q.node ∈ known ++ more
      · exact ⟨more, NodeId.noted_of_mem hmem⟩
      · exact ⟨more ++ [q.node], by rw [NodeId.noted_of_not_mem hmem, List.append_assoc]⟩
    obtain ⟨more', hmore'⟩ := hnoted
    rw [askAll_concat]
    refine ⟨more', ?_⟩
    rw [← hmore']
    cases q with
    | idOf n => exact ⟨_, (hbefore.idOf? hq).2⟩
    | enter n => exact ⟨_, (hbefore.enter? hq).2⟩

theorem mem_known_iff {qs : List Question} :
    n ∈ (qs.map Question.node).eraseDups ↔ ∃ q ∈ qs, q.node = n := by
  rw [List.mem_eraseDups, List.mem_map]

theorem mem_claimed_iff {qs : List Question} :
    n ∈ (qs.filterMap Question.claims?).eraseDups ↔ .enter n ∈ qs := by
  rw [List.mem_eraseDups, List.mem_filterMap]
  constructor
  · rintro ⟨q, hq, hclaims⟩
    cases q with
    | idOf m => cases hclaims
    | enter m =>
      cases hclaims
      exact hq
  · intro hq
    exact ⟨.enter n, hq, rfl⟩

/-! ## What a registry answers -/

/-- The registry answers `d` for `n`, and does so after any questions about nodes below `size`. -/
def Keeps (r : Registry) (size : Nat) (n : NodeId) (d : DumpId) : Prop :=
  ∀ later : List Question, (∀ q ∈ later, q.node.index < size) →
    (r.askAll later).get? n = some d ∧ ∃ r', (r.askAll later).idOf? n = some (d, r')

theorem Stands.keeps (h : r.Stands size scheme known claimed) (hn : n ∈ known) :
    r.Keeps size n (scheme.idIn known n) := by
  intro later hlater
  obtain ⟨more, claimed', hafter⟩ := h.exists_askAll hlater
  have hmem : n ∈ known ++ more := List.mem_append_left _ hn
  have hindex : n.index < size := h.covers_iff.1 (h.numbers.covers n hn)
  have hanswer := (hafter.idOf? hindex).1
  rw [NodeId.noted_of_mem hmem, IdScheme.idIn_append hn] at hanswer
  refine ⟨?_, _, hanswer⟩
  rw [hafter.numbers.get?_eq, if_pos hmem, hafter.scheme_eq, IdScheme.idIn_append hn]

/-- A registry for `size` nodes agrees with the questions `qs` that it was asked. A question for an id is
    answered by an id that a node can have, and it stays the answer; to enter a node succeeds the first time
    only, and the node then has an id that stays. The slots of the nodes not asked for hold the id that is
    kept back, and only those. The counter has not wrapped: in sequence it stands at the number of ids given,
    else at zero. In sequence the ids are 0, 1, 2 and so on, in the order of the first questions. -/
structure AgreesWith (r : Registry) (size : Nat) (scheme : IdScheme) (qs : List Question) : Prop where
  idOf : ∀ n, n.index < size → ∃ d, d ≠ .invalid ∧ r.idOf? n = some (d, r.ask (.idOf n)) ∧
    (r.ask (.idOf n)).Keeps size n d
  enter : ∀ n, n.index < size → r.enter? n = some (decide (.enter n ∉ qs), r.ask (.enter n)) ∧
    ∃ d, d ≠ .invalid ∧ (r.ask (.enter n)).Keeps size n d
  known : ∀ n d, r.get? n = some d → d ≠ .invalid ∧ r.Keeps size n d
  asked : ∀ n, (r.get? n).isSome ↔ ∃ q ∈ qs, q.node = n
  free_iff : ∀ n, n.index < size → (r.ids[n.index]? = some .invalid ↔ ∀ q ∈ qs, q.node ≠ n)
  claimed : ∀ n, r.isDumped n ↔ .enter n ∈ qs
  claimed_known : ∀ n, r.isDumped n → (r.get? n).isSome
  distinct : ∀ m n d, r.get? m = some d → r.get? n = some d → m = n
  next_eq : r.next.toNat = scheme.counted r.assigned
  assigned_eq : r.assigned = {n | (r.get? n).isSome}.ncard
  dumped_eq : r.dumped = {n | r.isDumped n}.ncard
  sequential : scheme = .sequential → (qs.map Question.node).eraseDups.map r.get? =
    (List.range r.assigned).map fun i => some ⟨UInt32.ofNat i⟩
  nodeIndex : scheme = .nodeIndex → ∀ n d, r.get? n = some d → d.raw.toNat = n.index

theorem Stands.length_le (h : r.Stands size scheme known claimed) : known.length ≤ size := by
  rw [← h.size_eq]
  exact h.numbers.length_le

theorem Stands.size_lt (h : r.Stands size scheme known claimed) : size < UInt32.size := by
  rw [← h.size_eq]
  exact h.numbers.size_lt

theorem Stands.get?_eq_some_iff (h : r.Stands size scheme known claimed) {d : DumpId} :
    r.get? n = some d ↔ n ∈ known ∧ scheme.idIn known n = d := by
  rw [h.numbers.get?_eq, h.scheme_eq]
  by_cases hn : n ∈ known
  · simp [hn]
  · simp [hn]

theorem Stands.isSome_get?_iff (h : r.Stands size scheme known claimed) :
    (r.get? n).isSome ↔ n ∈ known := by
  simp [Option.isSome_iff_exists, h.get?_eq_some_iff]

/-- Numbered in sequence, nodes have their positions in `known` as ids. -/
theorem Stands.map_get?_eq (h : r.Stands size .sequential known claimed) :
    known.map r.get? = (List.range r.assigned).map fun i => some ⟨UInt32.ofNat i⟩ := by
  apply List.ext_getElem
  · simp [h.numbers.assigned]
  · intro i hi hi'
    have hlt : i < known.length := by simpa using hi
    rw [List.getElem_map, List.getElem_map, List.getElem_range, h.get?_eq_some_iff]
    refine ⟨List.getElem_mem hlt, ?_⟩
    rw [IdScheme.idIn, h.numbers.nodup.idxOf_getElem i hlt]

/-- A node is told by its id. -/
theorem Stands.eq_of_get?_eq (h : r.Stands size scheme known claimed) {d : DumpId}
    (hm : r.get? m = some d) (hn : r.get? n = some d) : m = n := by
  have hlen := Nat.le_of_lt (Nat.lt_of_le_of_lt h.length_le h.size_lt)
  obtain ⟨hm, hd⟩ := h.get?_eq_some_iff.1 hm
  obtain ⟨hn, hd'⟩ := h.get?_eq_some_iff.1 hn
  exact (IdScheme.idIn_inj hlen hm hn).1 (hd.trans hd'.symm)

/-- An id in order of first mention is not the one kept back. -/
theorem Stands.idIn_ne_invalid (h : r.Stands size scheme known claimed) (hn : n ∈ known) :
    scheme.idIn known n ≠ .invalid :=
  IdScheme.idIn_ne_invalid (Nat.le_sub_one_of_lt h.size_lt) h.length_le hn
    (h.covers_iff.1 (h.numbers.covers n hn))

/-- The slot of a node holds the id that is kept back exactly if the node has no id. -/
theorem Stands.slot_eq_invalid_iff (h : r.Stands size scheme known claimed) (hn : n.index < size) :
    r.ids[n.index]? = some .invalid ↔ n ∉ known := by
  have hlt : n.index < r.ids.size := h.covers_iff.2 hn
  rw [← h.isSome_get?_iff, get?, Array.getElem?_eq_getElem hlt, Option.filter_some,
    Option.some.injEq]
  by_cases hvalid : r.ids[n.index].isValid
  · simpa [hvalid] using DumpId.isValid_iff.1 hvalid
  · simpa [hvalid] using mt DumpId.isValid_iff.2 hvalid

theorem Stands.assigned_eq_ncard (h : r.Stands size scheme known claimed) :
    r.assigned = {n | (r.get? n).isSome}.ncard := by
  rw [h.numbers.assigned]
  exact (NodeId.ncard_eq_length_of_mem_iff h.numbers.nodup fun n => h.isSome_get?_iff.symm).symm

theorem Stands.dumped_eq_ncard (h : r.Stands size scheme known claimed) :
    r.dumped = {n | r.isDumped n}.ncard := by
  rw [h.claims.dumped]
  exact (NodeId.ncard_eq_length_of_mem_iff h.claims.nodup fun n =>
    (h.claims.isDumped_iff n).symm).symm

/-- **Main result.** A registry for at most 2^32 - 1 nodes agrees with any questions about them, whichever
    way it numbers nodes. -/
theorem askAll_exact {size : Nat} (hsize : size ≤ 2 ^ 32 - 1) (scheme : IdScheme)
    {qs : List Question} (hqs : ∀ q ∈ qs, q.node.index < size) :
    ((new size scheme).askAll qs).AgreesWith size scheme qs := by
  have hword : UInt32.size = 2 ^ 32 := rfl
  have h := stands_askAll (by omega) scheme hqs
  refine {
    idOf := ?_
    enter := ?_
    known := ?_
    asked := fun n => h.isSome_get?_iff.trans mem_known_iff
    free_iff := ?_
    claimed := fun n => (h.claims.isDumped_iff n).trans mem_claimed_iff
    claimed_known := ?_
    distinct := fun m n d hm hn => h.eq_of_get?_eq hm hn
    next_eq := ?_
    assigned_eq := h.assigned_eq_ncard
    dumped_eq := h.dumped_eq_ncard
    sequential := ?_
    nodeIndex := ?_ }
  · intro n hn
    obtain ⟨hanswer, hafter⟩ := h.idOf? hn
    have hmem := NodeId.mem_noted_self (qs.map Question.node).eraseDups n
    exact ⟨_, hafter.idIn_ne_invalid hmem, hanswer, hafter.keeps hmem⟩
  · intro n hn
    obtain ⟨hanswer, hafter⟩ := h.enter? hn
    have hmem := NodeId.mem_noted_self (qs.map Question.node).eraseDups n
    simp only [mem_claimed_iff] at hanswer
    exact ⟨hanswer, _, hafter.idIn_ne_invalid hmem, hafter.keeps hmem⟩
  · intro n d hd
    obtain ⟨hn, rfl⟩ := h.get?_eq_some_iff.1 hd
    exact ⟨h.idIn_ne_invalid hn, h.keeps hn⟩
  · intro n hn
    rw [h.slot_eq_invalid_iff hn, mem_known_iff]
    simp only [not_exists, not_and]
  · intro n hn
    have hq := mem_claimed_iff.1 ((h.claims.isDumped_iff n).1 hn)
    exact h.isSome_get?_iff.2 (mem_known_iff.2 ⟨_, hq, rfl⟩)
  · rw [h.numbers.next_eq, h.numbers.assigned, h.scheme_eq]
  · rintro rfl
    exact h.map_get?_eq
  · rintro rfl n d hd
    obtain ⟨-, rfl⟩ := h.get?_eq_some_iff.1 hd
    rfl

/-- Questions about two of as many nodes as there may be, the last one among them, numbered in
    sequence. -/
theorem askAll_exact_lastNode :
    let qs : List Question := [.idOf ⟨0xFFFFFFFE⟩, .enter ⟨7⟩, .idOf ⟨7⟩, .enter ⟨0xFFFFFFFE⟩]
    let r := (new (2 ^ 32 - 1) .sequential).askAll qs
    r.assigned = 2 ∧ r.next.toNat = 2 ∧ r.get? ⟨0xFFFFFFFE⟩ = some ⟨0⟩ ∧ r.get? ⟨7⟩ = some ⟨1⟩ ∧
      r.ids[NodeId.index ⟨8⟩]? = some .invalid ∧ r.isDumped ⟨0xFFFFFFFE⟩ ∧
      r.enter? ⟨7⟩ = some (false, r.ask (.enter ⟨7⟩)) ∧
      r.enter? ⟨8⟩ = some (true, r.ask (.enter ⟨8⟩)) := by
  intro qs r
  have h : r.AgreesWith (2 ^ 32 - 1) .sequential qs := askAll_exact (by decide) .sequential (by decide)
  clear_value r
  have hfirst : (qs.map Question.node).eraseDups = [⟨0xFFFFFFFE⟩, ⟨7⟩] := by decide
  have hids := h.sequential rfl
  have hnext := h.next_eq
  rw [hfirst] at hids
  have hcount : r.assigned = 2 := by simpa using (congrArg List.length hids).symm
  rw [hcount] at hids hnext
  have hget : r.get? ⟨0xFFFFFFFE⟩ = some ⟨0⟩ ∧ r.get? ⟨7⟩ = some ⟨1⟩ := by
    simpa [List.range_succ] using hids
  exact ⟨hcount, hnext, hget.1, hget.2, (h.free_iff ⟨8⟩ (by decide)).2 (by decide),
    (h.claimed _).2 (by decide), (h.enter ⟨7⟩ (by decide)).1, (h.enter ⟨8⟩ (by decide)).1⟩

end Registry

end AstDump
