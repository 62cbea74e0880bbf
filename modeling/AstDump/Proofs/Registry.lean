import AstDump.Registry
import Mathlib.Data.List.Nodup
import Mathlib.Data.List.Perm.Subperm
import Mathlib.Data.Set.Card

/-!
# What a registry holds

A registry has two parts that do not touch each other: the ids, which follow the order of the first
questions, and the nodes entered. `Registry.Numbers` and `Registry.Claims` describe them by two lists of
nodes, and each operation has one lemma for each part. A slot without an id holds an id all the same, the
greatest, and `Registry.Numbers` keeps the count of nodes below it, so no node is ever given that one.

A traversal asks for the id of a node only after entering the node. Both lists are then the same, the
nodes in the order in which they were entered first: `Registry.Entered r order` says so.

Results:
* `Registry.Numbers.assign_of_mem`, `Registry.Numbers.assign_of_not_mem`: what a question for an id does.
* `Registry.Numbers.give`: the next id is one that no node has, and the counter does not wrap.
* `Registry.Entered.enter_of_mem`, `Registry.Entered.enter_of_not_mem`: what entering a node does.
* `Registry.Entered.get?_eq`, `Registry.Entered.isDumped_iff`: what the registry answers.
* `IdScheme.idIn_append`: an id stays when more nodes are entered.
* `IdScheme.idIn_inj`, `IdScheme.idIn_ne_invalid`: different nodes have different ids, and none the one
  kept back.
* `IdScheme.toNat_idIn`, `IdScheme.map_toNat_idIn`: numbered in sequence, nodes have their positions
  as ids.
-/

namespace AstDump

theorem NodeId.nodup_concat {ns : List NodeId} {n : NodeId} (h : ns.Nodup) (hn : n ∉ ns) :
    (ns ++ [n]).Nodup := by
  rw [← List.concat_eq_append]
  exact h.concat hn

/-- There are no more different nodes than positions. -/
theorem NodeId.length_le_of_nodup {ns : List NodeId} {size : Nat} (hnodup : ns.Nodup)
    (hlt : ∀ n ∈ ns, n.index < size) : ns.length ≤ size := by
  have hsub : ns.map NodeId.index ⊆ List.range size := by
    intro i hi
    obtain ⟨n, hn, rfl⟩ := List.mem_map.1 hi
    exact List.mem_range.2 (hlt n hn)
  have hmap : (ns.map NodeId.index).Nodup := hnodup.map fun m n hmn => NodeId.index_inj.1 hmn
  have := (List.subperm_of_subset hmap hsub).length_le
  simpa using this

/-- Different nodes in a list are counted by its length. -/
theorem NodeId.ncard_eq_length_of_mem_iff {p : NodeId → Prop} {ns : List NodeId} (hnodup : ns.Nodup)
    (h : ∀ n, n ∈ ns ↔ p n) : {n | p n}.ncard = ns.length := by
  have hset : {n | p n} = (ns.toFinset : Set NodeId) := by
    ext n
    simp [h]
  rw [hset, Set.ncard_coe_finset, List.toFinset_card_of_nodup hnodup]

/-! ## Ids by order of entry -/

/-- The id of node `n` when the nodes `order` were entered, in that order. -/
def IdScheme.idIn (s : IdScheme) (order : List NodeId) (n : NodeId) : DumpId :=
  match s with
  | .sequential => ⟨UInt32.ofNat (order.idxOf n)⟩
  | .nodeIndex => ⟨n.raw⟩

namespace IdScheme

variable {s : IdScheme} {order : List NodeId} {m n : NodeId}

theorem idIn_append (h : n ∈ order) (more : List NodeId) :
    s.idIn (order ++ more) n = s.idIn order n := by
  cases s with
  | sequential => simp only [idIn, List.idxOf_append_of_mem h]
  | nodeIndex => rfl

/-- A node numbered in sequence has its position as id. -/
theorem toNat_idIn (hlen : order.length ≤ UInt32.size) (hn : n ∈ order) :
    (sequential.idIn order n).raw.toNat = order.idxOf n := by
  have hlt := List.idxOf_lt_length_of_mem hn
  simp only [idIn, UInt32.toNat_ofNat']
  exact Nat.mod_eq_of_lt (Nat.lt_of_lt_of_le hlt hlen)

theorem idIn_inj (hlen : order.length ≤ UInt32.size) (hm : m ∈ order) (hn : n ∈ order) :
    s.idIn order m = s.idIn order n ↔ m = n := by
  constructor
  · intro h
    cases s with
    | sequential =>
      have h' := congrArg (fun d : DumpId => d.raw.toNat) h
      simp only [toNat_idIn hlen hm, toNat_idIn hlen hn] at h'
      exact (List.idxOf_inj hm).1 h'
    | nodeIndex =>
      cases m
      cases n
      simpa [idIn] using h
  · rintro rfl
    rfl

/-- An id given to one of fewer nodes than there are words is not the one kept back. -/
theorem idIn_ne_invalid {size : Nat} (hsize : size ≤ 2 ^ 32 - 1) (hlen : order.length ≤ size)
    (hn : n ∈ order) (hlt : n.index < size) : s.idIn order n ≠ .invalid := by
  have hword : UInt32.size = 2 ^ 32 := rfl
  have hinvalid : DumpId.invalid.raw.toNat = 2 ^ 32 - 1 := rfl
  intro heq
  rw [← heq] at hinvalid
  cases s with
  | sequential =>
    have hidx := List.idxOf_lt_length_of_mem hn
    rw [toNat_idIn (by omega) hn] at hinvalid
    omega
  | nodeIndex =>
    have hindex : n.index = 2 ^ 32 - 1 := hinvalid
    omega

theorem toNat_idIn_getElem (hnodup : order.Nodup) (hlen : order.length ≤ UInt32.size) {i : Nat}
    (hi : i < order.length) : (sequential.idIn order order[i]).raw.toNat = i := by
  rw [toNat_idIn hlen (List.getElem_mem hi), hnodup.idxOf_getElem i hi]

theorem map_toNat_idIn (hnodup : order.Nodup) (hlen : order.length ≤ UInt32.size) :
    (order.map (sequential.idIn order)).map (·.raw.toNat) = List.range order.length := by
  apply List.ext_getElem
  · simp
  · intro i hi hi'
    rw [List.getElem_map, List.getElem_map, toNat_idIn_getElem hnodup hlen (by simpa using hi),
      List.getElem_range]

end IdScheme

/-- How far the counter of ids is after `count` nodes got theirs. -/
def IdScheme.counted (s : IdScheme) (count : Nat) : Nat :=
  match s with
  | .sequential => count
  | .nodeIndex => 0

/-! ## One question to a registry -/

theorem DumpId.isValid_iff {d : DumpId} : d.isValid ↔ d ≠ .invalid := by
  obtain ⟨raw⟩ := d
  simp [isValid, invalid]

namespace Registry

variable {r : Registry} {known claimed order : List NodeId} {m n : NodeId}

section Questions

theorem covers_give : (r.give n).Covers m ↔ r.Covers m := by simp [Covers, give]

theorem covers_mark : (r.mark n).Covers m ↔ r.Covers m := Iff.rfl

/-- A slot holds the id of its node, or the id that no node can have. -/
theorem get?_eq_getElem (hc : r.Covers n) :
    r.get? n = if (getElem r.ids n.index hc).isValid then some (getElem r.ids n.index hc)
      else none := by
  have hlt : n.index < r.ids.size := hc
  rw [get?, Array.getElem?_eq_getElem hlt, Option.filter_some]
  rfl

theorem isDumped_eq_getElem (hc : n.index < r.entered.size) : r.isDumped n = r.entered[n.index] := by
  rw [isDumped, Array.getElem?_eq_getElem hc]
  rfl

theorem assign_of_get?_eq_some {d : DumpId} (hc : r.Covers n) (h : r.get? n = some d) :
    r.assign n hc = (d, r) := by
  rw [get?_eq_getElem hc, Option.ite_none_right_eq_some] at h
  obtain ⟨hvalid, heq⟩ := h
  rw [assign, if_pos hvalid, Option.some.inj heq]

theorem assign_of_get?_eq_none (hc : r.Covers n) (h : r.get? n = none) :
    r.assign n hc = (r.freshId n, r.give n) := by
  rw [get?_eq_getElem hc] at h
  rw [assign, if_neg]
  intro hvalid
  rw [if_pos hvalid] at h
  cases h

/-- A node keeps its id, or gets the next one. -/
theorem assign_cases (hc : r.Covers n) :
    (∃ d, r.get? n = some d ∧ r.assign n hc = (d, r)) ∨
      r.get? n = none ∧ r.assign n hc = (r.freshId n, r.give n) := by
  cases hget : r.get? n with
  | some d => exact .inl ⟨d, rfl, assign_of_get?_eq_some hc hget⟩
  | none => exact .inr ⟨rfl, assign_of_get?_eq_none hc hget⟩

theorem enter_of_isDumped (hc : r.Covers n) (h : r.isDumped n = true) :
    r.enter n hc = (false, r) := by
  rw [isDumped_eq_getElem (Nat.lt_of_lt_of_eq hc r.size_entered.symm)] at h
  rw [enter, if_pos h]

theorem enter_of_not_isDumped (hc : r.Covers n) (h : r.isDumped n = false) :
    r.enter n hc = (true, ((r.mark n).assign n hc).2) := by
  rw [isDumped_eq_getElem (Nat.lt_of_lt_of_eq hc r.size_entered.symm)] at h
  rw [enter, if_neg (by rw [h]; decide)]

theorem get?_give (hc : r.Covers n) (hvalid : (r.freshId n).isValid) (m : NodeId) :
    (r.give n).get? m = if m = n then some (r.freshId n) else r.get? m := by
  have hlt : n.index < r.ids.size := hc
  simp only [get?, give]
  by_cases hmn : m = n
  · subst hmn
    rw [Array.getElem?_setIfInBounds_self_of_lt hlt, if_pos rfl, Option.filter_some, if_pos hvalid]
  · rw [Array.getElem?_setIfInBounds_ne (mt NodeId.index_inj.1 (Ne.symm hmn)), if_neg hmn]

theorem isDumped_mark (hc : r.Covers n) (m : NodeId) :
    (r.mark n).isDumped m = if m = n then true else r.isDumped m := by
  have hlt : n.index < r.entered.size := Nat.lt_of_lt_of_eq hc r.size_entered.symm
  simp only [isDumped, mark]
  by_cases hmn : m = n
  · subst hmn
    rw [Array.getElem?_setIfInBounds_self_of_lt hlt, if_pos rfl]
    rfl
  · rw [Array.getElem?_setIfInBounds_ne (mt NodeId.index_inj.1 (Ne.symm hmn)), if_neg hmn]

end Questions

/-! ## The ids -/

/-- The nodes `known`, and no others, have ids, given in that order. There are fewer slots than words, so
    the counter has not wrapped. -/
structure Numbers (r : Registry) (known : List NodeId) : Prop where
  nodup : known.Nodup
  covers : ∀ n ∈ known, r.Covers n
  size_lt : r.ids.size < UInt32.size
  get?_eq : ∀ n, r.get? n = if n ∈ known then some (r.scheme.idIn known n) else none
  next_eq : r.next.toNat = r.scheme.counted known.length
  assigned : r.assigned = known.length

theorem numbers_new {size : Nat} (hsize : size < UInt32.size) (scheme : IdScheme) :
    (new size scheme).Numbers [] where
  nodup := List.nodup_nil
  covers := by simp
  size_lt := by simpa [new] using hsize
  get?_eq n := by
    rw [if_neg List.not_mem_nil, get?, Option.filter_eq_none_iff]
    intro d hd hvalid
    simp only [new, Array.getElem?_replicate, Option.ite_none_right_eq_some,
      Option.some.injEq] at hd
    exact DumpId.isValid_iff.1 hvalid hd.2.symm
  next_eq := by cases scheme <;> rfl
  assigned := rfl

theorem Numbers.length_le (h : r.Numbers known) : known.length ≤ r.ids.size :=
  NodeId.length_le_of_nodup h.nodup h.covers

theorem Numbers.mark (h : r.Numbers known) (n : NodeId) : (r.mark n).Numbers known :=
  ⟨h.nodup, h.covers, h.size_lt, h.get?_eq, h.next_eq, h.assigned⟩

theorem Numbers.freshId_eq (h : r.Numbers known) (hn : n ∉ known) :
    r.freshId n = r.scheme.idIn (known ++ [n]) n := by
  have hnext := h.next_eq
  unfold freshId IdScheme.idIn
  cases hscheme : r.scheme with
  | sequential =>
    rw [hscheme] at hnext
    have hlast : (known ++ [n]).idxOf n = known.length := by
      rw [List.idxOf_append_of_notMem hn, List.idxOf_cons_self, Nat.add_zero]
    simp only [hlast]
    rw [← show r.next.toNat = known.length from hnext, UInt32.ofNat_toNat]
  | nodeIndex => rfl

/-- A node without an id gets one that is not kept back, and the counter does not wrap. -/
theorem Numbers.give (h : r.Numbers known) (hc : r.Covers n) (hn : n ∉ known) :
    (r.give n).Numbers (known ++ [n]) := by
  have hnodup := NodeId.nodup_concat h.nodup hn
  have hcovers : ∀ m ∈ known ++ [n], r.Covers m := by
    intro m hm
    rw [List.mem_append, List.mem_singleton] at hm
    obtain hm | rfl := hm
    · exact h.covers m hm
    · exact hc
  have hlength := NodeId.length_le_of_nodup hnodup hcovers
  have hvalid : (r.freshId n).isValid := by
    rw [h.freshId_eq hn, DumpId.isValid_iff]
    exact IdScheme.idIn_ne_invalid (Nat.le_sub_one_of_lt h.size_lt) hlength (by simp) hc
  refine ⟨hnodup, fun m hm => covers_give.2 (hcovers m hm), ?_, ?_, ?_, ?_⟩
  · simpa [Registry.give] using h.size_lt
  · intro m
    rw [get?_give hc hvalid, h.freshId_eq hn, h.get?_eq]
    by_cases hmn : m = n
    · subst hmn
      simp [Registry.give]
    · by_cases hm : m ∈ known
      · simp [hmn, hm, IdScheme.idIn_append hm, Registry.give]
      · simp [hmn, hm]
  · have hnext := h.next_eq
    have hroom := Nat.lt_of_le_of_lt hlength h.size_lt
    rw [List.length_append, List.length_singleton] at hroom ⊢
    simp only [Registry.give, advance]
    cases hscheme : r.scheme with
    | sequential =>
      rw [hscheme] at hnext
      simp only [IdScheme.counted] at hnext ⊢
      rw [UInt32.toNat_add, hnext]
      exact Nat.mod_eq_of_lt hroom
    | nodeIndex =>
      rw [hscheme] at hnext
      exact hnext
  · rw [List.length_append, ← h.assigned]
    rfl

theorem Numbers.assign_of_mem (h : r.Numbers known) (hc : r.Covers n) (hn : n ∈ known) :
    r.assign n hc = (r.scheme.idIn known n, r) := by
  rw [assign_of_get?_eq_some hc]
  rw [h.get?_eq, if_pos hn]

theorem Numbers.assign_of_not_mem (h : r.Numbers known) (hc : r.Covers n) (hn : n ∉ known) :
    r.assign n hc = (r.scheme.idIn (known ++ [n]) n, r.give n) := by
  rw [assign_of_get?_eq_none hc, h.freshId_eq hn]
  rw [h.get?_eq, if_neg hn]

/-! ## The nodes entered -/

/-- The nodes `claimed`, and no others, were entered. -/
structure Claims (r : Registry) (claimed : List NodeId) : Prop where
  nodup : claimed.Nodup
  isDumped_iff : ∀ n, r.isDumped n ↔ n ∈ claimed
  dumped : r.dumped = claimed.length

theorem claims_new (size : Nat) (scheme : IdScheme) : (new size scheme).Claims [] where
  nodup := List.nodup_nil
  isDumped_iff n := by
    rw [isDumped, new, Array.getElem?_replicate]
    split <;> simp
  dumped := rfl

theorem Claims.mark (h : r.Claims claimed) (hc : r.Covers n) (hn : n ∉ claimed) :
    (r.mark n).Claims (claimed ++ [n]) where
  nodup := NodeId.nodup_concat h.nodup hn
  isDumped_iff m := by
    rw [isDumped_mark hc, List.mem_append, List.mem_singleton, ← h.isDumped_iff m]
    by_cases hmn : m = n
    · simp [hmn]
    · simp [hmn]
  dumped := by
    rw [List.length_append, ← h.dumped]
    rfl

theorem Claims.give (h : r.Claims claimed) (n : NodeId) : (r.give n).Claims claimed :=
  ⟨h.nodup, h.isDumped_iff, h.dumped⟩

theorem Claims.isDumped_eq_false (h : r.Claims claimed) (hn : n ∉ claimed) :
    r.isDumped n = false := by
  rw [Bool.eq_false_iff]
  exact fun hd => hn ((h.isDumped_iff n).1 hd)

/-! ## Registries of a traversal -/

/-- The registry in which the nodes `order`, and no others, were entered, in that order. -/
structure Entered (r : Registry) (order : List NodeId) : Prop where
  numbers : r.Numbers order
  claims : r.Claims order

theorem entered_new {size : Nat} (hsize : size < UInt32.size) (scheme : IdScheme) :
    (new size scheme).Entered [] :=
  ⟨numbers_new hsize scheme, claims_new size scheme⟩

theorem Entered.nodup (h : r.Entered order) : order.Nodup := h.numbers.nodup

theorem Entered.covers (h : r.Entered order) : ∀ n ∈ order, r.Covers n := h.numbers.covers

/-- The id of a node that was entered. -/
theorem Entered.get?_eq (h : r.Entered order) :
    r.get? n = if n ∈ order then some (r.scheme.idIn order n) else none :=
  h.numbers.get?_eq n

theorem Entered.isDumped_iff (h : r.Entered order) : r.isDumped n ↔ n ∈ order :=
  h.claims.isDumped_iff n

/-- No more nodes can be entered than there are. -/
theorem Entered.length_le (h : r.Entered order) : order.length ≤ r.ids.size := h.numbers.length_le

/-! ## Entering a node -/

/-- Entering a node again changes nothing. -/
theorem Entered.enter_of_mem (h : r.Entered order) (hc : r.Covers n) (hn : n ∈ order) :
    r.enter n hc = (false, r) :=
  enter_of_isDumped hc (h.isDumped_iff.2 hn)

/-- The registry after a node is entered for the first time. -/
def enroll (r : Registry) (n : NodeId) : Registry := (r.mark n).give n

/-- Entering a node for the first time gives it the next id. -/
theorem Entered.enter_of_not_mem (h : r.Entered order) (hc : r.Covers n) (hn : n ∉ order) :
    r.enter n hc = (true, r.enroll n) := by
  rw [enter_of_not_isDumped hc (h.claims.isDumped_eq_false hn),
    (h.numbers.mark n).assign_of_not_mem hc hn]
  rfl

/-- The nodes entered after one more. -/
theorem Entered.enroll (h : r.Entered order) (hc : r.Covers n) (hn : n ∉ order) :
    (r.enroll n).Entered (order ++ [n]) :=
  ⟨(h.numbers.mark n).give (covers_mark.2 hc) hn, (h.claims.mark hc hn).give n⟩

@[simp] theorem size_ids_enroll (r : Registry) (n : NodeId) :
    (r.enroll n).ids.size = r.ids.size := by simp [enroll, give, mark]

end Registry

end AstDump
