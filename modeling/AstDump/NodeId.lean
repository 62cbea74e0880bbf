/-!
# Node ids

A node of an arena is named by its position, a 32-bit word. The greatest word is kept back to mean
"no node"; an arena never grows far enough to use it as a position.
-/

namespace AstDump

/-- The position of a node in its arena. -/
structure NodeId where
  raw : UInt32
  deriving DecidableEq, Repr

namespace NodeId

/-- The id that names no node: the greatest word. -/
def invalid : NodeId := ⟨0xFFFFFFFF⟩

instance : Inhabited NodeId := ⟨invalid⟩

/-- The id of position `i`, for positions that fit in a word. -/
def ofIndex (i : Nat) : NodeId := ⟨UInt32.ofNat i⟩

/-- The position as a natural number, to index a table. -/
def index (n : NodeId) : Nat := n.raw.toNat

/-- Whether the id can name a node at all. -/
def isValid (n : NodeId) : Bool := n.raw != invalid.raw

/-- The id as messages show it. -/
def label (n : NodeId) : String :=
  if n = invalid then "NodeId::INVALID" else s!"NodeId({n.raw.toNat})"

/-- The different ids among `ids`, in ascending order. -/
def ascending (ids : List NodeId) : List NodeId :=
  ids.eraseDups.mergeSort fun a b => decide (a.raw ≤ b.raw)

@[simp] theorem index_ofIndex {i : Nat} (h : i < UInt32.size) : (ofIndex i).index = i := by
  simp only [index, ofIndex, UInt32.toNat_ofNat']
  exact Nat.mod_eq_of_lt h

@[simp] theorem ofIndex_index (n : NodeId) : ofIndex n.index = n := by
  cases n; simp [index, ofIndex]

theorem index_inj {m n : NodeId} : m.index = n.index ↔ m = n := by
  cases m; cases n; simp [index, UInt32.toNat_inj]

end NodeId

end AstDump
