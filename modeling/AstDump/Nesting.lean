/-!
# Nested calls

A traversal nests as deep as the longest chain of nodes. A guarded call may ask for more stack
first; what it answers is the same with and without.
-/

namespace AstDump

/-- Runs `f`, with more stack if `grow` asks for it. -/
@[inline] def guarded {α : Type} (grow : Bool) (f : Unit → α) : α :=
  if grow then f () else f ()

theorem guarded_eq {α : Type} (grow : Bool) (f : Unit → α) : guarded grow f = f () := by
  cases grow <;> rfl

/-- The depth reached by so many guarded calls, each inside the one before, from a depth on. -/
def nestedDepth (grow : Bool) : (calls depth : Nat) → Nat
  | 0, depth => depth
  | calls + 1, depth => guarded grow fun _ => nestedDepth grow calls (depth + 1)

end AstDump
