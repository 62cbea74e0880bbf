/-!
# Qualifiers

The qualifiers of a wrapper are a set of three flags. Its written form is a byte whose low three
bits are the flags; `ofBits` drops the other bits and `ofBits?` refuses them.
-/

namespace AstDump

/-- The qualifiers that a wrapper puts on a type. -/
structure Qualifiers where
  isConst : Bool := false
  isVolatile : Bool := false
  isRestrict : Bool := false
  deriving DecidableEq, Repr

namespace Qualifiers

/-- No qualifier. -/
def empty : Qualifiers := {}

/-- Every qualifier. -/
def full : Qualifiers := ⟨true, true, true⟩

/-- The flags as a byte: 1, 2 and 4. -/
def bits (q : Qualifiers) : UInt8 :=
  (if q.isConst then 1 else 0) + (if q.isVolatile then 2 else 0) + (if q.isRestrict then 4 else 0)

/-- The flags of a byte; bits that stand for no qualifier are dropped. -/
def ofBits (b : UInt8) : Qualifiers :=
  ⟨b &&& 1 != 0, b &&& 2 != 0, b &&& 4 != 0⟩

/-- The flags of a byte in which every set bit stands for a qualifier. -/
def ofBits? (b : UInt8) : Option Qualifiers :=
  if b &&& 7 = b then some (ofBits b) else none

/-- The names of the flags that are set, in the order of their bits. -/
def names (q : Qualifiers) : List String :=
  (if q.isConst then ["CONST"] else []) ++ (if q.isVolatile then ["VOLATILE"] else []) ++
    (if q.isRestrict then ["RESTRICT"] else [])

end Qualifiers

end AstDump
