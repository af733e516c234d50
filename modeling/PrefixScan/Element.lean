import PrefixScan.Word
import PrefixScan.Operator

/-!
# Element types

A scan works on integers of 8, 16, 32 or 64 bits, whose arithmetic wraps, and on binary32 and
binary64 floating-point numbers. Signed and unsigned integers of one width have the same sums and
products, they differ only in how they are written.

## Main definitions

* `ElementType` — the element types.
* `ElementType.Carrier` — the values of an element type.
* `ElementType.sum`, `ElementType.prod` — the operators of an element type.
-/

namespace PrefixScan

/-- Type of the elements of a buffer. -/
inductive ElementType
  /-- Integers of `bytes` bytes in two's complement. -/
  | int (signed : Bool) (bytes : Nat)
  /-- Numbers of binary32. -/
  | float32
  /-- Numbers of binary64. -/
  | float64
deriving DecidableEq, Repr

namespace ElementType

/-- Values of an element type. -/
abbrev Carrier : ElementType → Type
  | .int _ bytes => BitVec (8 * bytes)
  | .float32 => Float32
  | .float64 => Float

/-- Name of an element type, as it ends the names of kernels. -/
def name : ElementType → String
  | .int signed bytes => (if signed then "i" else "u") ++ toString (8 * bytes)
  | .float32 => "f32"
  | .float64 => "f64"

/-- Size of an element in bytes. -/
def size : ElementType → Size
  | .int _ bytes => BitVec.ofNat 64 bytes
  | .float32 => 4
  | .float64 => 8

instance : (t : ElementType) → Inhabited t.Carrier
  | .int _ bytes => inferInstanceAs (Inhabited (BitVec (8 * bytes)))
  | .float32 => inferInstanceAs (Inhabited Float32)
  | .float64 => inferInstanceAs (Inhabited Float)

/-- Running sum. -/
def sum : (t : ElementType) → Operator t.Carrier
  | .int _ bytes => Operator.sum (α := BitVec (8 * bytes))
  | .float32 => Operator.sum (α := Float32)
  | .float64 => Operator.sum (α := Float)

/-- Running product. -/
def prod : (t : ElementType) → Operator t.Carrier
  | .int _ bytes => Operator.prod (α := BitVec (8 * bytes))
  | .float32 => Operator.prod (α := Float32)
  | .float64 => Operator.prod (α := Float)

end ElementType

end PrefixScan
