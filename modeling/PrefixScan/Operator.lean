/-!
# Scan operators

A scan combines a prefix with the value that follows it. The operation need not be associative:
sums and products of floating-point numbers are scanned too.

## Main definitions

* `Operator` — a combine operation and the value that pads incomplete planes.
* `Operator.sum`, `Operator.prod` — running sum and running product.
-/

namespace PrefixScan

/-- What a scan does with its elements. -/
structure Operator (α : Type) where
  /-- The value fed to a plane by units that hold no item. -/
  identity : α
  /-- Combines a prefix with the value that follows it. -/
  combine : α → α → α

namespace Operator

variable {α : Type}

/-- Running sum. -/
def sum [OfNat α 0] [Add α] : Operator α := ⟨0, (· + ·)⟩

/-- Running product. Padding is one rather than zero. -/
def prod [OfNat α 1] [Mul α] : Operator α := ⟨1, (· * ·)⟩

end Operator

end PrefixScan
