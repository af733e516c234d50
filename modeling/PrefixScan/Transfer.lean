import PrefixScan.Word

/-!
# Transfers from the device

The contents of a buffer come back from the device as bytes, which are then taken as elements. The
storage of a buffer is aligned for every element type, but an empty buffer has no storage, and its
bytes are placed no better than a single byte.

## Main definitions

* `readBack` — the elements of a buffer, or the fault of an empty one.
-/

namespace PrefixScan

variable {α : Type}

/-- The elements of a buffer on the device. An empty buffer can only be read back if its elements
are single bytes. -/
def readBack (elementSize : Size) (elements : List α) : Except Fault (List α) :=
  if elements.isEmpty && 1 < elementSize then .error .misaligned else .ok elements

end PrefixScan
