import OpenCut.Domain.Edit

/-!
# The order of texts

Go compares strings byte by byte, which is the order of their runes by code point.
-/

namespace OpenCut

/-- The order of `sort.Strings`: `a <= b`. -/
def textLE : Text → Text → Bool
  | [], _ => true
  | _ :: _, [] => false
  | a :: as, b :: bs => a.toNat < b.toNat || (a == b && textLE as bs)

end OpenCut
