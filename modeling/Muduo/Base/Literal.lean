import Mathlib.Data.Nat.Notation

/-! String literals. -/

namespace Muduo.Net

/-- The characters of a C++ string literal. -/
def ascii (s : String) : List UInt8 := s.toUTF8.data.toList

end Muduo.Net
