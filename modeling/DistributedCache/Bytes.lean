import Mathlib.Data.List.Basic

/-! Byte strings, which stand for `std::string` and `std::string_view`, and the exceptions of the
standard library that the program throws. -/

namespace DistributedCache

abbrev Bytes := List UInt8

/-- The bytes of an ASCII literal. -/
def ascii (text : String) : Bytes := text.toList.map Char.toUInt8

/-- The line terminator `"\r\n"`. -/
def crlf : Bytes := [13, 10]

/-- An exception with the text that `what()` returns. -/
inductive StdException
  | invalidArgument (what : String)
  | outOfRange (what : String)
deriving DecidableEq, Repr

end DistributedCache
