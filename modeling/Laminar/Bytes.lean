import Mathlib

/-! A C++ `std::string` is a list of bytes; its order is the bytes' lexicographic order. -/
namespace Laminar

abbrev Bytes := List UInt8

def text (s : String) : Bytes := s.toUTF8.data.toList

end Laminar
