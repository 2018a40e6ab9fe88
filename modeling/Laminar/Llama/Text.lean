import Laminar.Bytes
import Laminar.Library.Lines

/-! The character and number conventions of the C++ library that the llama-server code uses,
in the "C" locale. -/
namespace Laminar.Llama
open Laminar.Lines

def isSpace (c : UInt8) : Bool := c == 32 || (9 ≤ c && c ≤ 13)

def isDigit (c : UInt8) : Bool := 48 ≤ c && c ≤ 57

def trimWhitespace (value : Bytes) : Bytes :=
  ((value.dropWhile isSpace).reverse.dropWhile isSpace).reverse

/-- Every run of whitespace becomes one blank, before the blanks at both ends go. -/
def collapseWhitespace (value : Bytes) : Bytes :=
  let rec collapse : Bool → Bytes → Bytes
    | _, [] => []
    | previousSpace, c :: rest =>
      if isSpace c then
        if previousSpace then collapse true rest else 32 :: collapse true rest
      else c :: collapse false rest
  trimWhitespace (collapse false value)

def startsWith (value literal : Bytes) : Bool := literal.isPrefixOf value

/-- `std::getline` on a stream of `value`, until it fails. -/
def getlines (value : Bytes) : List Bytes :=
  let r := splitLines 10 value
  if r.2 = [] then r.1 else r.1 ++ [r.2]

def decimal (value : Int) : Bytes := text (toString value)

def digitsValue (digits : Bytes) : Nat :=
  digits.foldl (fun value c => 10 * value + (c.toNat - 48)) 0

/-- An optional sign and a run of digits after blanks; nothing when there is no digit. -/
def readDecimal (value : Bytes) : Option Int :=
  let rest := value.dropWhile isSpace
  let negative := rest.head? = some 45
  let rest := if rest.head? = some 45 ∨ rest.head? = some 43 then rest.tail else rest
  let digits := rest.takeWhile isDigit
  if digits = [] then none
  else if negative then some (-(digitsValue digits : Int))
  else some (digitsValue digits)

/-- `std::strtol` in base 10 for a 64-bit `long`; nothing when it consumes no character. -/
def strtol (value : Bytes) : Option Int :=
  (readDecimal value).map (fun v => max (-2 ^ 63) (min v (2 ^ 63 - 1)))

/-- `static_cast<int>` of a `long`. -/
def toInt (value : Int) : Int := value.bmod (2 ^ 32)

/-- `stream >> http_version >> status_code` on a status line, from a status code of 0. -/
def readStatusCode (line : Bytes) : Int :=
  let rest := line.dropWhile isSpace
  if rest = [] then 0
  else
    match readDecimal (rest.dropWhile (fun c => !isSpace c)) with
    | none => 0
    | some v => max (-2 ^ 31) (min v (2 ^ 31 - 1))

end Laminar.Llama
