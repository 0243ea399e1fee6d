/-!
# Decimal numbers

Reading integers written in decimal digits.  A number has at least one digit; any number of
leading zeros is allowed, and so is one sign, where there can be one.  A number that is written
correctly and lies outside the range of its type has no value.
-/

namespace DeclLang

namespace Decimal

/-- The value of a run of digits, the most significant first. -/
def value (digits : List Char) : Nat :=
  digits.foldl (fun n d => 10 * n + (d.toNat - '0'.toNat)) 0

/-- The natural number that is written without a sign. -/
def natural? (text : List Char) : Option Nat :=
  if text ≠ [] ∧ text.all Char.isDigit then some (value text) else none

/-- The integer that is written with at most one sign. -/
def integer? : List Char → Option Int
  | '-' :: digits => (natural? digits).map fun n => -(n : Int)
  | '+' :: digits => (natural? digits).map fun n => (n : Int)
  | digits => (natural? digits).map fun n => (n : Int)

/-- The signed 64-bit integer that is written with at most one sign. -/
def int64? (text : String) : Option Int64 :=
  match integer? text.toList with
  | some n =>
    if Int64.minValue.toInt ≤ n ∧ n ≤ Int64.maxValue.toInt then some (Int64.ofInt n) else none
  | none => none

/-- The unsigned 64-bit integer that is written with at most one plus sign. -/
def unsigned64? (text : String) : Option Nat :=
  let digits := match text.toList with
    | '+' :: digits => digits
    | digits => digits
  match natural? digits with
  | some n => if n < UInt64.size then some n else none
  | none => none

end Decimal

end DeclLang
