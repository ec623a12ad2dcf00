import Brushwork.Text.Blank

/-!
# Decimal numerals

Numerals of whole numbers in base ten, and the numbers that fit a signed word of
64 bits. A literal is an optional minus sign and at least one ASCII digit; it
has a value only when that value fits.
-/

namespace Brushwork

/-- The least number of a signed 64-bit word. -/
def leastWord : Int := -9223372036854775808

def greatestWord : Int := 9223372036854775807

def fitsWord (n : Int) : Bool := leastWord ≤ n && n ≤ greatestWord

/-- The number that a text of ASCII digits spells. -/
def digitsValue (digits : Text) : Nat :=
  digits.foldl (fun n c => 10 * n + (c.toNat - '0'.toNat)) 0

def decimal (n : Int) : Text :=
  if n < 0 then '-' :: Nat.toDigits 10 n.natAbs else Nat.toDigits 10 n.natAbs

/-- The value of a literal: an optional minus sign and ASCII digits, for a value that fits. -/
def literalValue? (t : Text) : Option Int :=
  let (negative, digits) := match t with
    | '-' :: rest => (true, rest)
    | rest => (false, rest)
  let value : Int := if negative then -(digitsValue digits) else digitsValue digits
  if !digits.isEmpty && digits.all Char.isDigit && fitsWord value then some value else none

theorem fitsWord_iff (n : Int) : fitsWord n = true ↔ leastWord ≤ n ∧ n ≤ greatestWord := by
  simp [fitsWord]

example : decimal (-120) = "-120".toList := by decide

example : literalValue? "-9223372036854775808".toList = some leastWord := by decide

example : literalValue? "9223372036854775808".toList = none := by decide

end Brushwork
