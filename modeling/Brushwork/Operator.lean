import Brushwork.Fault

/-!
# Operators on numbers

Numbers are unbounded integers; an operation whose exact result does not fit a
signed 64-bit word is an overflow. Division goes toward zero, and a remainder is
defined exactly when its quotient is, so the remainder of the least word by
minus one is an overflow too. Raising to a power works on the nearest binary64
values of both operands, drops the fraction and stays inside the word.

The magnitude of a word is the one operation that is taken without a check. That of
the least word does not fit, and machines differ in what comes of it.
-/

namespace Brushwork

def inWord (n : Int) : Except Fault Int :=
  if fitsWord n then .ok n else .error .overflow

/-- What a machine does where an unchecked result does not fit a word: it goes on with the result
wrapped round, or it traps and stops the program. -/
inductive Machine where
  | wrapping | trapping
  deriving DecidableEq

/-- The magnitude of a word. That of the least word wraps round to the least word itself. -/
def magnitude (n : Int) : Int := if n = leastWord then leastWord else n.natAbs

/-- The power of the nearest binary64 values, cut toward zero and kept inside the word. -/
def power (base exponent : Int) : Int :=
  ((Float.ofInt base).pow (Float.ofInt exponent)).toInt64.toInt

inductive Arith where
  | add | sub | mul | div | rem | pow
  deriving DecidableEq

def Arith.symbol : Arith → Text
  | .add => "+".toList
  | .sub => "-".toList
  | .mul => "*".toList
  | .div => "/".toList
  | .rem => "%".toList
  | .pow => "**".toList

def Arith.apply : Arith → Int → Int → Except Fault Int
  | .add, a, b => inWord (a + b)
  | .sub, a, b => inWord (a - b)
  | .mul, a, b => inWord (a * b)
  | .div, a, b => if b = 0 then .error .divideByZero else inWord (a.tdiv b)
  | .rem, a, b =>
    if b = 0 then .error .divideByZero
    else do
      let _ ← inWord (a.tdiv b)
      return a.tmod b
  | .pow, a, b => .ok (power a b)

inductive Comparison where
  | eq | ne | le | ge | lt | gt
  deriving DecidableEq

def Comparison.symbol : Comparison → Text
  | .eq => "==".toList
  | .ne => "!=".toList
  | .le => "<=".toList
  | .ge => ">=".toList
  | .lt => "<".toList
  | .gt => ">".toList

def Comparison.holds : Comparison → Int → Int → Bool
  | .eq, a, b => a == b
  | .ne, a, b => a != b
  | .le, a, b => a ≤ b
  | .ge, a, b => b ≤ a
  | .lt, a, b => a < b
  | .gt, a, b => b < a

theorem magnitude_of_ne {n : Int} (h : n ≠ leastWord) : magnitude n = n.natAbs := if_neg h

theorem inWord_eq_ok_iff {n m : Int} : inWord n = .ok m ↔ fitsWord n = true ∧ n = m := by
  simp only [inWord]
  split <;> simp_all

example : Arith.apply .rem (-7) 2 = .ok (-1) := rfl

example : Arith.apply .rem leastWord (-1) = .error .overflow := rfl

end Brushwork
