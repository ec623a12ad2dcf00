/-!
# Heights of the first octant

The circle of radius `r` around the origin runs, in the octant between the
vertical axis and the diagonal, over the columns `0, …, lastColumn r`; at column
`t` its height is the whole number whose square, with that of `t`, comes closest
to the square of `r`.
-/

namespace Brushwork.Octant

/-- The greatest number whose square is at most `n`, by the mean of a guess that is not below it
and the quotient of `n` by the guess, as long as that is a smaller guess. -/
def floorSqrtFrom (n guess : Nat) : Nat :=
  let next := (guess + n / guess) / 2
  if next < guess then floorSqrtFrom n next else guess
termination_by guess

/-- The greatest number whose square is at most `n`. The first guess is the power of two above
the root. -/
def floorSqrt (n : Nat) : Nat :=
  if n ≤ 1 then n else floorSqrtFrom n (1 <<< (n.log2 / 2 + 1))

/-- The height of the circle of radius `r` at a column `t` with `t ≤ r`. -/
def height (r t : Nat) : Nat :=
  let rest := r * r - t * t
  let s := floorSqrt rest
  if (s + 1) * (s + 1) - rest < rest - s * s then s + 1 else s

def lastColumnFrom (r lo hi : Nat) : Nat :=
  if lo < hi then
    let mid := lo + (hi - lo + 1) / 2
    if mid ≤ height r mid then lastColumnFrom r mid hi else lastColumnFrom r lo (mid - 1)
  else lo
termination_by hi - lo
decreasing_by all_goals omega

/-- The last column of the octant, where the circle meets the diagonal. -/
def lastColumn (r : Nat) : Nat := lastColumnFrom r 0 r

end Brushwork.Octant
