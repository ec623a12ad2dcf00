/-!
# Searching a monotone function

`turningPoint p lo hi` is the first number of `lo, …, hi` at which `p` no longer
holds, found by halving, for a `p` that never holds again once it has failed.
From two such searches `stretchWithin` gets the stretch on which a monotone
function stays between two bounds. The numbers are as long as need be;
`Brushwork.Canvas.Wide` has the same search in words of 128 bits.
-/

namespace Brushwork

/-- The first number from `lo` on, and below `hi`, at which `p` fails; `hi` if there is none. -/
def turningPoint (p : Int → Bool) (lo hi : Int) : Int :=
  if lo < hi then
    let mid := lo + (hi - lo) / 2
    if p mid then turningPoint p (mid + 1) hi else turningPoint p lo mid
  else lo
termination_by (hi - lo).toNat
decreasing_by all_goals omega

/-- The stretch of `first, …, last` on which a monotone `f` stays between two bounds, by its first
number and the first one beyond it. A function with equal ends is taken as rising, which is right
because it is constant. -/
def stretchWithin (f : Int → Int) (first last low high : Int) : Int × Int :=
  if f first ≤ f last then
    (turningPoint (fun k => f k < low) first (last + 1),
      turningPoint (fun k => f k ≤ high) first (last + 1))
  else
    (turningPoint (fun k => high < f k) first (last + 1),
      turningPoint (fun k => low ≤ f k) first (last + 1))

/-- The first and the last `k` of `first, …, last` with `low ≤ f k ≤ high`, for monotone `f`. -/
def rangeWithin (f : Int → Int) (first last low high : Int) : Option (Int × Int) :=
  let (start, stop) := stretchWithin f first last low high
  if start < stop then some (start, stop - 1) else none

/-- The stretch of `first, …, last` with `low ≤ f k ≤ high`, for monotone `f`, and one number more
on each side where there is one. -/
def rangeAround (f : Int → Int) (first last low high : Int) : Int × Int :=
  let (start, stop) := stretchWithin f first last low high
  (max (start - 1) first, min stop last)

end Brushwork
