import Brushwork.Text.Blank

/-!
# Argument lists inside a line

Parentheses and commas count only outside double quotation marks. Both readers
of this file walk over a line with the same `Nesting`: how many parentheses are
open, and whether a quotation is. The count may fall below zero; a comma then
separates nothing.
-/

namespace Brushwork

/-- What is open at a place in a line. -/
structure Nesting where
  /-- Parentheses opened and not closed; negative after a surplus of closing ones. -/
  depth : Int := 0
  inQuotes : Bool := false
  deriving DecidableEq

def Nesting.after (s : Nesting) (c : Char) : Nesting :=
  if c = '"' then { s with inQuotes := !s.inQuotes }
  else if s.inQuotes then s
  else if c = '(' then { s with depth := s.depth + 1 }
  else if c = ')' then { s with depth := s.depth - 1 }
  else s

/-- Whether a comma at this place separates two arguments. -/
def Nesting.atTop (s : Nesting) : Bool := !s.inQuotes && s.depth == 0

/-- Whether, from a given nesting on, no parenthesis closes too early and all are closed. -/
def balancedFrom (s : Nesting) : Text → Bool
  | [] => s.depth == 0
  | c :: t =>
    let s' := s.after c
    if s'.depth < 0 then false else balancedFrom s' t

def parenthesesBalanced (line : Text) : Bool := balancedFrom {} line

/-- The piece up to the first separating comma, and the pieces after it. -/
def piecesFrom (s : Nesting) : Text → Text × List Text
  | [] => ([], [])
  | c :: t =>
    let (first, others) := piecesFrom (s.after c) t
    if c = ',' && s.atTop then ([], first :: others) else (c :: first, others)

/-- The trimmed pieces between separating commas; a blank text has none. -/
def splitArguments (arguments : Text) : List Text :=
  if (trim arguments).isEmpty then []
  else
    let (first, others) := piecesFrom {} arguments
    (first :: others).map trim

/-- The text between `keyword(` and a final `)`, for a line of that shape. -/
def callArguments? (keyword line : Text) : Option Text := do
  let rest ← dropStart? keyword line
  let rest ← dropStart? ['('] rest
  dropFinal? ')' rest

/-- The text between one pair of surrounding double quotation marks, blanks around it aside. -/
def quotedText? (argument : Text) : Option Text := do
  let rest ← dropStart? ['"'] (trim argument)
  dropFinal? '"' rest

example : splitArguments "1,,(2, 3)".toList = ["1".toList, [], "(2, 3)".toList] := by decide

example : parenthesesBalanced "Color(\")\")".toList = true := by decide

end Brushwork
