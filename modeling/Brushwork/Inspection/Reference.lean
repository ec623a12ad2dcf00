import Brushwork.Agent.Basic
import Brushwork.Command.Basic
import Brushwork.Labels
import Brushwork.Text.DecimalDigit

/-!
# What a line refers to

What can be said against a line by looking at it, the labels and the size of the
canvas: labels that are not declared, literal places outside the canvas, colors
that do not exist, and corners in the wrong order. Colors and corners are looked
for everywhere in a line, whatever surrounds them.
-/

namespace Brushwork.Inspection

/-- What a reader finds in a text from left to right, each time going on after what it has read. -/
def occurrences {α : Type} (read? : Text → Option (α × Text)) : Text → List α
  | [] => []
  | c :: t =>
    match read? (c :: t) with
    | none => occurrences read? t
    | some (a, rest) =>
      if rest.length ≤ t.length then a :: occurrences read? rest else [a]
termination_by t => t.length
decreasing_by all_goals simp only [List.length_cons]; omega

def word? (words : List Text) (t : Text) : Option Text :=
  words.findSome? fun word => dropStart? word t

def countOpening : Text := "GetColorCount(".toList

def colorOpenings : List Text := ["IsBrushColor(".toList, "IsCanvasColor(".toList, countOpening]

def quotation? (t : Text) : Option (Text × Text) := do
  let rest ← dropStart? ['"'] t
  let after ← dropStart? ['"'] (rest.dropWhile (· ≠ '"'))
  return (rest.takeWhile (· ≠ '"'), after)

/-- Reads an optional minus sign and decimal digits of any script. -/
def numeral? (t : Text) : Option (Text × Text) :=
  let (sign, t) := match t with
    | '-' :: rest => (['-'], rest)
    | rest => ([], rest)
  let digits := t.takeWhile isDecimalDigit
  if digits.isEmpty then none else some (sign ++ digits, t.dropWhile isDecimalDigit)

/-- Reads a given character with any blanks around it. -/
def mark? (c : Char) (t : Text) : Option Text := do
  let rest ← dropStart? [c] (trimStart t)
  return trimStart rest

/-- Reads a query that takes a color, up to its color name, which is the answer. -/
def colorQuery? (t : Text) : Option (Text × Text) := do
  let rest ← word? colorOpenings t
  quotation? (trimStart rest)

/-- Reads a count of a color between corners that are all literals; the answer is the corners. -/
def literalCount? (t : Text) : Option (List Text × Text) := do
  let rest ← dropStart? countOpening t
  let (_, rest) ← quotation? (trimStart rest)
  let (x1, rest) ← numeral? (← mark? ',' rest)
  let (y1, rest) ← numeral? (← mark? ',' rest)
  let (x2, rest) ← numeral? (← mark? ',' rest)
  let (y2, rest) ← numeral? (← mark? ',' rest)
  let rest ← dropStart? [')'] (trimStart rest)
  return ([x1, y1, x2, y2], rest)

def referenceFinding (message : String) : Finding := ⟨.semantic, message⟩

def colorFinding (name : Text) : List Finding :=
  match Color.named name with
  | .ok _ => []
  | .error fault => [fault.finding]

def jumpFinding (labels : Labels) (line : Text) : List Finding :=
  match Command.jumpParts? line with
  | some (label, _) =>
    if labels.declares label then []
    else [referenceFinding ("label " ++ quoted label ++ " is not defined")]
  | none => []

def spawnFinding (size : Nat) (line : Text) : List Finding :=
  match (callArguments? "Spawn".toList line).map splitArguments with
  | some [x, y] =>
    match literalValue? x, literalValue? y with
    | some x, some y =>
      if Point.inSquare ⟨x, y⟩ size then []
      else [referenceFinding ("spawn position " ++ Fault.pair x y ++
        " is outside the canvas (size " ++ toString size ++ ")")]
    | _, _ => []
  | _ => []

/-- The finding that the first corner is not the top left one. -/
def cornerFinding (corners : List Text) : List Finding :=
  match corners.map literalValue? with
  | [some x1, some y1, some x2, some y2] =>
    if x2 < x1 || y2 < y1 then
      [referenceFinding "first corner must be the top-left one (x1 <= x2, y1 <= y2)"]
    else []
  | _ => []

/-- What can be said against the names and literals of a command's own form. -/
def commandReference (labels : Labels) (size : Nat) (line : Text) : List Finding :=
  match Command.Kind.ofLine? line with
  | some .goTo => jumpFinding labels line
  | some .spawn => spawnFinding size line
  | some .color =>
    match callArguments? "Color".toList line >>= quotedText? with
    | some name => colorFinding name
    | none => []
  | _ => []

def reference (labels : Labels) (size : Nat) (line : Text) : List Finding :=
  commandReference labels size line ++
    (occurrences colorQuery? line).flatMap colorFinding ++
    (occurrences literalCount? line).flatMap cornerFinding

end Brushwork.Inspection
