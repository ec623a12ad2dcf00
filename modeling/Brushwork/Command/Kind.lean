import Brushwork.Text.Blank

/-!
# The kinds of command

A line belongs to the first kind, in a fixed order, that accepts it. Most kinds
accept by the opening of the line. Assignment accepts any line with an arrow, and
it stands in the middle of the order, so `Size(x <- 1)` is an assignment while
`Spawn(x <- 1)` is not.
-/

namespace Brushwork.Command

/-- The kinds of command, in the order in which they are tried on a line. -/
inductive Kind where
  | goTo | spawn | color | drawLine | assign | fill | size | drawCircle | colorCount
  | drawRectangle
  deriving DecidableEq

namespace Kind

def all : List Kind :=
  [.goTo, .spawn, .color, .drawLine, .assign, .fill, .size, .drawCircle, .colorCount,
   .drawRectangle]

def keyword : Kind → Text
  | .goTo => "GoTo".toList
  | .spawn => "Spawn".toList
  | .color => "Color".toList
  | .drawLine => "DrawLine".toList
  | .assign => "<-".toList
  | .fill => "Fill".toList
  | .size => "Size".toList
  | .drawCircle => "DrawCircle".toList
  | .colorCount => "GetColorCount".toList
  | .drawRectangle => "DrawRectangle".toList

/-- The form of a command, as messages show it. -/
def usage : Kind → String
  | .goTo => "GoTo [label] (condition)"
  | .spawn => "Spawn(x, y)"
  | .color => "Color(\"Name\")"
  | .drawLine => "DrawLine(dirX, dirY, distance)"
  | .assign => "variable <- expression"
  | .fill => "Fill()"
  | .size => "Size(n)"
  | .drawCircle => "DrawCircle(dirX, dirY, radius)"
  | .colorCount => "GetColorCount(\"Name\", x1, y1, x2, y2)"
  | .drawRectangle => "DrawRectangle(dirX, dirY, distance, width, height)"

def title : Kind → Text
  | .assign => "assignment".toList
  | kind => kind.keyword

/-- The number of arguments, for the kinds written like a call. -/
def arity : Kind → Option Nat
  | .goTo | .assign => none
  | .fill => some 0
  | .color | .size => some 1
  | .spawn => some 2
  | .drawLine | .drawCircle => some 3
  | .colorCount | .drawRectangle => some 5

def takesColor : Kind → Bool
  | .color | .colorCount => true
  | _ => false

def isDrawing : Kind → Bool
  | .drawLine | .drawCircle | .drawRectangle | .fill => true
  | _ => false

def hasArrow : Text → Bool
  | '<' :: '-' :: _ => true
  | _ :: t => hasArrow t
  | [] => false

/-- Whether a line opens like a call of the keyword. -/
def opensCall (keyword line : Text) : Bool :=
  match dropStart? keyword line with
  | some ('(' :: _) => true
  | _ => false

def accepts (line : Text) : Kind → Bool
  | .goTo => "GoTo".toList.isPrefixOf line
  | .assign => hasArrow line
  | .fill => line == "Fill".toList || opensCall "Fill".toList line
  | kind => opensCall kind.keyword line

/-- The kind of a trimmed line: the first one that accepts it. -/
def ofLine? (line : Text) : Option Kind := all.find? (accepts line)

theorem mem_all (kind : Kind) : kind ∈ all := by cases kind <;> decide

end Kind

end Brushwork.Command
