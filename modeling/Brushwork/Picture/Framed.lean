import Brushwork.Canvas.Basic

/-!
# Pictures as framed text

The canvas as text, the symbol of its color for each cell, inside a frame of box
characters.
-/

namespace Brushwork.Picture

def framedRow (row : List Color) : Text := '│' :: row.map Color.symbol ++ ['│']

/-- The top or the bottom of the frame, between two corner characters. -/
def frameEdge (left : Char) (size : Nat) (right : Char) : Text :=
  left :: List.replicate size '─' ++ [right]

def framedLines (canvas : Canvas) : List Text :=
  frameEdge '┌' canvas.size '┐' :: canvas.rows.map framedRow ++
    [frameEdge '└' canvas.size '┘']

/-- The framed text of a canvas, each of its lines ended by a line feed. -/
def framed (canvas : Canvas) : Text := (framedLines canvas).flatMap (· ++ ['\n'])

end Brushwork.Picture
