import Brushwork.Canvas.Basic

/-!
# Pictures as portable pixmaps

The plain-text form of a portable pixmap: the mark `P3`, the two side lengths, the
greatest value of a channel, and then a line for each row of the canvas with the
red, green and blue values of its cells, all separated by single spaces.
-/

namespace Brushwork.Picture

/-- The red, green and blue values of a color, each from 0 to 255. -/
def channels (color : Color) : List Nat :=
  [color.rgb / 0x10000 % 0x100, color.rgb / 0x100 % 0x100, color.rgb % 0x100]

def spaced (numbers : List Nat) : Text :=
  [' '].intercalate (numbers.map fun (n : Nat) => decimal n)

def ppmRow (row : List Color) : Text := spaced (row.flatMap channels)

def ppmLines (canvas : Canvas) : List Text :=
  "P3".toList :: spaced [canvas.size, canvas.size] :: spaced [255] :: canvas.rows.map ppmRow

/-- The pixmap of a canvas, each of its lines ended by a line feed. -/
def ppm (canvas : Canvas) : Text := (ppmLines canvas).flatMap (· ++ ['\n'])

end Brushwork.Picture
