import Brushwork.Text.Blank

/-!
# The palette

Fifteen colors with their names, their red-green-blue values and the characters
that stand for them in text pictures. `Transparent` never reaches a canvas by
drawing; where it must be shown it has the value of white.
-/

namespace Brushwork

inductive Color where
  | red | green | blue | yellow | black | white | transparent | orange | purple
  | orangeRed | darkBlue | darkRed | gold | darkGreen | firebrick
  deriving DecidableEq, Inhabited

namespace Color

/-- Every color, in the order in which the palette is listed. -/
def palette : List Color :=
  [.red, .green, .blue, .yellow, .black, .white, .transparent, .orange, .purple,
   .orangeRed, .darkBlue, .darkRed, .gold, .darkGreen, .firebrick]

def name : Color → Text
  | .red => "Red".toList
  | .green => "Green".toList
  | .blue => "Blue".toList
  | .yellow => "Yellow".toList
  | .black => "Black".toList
  | .white => "White".toList
  | .transparent => "Transparent".toList
  | .orange => "Orange".toList
  | .purple => "Purple".toList
  | .orangeRed => "OrangeRed".toList
  | .darkBlue => "DarkBlue".toList
  | .darkRed => "DarkRed".toList
  | .gold => "Gold".toList
  | .darkGreen => "DarkGreen".toList
  | .firebrick => "Firebrick".toList

/-- The value of a color: a byte each of red, green and blue, red in the highest place. -/
def rgb : Color → Nat
  | .red => 0xFF0000
  | .green => 0x008000
  | .blue => 0x0000FF
  | .yellow => 0xFFFF00
  | .black => 0x000000
  | .white => 0xFFFFFF
  | .transparent => 0xFFFFFF
  | .orange => 0xFFA500
  | .purple => 0x800080
  | .orangeRed => 0xFF4500
  | .darkBlue => 0x00008B
  | .darkRed => 0x8B0000
  | .gold => 0xFFD700
  | .darkGreen => 0x006400
  | .firebrick => 0xB22222

/-- The character of a color in text pictures. -/
def symbol : Color → Char
  | .red => 'R'
  | .green => 'G'
  | .blue => 'B'
  | .yellow => 'Y'
  | .black => '#'
  | .white => ' '
  | .transparent => '.'
  | .orange => 'O'
  | .purple => 'P'
  | .orangeRed => 'o'
  | .darkBlue => 'b'
  | .darkRed => 'r'
  | .gold => '$'
  | .darkGreen => 'g'
  | .firebrick => 'f'

/-- The color with a given name. Names are compared letter by letter, case included. -/
def ofName? (t : Text) : Option Color := palette.find? fun color => color.name == t

theorem mem_palette (color : Color) : color ∈ palette := by cases color <;> decide

@[simp] theorem ofName?_name (color : Color) : ofName? color.name = some color := by
  cases color <;> decide

end Color

end Brushwork
