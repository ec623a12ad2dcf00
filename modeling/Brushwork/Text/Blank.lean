/-!
# Text and its blank characters

Program text is a list of characters, so that every reader in the library is a
recursion on the text itself. The blank characters are those with the Unicode
property White_Space; trimming removes them at both ends and nothing else.
-/

namespace Brushwork

/-- The text of a program, of one of its lines, or of a piece of a line. -/
abbrev Text := List Char

/-- The characters with the Unicode property White_Space. -/
def isBlank (c : Char) : Bool :=
  let n := c.toNat
  (0x09 ≤ n && n ≤ 0x0D) || n == 0x20 || n == 0x85 || n == 0xA0 || n == 0x1680 ||
    (0x2000 ≤ n && n ≤ 0x200A) || n == 0x2028 || n == 0x2029 || n == 0x202F ||
    n == 0x205F || n == 0x3000

def trimStart (t : Text) : Text := t.dropWhile isBlank

def trimEnd (t : Text) : Text := (t.reverse.dropWhile isBlank).reverse

def trim (t : Text) : Text := trimEnd (trimStart t)

/-- What follows `start` in a text, if the text starts with it. -/
def dropStart? : (start t : Text) → Option Text
  | [], t => some t
  | _ :: _, [] => none
  | s :: start, c :: t => if s = c then dropStart? start t else none

/-- The text without its last character, which has to be `c`. -/
def dropFinal? (c : Char) (t : Text) : Option Text :=
  if t.getLast? = some c then some t.dropLast else none

def quoted (t : Text) : String := "'" ++ String.ofList t ++ "'"

/-- The pieces between line feeds. A text without a line feed is one piece. -/
def splitLines : Text → List Text
  | [] => [[]]
  | c :: t =>
    if c = '\n' then [] :: splitLines t
    else match splitLines t with
      | [] => [[c]]
      | piece :: pieces => (c :: piece) :: pieces

theorem dropStart?_eq_some_iff {start t rest : Text} :
    dropStart? start t = some rest ↔ t = start ++ rest := by
  induction start generalizing t with
  | nil => simp [dropStart?, eq_comm]
  | cons s start ih =>
    cases t with
    | nil => simp [dropStart?]
    | cons c t =>
      by_cases h : s = c
      · simp [dropStart?, h, ih]
      · simp [dropStart?, h, Ne.symm h]

theorem dropFinal?_eq_some_iff {c : Char} {t rest : Text} :
    dropFinal? c t = some rest ↔ t = rest ++ [c] := by
  constructor
  · intro h
    simp only [dropFinal?] at h
    split at h
    · rename_i hlast
      obtain ⟨front, rfl⟩ := List.getLast?_eq_some_iff.1 hlast
      simpa using h
    · simp at h
  · rintro rfl
    simp [dropFinal?]

@[simp] theorem trim_nil : trim [] = [] := rfl

theorem splitLines_ne_nil (t : Text) : splitLines t ≠ [] := by
  cases t with
  | nil => simp [splitLines]
  | cons c t =>
    simp only [splitLines]
    split
    · simp
    · split <;> simp

end Brushwork
