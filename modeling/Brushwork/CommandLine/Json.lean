import Brushwork.Program.Run

/-!
# Reports in JSON

The values that reports are made of, and their layout: one item to a line, two
spaces for each level, the fields of a record in the order in which they are
given. Quotation marks, backslashes and the control characters below the space
are escaped; every other character stands for itself.
-/

namespace Brushwork.CommandLine

/-- The values that reports are made of. -/
inductive Json where
  | null
  | bool (b : Bool)
  | number (n : Int)
  | text (s : Text)
  | list (items : List Json)
  | record (fields : List (String × Json))

namespace Json

/-- The four hexadecimal digits of a character below the space. -/
def controlDigits (c : Char) : Text :=
  ['0', '0'] ++ [Nat.digitChar (c.toNat / 16), Nat.digitChar (c.toNat % 16)]

def escape (c : Char) : Text :=
  if c = '"' then ['\\', '"']
  else if c = '\\' then ['\\', '\\']
  else if c = '\n' then ['\\', 'n']
  else if c = '\r' then ['\\', 'r']
  else if c = '\t' then ['\\', 't']
  else if c.toNat = 0x08 then ['\\', 'b']
  else if c.toNat = 0x0C then ['\\', 'f']
  else if c.toNat < 0x20 then '\\' :: 'u' :: controlDigits c
  else [c]

def quote (t : Text) : Text := '"' :: t.flatMap escape ++ ['"']

def newLine (level : Nat) : Text := '\n' :: List.replicate (2 * level) ' '

/-- Items between brackets, each on a line of its own; no items leave no line. -/
def enclose (left right : Char) (level : Nat) (items : List Text) : Text :=
  if items.isEmpty then [left, right]
  else
    [left] ++ [','].intercalate (items.map (newLine (level + 1) ++ ·)) ++ newLine level ++ [right]

mutual

def layout (level : Nat) : Json → Text
  | .null => "null".toList
  | .bool true => "true".toList
  | .bool false => "false".toList
  | .number n => decimal n
  | .text t => quote t
  | .list items => enclose '[' ']' level (layoutItems (level + 1) items)
  | .record fields => enclose '\x7b' '\x7d' level (layoutFields (level + 1) fields)

def layoutItems (level : Nat) : List Json → List Text
  | [] => []
  | item :: rest => layout level item :: layoutItems level rest

def layoutFields (level : Nat) : List (String × Json) → List Text
  | [] => []
  | (name, value) :: rest =>
    (quote name.toList ++ [':', ' '] ++ layout level value) :: layoutFields level rest

end

end Json

/-- The word for a category in reports. -/
def categoryWord : Category → String
  | .syntactic => "Syntactic"
  | .semantic => "Semantic"
  | .runtime => "Runtime"

def diagnosticJson (d : Diagnostic) : Json :=
  .record [("line", .number d.line), ("message", .text d.message.toList),
    ("kind", .text (categoryWord d.category).toList), ("snippet", .text d.snippet)]

def diagnosticsJson (ds : List Diagnostic) : Json := .list (ds.map diagnosticJson)

def runJson (run : Run) : Json :=
  .record [("success", .bool run.success), ("diagnostics", diagnosticsJson run.log.toList),
    ("steps", .number run.steps),
    ("last_value", match run.lastValue with
      | some n => .number n
      | none => .null)]

end Brushwork.CommandLine
