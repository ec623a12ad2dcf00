import Brushwork.Fault
import Brushwork.Text.Name

/-!
# Variables

A variable holds a number or a truth value, and an assignment may change which.
Bindings are kept in the order of their names, one for each name, so that two
stores with the same bindings are the same store.
-/

namespace Brushwork

inductive Value where
  | int (n : Int)
  | bool (b : Bool)
  deriving DecidableEq

def Value.display : Value → String
  | .int n => String.ofList (decimal n)
  | .bool true => "true"
  | .bool false => "false"

structure Variables where
  /-- One pair for each bound name, in the order of the names. -/
  entries : List (Text × Value)
  sorted : entries.Pairwise fun a b => a.1 < b.1

namespace Variables

def empty : Variables := ⟨[], .nil⟩

/-- Replaces the pair of a name, or inserts it where the order of the names puts it. -/
def put (name : Text) (value : Value) : List (Text × Value) → List (Text × Value)
  | [] => [(name, value)]
  | entry :: rest =>
    if entry.1 == name then (name, value) :: rest
    else if name < entry.1 then (name, value) :: entry :: rest
    else entry :: put name value rest

theorem mem_put {name : Text} {value : Value} {entries : List (Text × Value)}
    {e : Text × Value} (h : e ∈ put name value entries) : e = (name, value) ∨ e ∈ entries := by
  induction entries with
  | nil => simpa [put] using h
  | cons entry rest ih =>
    simp only [put] at h
    split at h
    · rcases List.mem_cons.1 h with h | h
      · exact .inl h
      · exact .inr (List.mem_cons_of_mem _ h)
    · split at h
      · rcases List.mem_cons.1 h with h | h
        · exact .inl h
        · exact .inr h
      · rcases List.mem_cons.1 h with h | h
        · exact .inr (h ▸ List.mem_cons_self)
        · exact (ih h).imp id (List.mem_cons_of_mem _)

theorem put_sorted {name : Text} {value : Value} {entries : List (Text × Value)}
    (h : entries.Pairwise fun a b => a.1 < b.1) :
    (put name value entries).Pairwise fun a b => a.1 < b.1 := by
  induction entries with
  | nil => simp [put]
  | cons entry rest ih =>
    obtain ⟨hentry, hrest⟩ := List.pairwise_cons.1 h
    simp only [put]
    split
    · rename_i hname
      exact List.pairwise_cons.2 ⟨fun e he => eq_of_beq hname ▸ hentry e he, hrest⟩
    · split
      · rename_i hlt
        refine List.pairwise_cons.2 ⟨fun e he => ?_, h⟩
        rcases List.mem_cons.1 he with rfl | he
        · exact hlt
        · exact List.lt_trans hlt (hentry e he)
      · rename_i hne hlt
        refine List.pairwise_cons.2 ⟨fun e he => ?_, ih hrest⟩
        rcases mem_put he with rfl | he
        · exact Std.lt_of_le_of_ne (Std.not_lt.1 hlt) (hne ∘ beq_of_eq)
        · exact hentry e he

/-- Binds a free name, in place of any earlier binding. -/
def assign (vars : Variables) (name : Text) (value : Value) : Except Fault Variables :=
  if isFreeName name then .ok ⟨put name value vars.entries, put_sorted vars.sorted⟩
  else .error (.invalidIdentifier name)

def get? (vars : Variables) (name : Text) : Option Value :=
  (vars.entries.find? fun entry => entry.1 == name).map Prod.snd

theorem find?_put_self (name : Text) (value : Value) (entries : List (Text × Value)) :
    (put name value entries).find? (fun entry => entry.1 == name) = some (name, value) := by
  induction entries with
  | nil => simp [put]
  | cons entry rest ih =>
    simp only [put]
    split
    · simp
    · rename_i hentry
      split
      · simp
      · simp only [List.find?_cons, Bool.eq_false_iff.2 hentry, ih]

theorem find?_put_of_ne {name other : Text} (h : other ≠ name) (value : Value)
    (entries : List (Text × Value)) :
    (put name value entries).find? (fun entry => entry.1 == other) =
      entries.find? fun entry => entry.1 == other := by
  have hname : (name == other) = false := beq_false_of_ne (Ne.symm h)
  induction entries with
  | nil => simp only [put, List.find?_cons, hname]
  | cons entry rest ih =>
    simp only [put]
    split
    · rename_i hentry
      simp only [List.find?_cons, eq_of_beq hentry, hname]
    · split
      · simp only [List.find?_cons, hname]
      · simp only [List.find?_cons, ih]

/-- An assignment binds its own name and no other. -/
theorem get?_assign {vars after : Variables} {name : Text} {value : Value}
    (h : vars.assign name value = .ok after) (other : Text) :
    after.get? other = if other = name then some value else vars.get? other := by
  unfold assign at h
  split at h
  · cases h
    by_cases hother : other = name
    · subst hother
      simp [get?, find?_put_self]
    · simp [get?, find?_put_of_ne hother, hother]
  · cases h

def get (vars : Variables) (name : Text) : Except Fault Value :=
  match vars.get? name with
  | some value => .ok value
  | none => .error (.undefinedVariable name)

def getInt (vars : Variables) (name : Text) : Except Fault Int := do
  match ← vars.get name with
  | .int n => return n
  | .bool _ => throw (.notAnInteger name)

def getBool (vars : Variables) (name : Text) : Except Fault Bool := do
  match ← vars.get name with
  | .bool b => return b
  | .int _ => throw (.notABoolean name)

def binds (vars : Variables) (name : Text) : Bool := (vars.get? name).isSome

def names (vars : Variables) : List Text := vars.entries.map Prod.fst

theorem contains_names (vars : Variables) (name : Text) :
    vars.names.contains name = vars.binds name := by
  rw [Bool.eq_iff_iff]
  simp [names, binds, get?]

end Variables

end Brushwork
