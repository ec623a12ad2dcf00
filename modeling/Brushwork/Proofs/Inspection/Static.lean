import Brushwork.Inspection.Readiness

/-!
# What the static inspections can say

Everything that can be said against a line without running it, by its wording. What
is claimed of all such findings is proved along these cases.
-/

namespace Brushwork.Inspection

/-- The findings of the static inspections. -/
inductive IsStatic : Finding → Prop where
  | unbalanced : IsStatic (formFinding "unbalanced parentheses")
  | malformed (kind : Command.Kind) : IsStatic (Fault.malformed kind).finding
  | reserved (name : Text) : IsStatic (formFinding (quoted name ++ " is a reserved word"))
  | undeclared (label : Text) :
      IsStatic (referenceFinding ("label " ++ quoted label ++ " is not defined"))
  | outside (x y : Int) (size : Nat) :
      IsStatic (referenceFinding ("spawn position " ++ Fault.pair x y ++
        " is outside the canvas (size " ++ toString size ++ ")"))
  | unknownColor (name : Text) : IsStatic (Fault.unknownColor name).finding
  | corners :
      IsStatic (referenceFinding "first corner must be the top-left one (x1 <= x2, y1 <= y2)")

variable {finding : Finding}

theorem isStatic_of_mem_commandForm {kind : Command.Kind} {line : Text}
    (h : finding ∈ commandForm kind line) : IsStatic finding := by
  have hmalformed : ∀ kind : Command.Kind, finding ∈ [(Fault.malformed kind).finding] →
      IsStatic finding := by
    intro kind h
    rw [List.mem_singleton.1 h]
    exact .malformed kind
  unfold commandForm at h
  split at h
  · split at h
    · cases h
    · exact hmalformed _ h
  · split at h
    · split at h
      · rw [List.mem_singleton.1 h]
        exact .reserved _
      · cases h
    · exact hmalformed _ h
  · split at h
    · cases h
    · exact hmalformed _ h
  · split at h
    · cases h
    · exact hmalformed _ h

theorem isStatic_of_mem_form {line : Text} (h : finding ∈ form line) : IsStatic finding := by
  rcases List.mem_append.1 h with h | h
  · split at h
    · cases h
    · rw [List.mem_singleton.1 h]
      exact .unbalanced
  · split at h
    · exact isStatic_of_mem_commandForm h
    · cases h

theorem isStatic_of_mem_colorFinding {name : Text} (h : finding ∈ colorFinding name) :
    IsStatic finding := by
  unfold colorFinding Color.named at h
  cases hname : Color.ofName? name with
  | some color =>
    rw [hname] at h
    cases h
  | none =>
    rw [hname] at h
    rw [List.mem_singleton.1 h]
    exact .unknownColor name

theorem isStatic_of_mem_commandReference {labels : Labels} {size : Nat} {line : Text}
    (h : finding ∈ commandReference labels size line) : IsStatic finding := by
  unfold commandReference at h
  split at h
  · unfold jumpFinding at h
    split at h
    · split at h
      · cases h
      · rw [List.mem_singleton.1 h]
        exact .undeclared _
    · cases h
  · unfold spawnFinding at h
    split at h
    · split at h
      · split at h
        · cases h
        · rw [List.mem_singleton.1 h]
          exact .outside _ _ _
      · cases h
    · cases h
  · split at h
    · exact isStatic_of_mem_colorFinding h
    · cases h
  · cases h

theorem isStatic_of_mem_cornerFinding {corners : List Text}
    (h : finding ∈ cornerFinding corners) : IsStatic finding := by
  unfold cornerFinding at h
  split at h
  · split at h
    · rw [List.mem_singleton.1 h]
      exact .corners
    · cases h
  · cases h

theorem isStatic_of_mem {labels : Labels} {size : Nat} {line : Text}
    (h : finding ∈ static labels size line) : IsStatic finding := by
  rcases List.mem_append.1 h with h | h
  · exact isStatic_of_mem_form h
  · rcases List.mem_append.1 h with h | h
    · rcases List.mem_append.1 h with h | h
      · exact isStatic_of_mem_commandReference h
      · obtain ⟨name, -, h⟩ := List.mem_flatMap.1 h
        exact isStatic_of_mem_colorFinding h
    · obtain ⟨corners, -, h⟩ := List.mem_flatMap.1 h
      exact isStatic_of_mem_cornerFinding h

/-- What can be said against a line without running it does not depend on a run. -/
theorem IsStatic.category_ne (h : IsStatic finding) : finding.category ≠ .runtime := by
  cases h <;> exact Category.noConfusion

end Brushwork.Inspection
