import Brushwork.Command.Basic
import Brushwork.Proofs.Text.Trimming
import Brushwork.Proofs.Token.Names

/-!
# The form of a jump

A jump is written `GoTo [label] (condition)`, with blanks wherever two parts meet and at
the end. The condition is any text without line feeds, parentheses included: the last
character of the line that is not blank is the parenthesis that ends it. So a line has
this form in at most one way, and taking it apart finds that way.
-/

namespace Brushwork

namespace Command

/-- The line is a jump with this label and this condition. -/
def JumpForm (line label condition : Text) : Prop :=
  ∃ w₁ w₂ w₃ w₄ w₅ : Text, (∀ w ∈ [w₁, w₂, w₃, w₄, w₅], ∀ c ∈ w, isBlank c = true) ∧
    isIdentifier label = true ∧ '\n' ∉ condition ∧
    line = "GoTo".toList ++ w₁ ++ '[' :: w₂ ++ label ++ w₃ ++ ']' :: w₄ ++ '(' :: condition ++
      ')' :: w₅

def jumpEnd (condition : Text) : Text := ']' :: ' ' :: '(' :: (condition ++ [')'])

def jumpLine (label condition : Text) : Text :=
  "GoTo".toList ++ ' ' :: '[' :: (label ++ jumpEnd condition)

/-- The label in the brackets is what stands there without the blanks around it. -/
theorem label_iff {t label rest : Text} (hlabel : isIdentifier label = true) :
    (trimStart t).takeWhile isNameChar = label ∧
        trimStart ((trimStart t).dropWhile isNameChar) = ']' :: rest ↔
      ∃ before after, (∀ c ∈ before, isBlank c = true) ∧ (∀ c ∈ after, isBlank c = true) ∧
        t = before ++ (label ++ (after ++ ']' :: rest)) := by
  constructor
  · rintro ⟨rfl, hrest⟩
    obtain ⟨after, hafter, hdrop⟩ := (trimStart_eq_cons_iff (by decide)).1 hrest
    refine ⟨t.takeWhile isBlank, after, fun c => List.mem_takeWhile_imp, hafter, ?_⟩
    rw [← hdrop, List.takeWhile_append_dropWhile, trimStart, List.takeWhile_append_dropWhile]
  · rintro ⟨before, after, hbefore, hafter, rfl⟩
    have hchars := isNameChar_of_isIdentifier hlabel
    have hstart : trimStart (before ++ (label ++ (after ++ ']' :: rest))) =
        label ++ (after ++ ']' :: rest) := by
      cases label with
      | nil => cases hlabel
      | cons c t =>
        exact trimStart_append_cons hbefore
          (isBlank_of_isNameChar (hchars c List.mem_cons_self)) _
    obtain ⟨d, others, hnext, hd⟩ : ∃ d others, after ++ ']' :: rest = d :: others ∧
        isNameChar d = false := by
      cases after with
      | nil => exact ⟨']', rest, rfl, by decide⟩
      | cons d after => exact ⟨d, _, rfl, isNameChar_of_isBlank (hafter d List.mem_cons_self)⟩
    have htake : (label ++ (after ++ ']' :: rest)).takeWhile isNameChar = label := by
      rw [hnext, List.takeWhile_append_of_pos hchars, List.takeWhile_cons_of_neg (by simp [hd]),
        List.append_nil]
    have hdrop : (label ++ (after ++ ']' :: rest)).dropWhile isNameChar = after ++ ']' :: rest := by
      rw [hnext, List.dropWhile_append_of_pos hchars, List.dropWhile_cons_of_neg (by simp [hd])]
    rw [hstart, htake, hdrop]
    exact ⟨rfl, trimStart_append_cons hafter (by decide) rest⟩

theorem Kind.ofLine?_of_goTo {line : Text} (h : "GoTo".toList <+: line) :
    ofLine? line = some .goTo := by
  have haccepts : accepts line .goTo = true := List.isPrefixOf_iff_prefix.2 h
  simp only [ofLine?, all, List.find?_cons, haccepts]

/-- Taking a jump apart finds its label and its condition, and nothing but jumps is taken apart. -/
theorem jumpParts?_eq_some_iff {line label condition : Text} :
    jumpParts? line = some (label, condition) ↔ JumpForm line label condition := by
  simp only [jumpParts?, Option.bind_eq_bind, Option.bind_eq_some_iff, dropStart?_eq_some_iff,
    dropFinal?_eq_some_iff, Option.ite_none_right_eq_some, Option.some.injEq, Prod.mk.injEq,
    Bool.and_eq_true, Bool.not_eq_true', List.singleton_append]
  constructor
  · rintro ⟨r₁, rfl, r₂, hopen, r₃, hclose, r₄, hparenthesis, _, hend, ⟨hlabel, hcondition⟩,
      hname, rfl⟩
    rw [hname] at hlabel
    obtain ⟨w₁, hw₁, rfl⟩ := (trimStart_eq_cons_iff (by decide)).1 hopen
    obtain ⟨w₂, w₃, hw₂, hw₃, rfl⟩ := (label_iff hlabel).1 ⟨hname, hclose⟩
    obtain ⟨w₄, hw₄, rfl⟩ := (trimStart_eq_cons_iff (by decide)).1 hparenthesis
    obtain ⟨w₅, hw₅, rfl⟩ := (trimEnd_eq_concat_iff (by decide)).1 hend
    refine ⟨w₁, w₂, w₃, w₄, w₅, ?_, hlabel, by simpa using hcondition, by simp⟩
    simpa using ⟨hw₁, hw₂, hw₃, hw₄, hw₅⟩
  · rintro ⟨w₁, w₂, w₃, w₄, w₅, hblanks, hlabel, hcondition, rfl⟩
    simp only [List.forall_mem_cons] at hblanks
    obtain ⟨hw₁, hw₂, hw₃, hw₄, hw₅, -⟩ := hblanks
    obtain ⟨hname, hclose⟩ := (label_iff hlabel).2 ⟨w₂, w₃, hw₂, hw₃, rfl⟩
    have hend : trimEnd (condition ++ ')' :: w₅) = condition ++ [')'] :=
      (trimEnd_eq_concat_iff (by decide)).2 ⟨w₅, hw₅, rfl⟩
    refine ⟨_, by simp only [List.append_assoc]; rfl, _, trimStart_append_cons hw₁ (by decide) _, _,
      hclose, _, trimStart_append_cons hw₄ (by decide) _, condition, hend,
      ⟨?_, by simpa using hcondition⟩, hname, rfl⟩
    rwa [hname]

/-- A jump has one label and one condition. -/
theorem JumpForm.unique {line label condition label' condition' : Text}
    (h : JumpForm line label condition) (h' : JumpForm line label' condition') :
    label = label' ∧ condition = condition' := by
  rw [← jumpParts?_eq_some_iff] at h h'
  simpa using h.symm.trans h'

theorem jumpForm_jumpLine {label condition : Text} (hlabel : isIdentifier label = true)
    (hcondition : '\n' ∉ condition) :
    JumpForm (jumpLine label condition) label condition := by
  have hblank : isBlank ' ' = true := by decide
  exact ⟨[' '], [], [], [' '], [], by simp [hblank], hlabel, hcondition,
    by simp [jumpLine, jumpEnd]⟩

theorem jumpParts?_jumpLine {label condition : Text} (hlabel : isIdentifier label = true)
    (hcondition : '\n' ∉ condition) :
    jumpParts? (jumpLine label condition) = some (label, condition) :=
  jumpParts?_eq_some_iff.2 (jumpForm_jumpLine hlabel hcondition)

/-- Exactly the jumps are taken apart, into the label and the condition they are written with. No
line is a jump with two labels or two conditions. So a jump that is written with some label and
some condition is read with these, whatever parentheses the condition has. -/
theorem jump_has_one_reading :
    (∀ line label condition, jumpParts? line = some (label, condition) ↔
      JumpForm line label condition) ∧
    (∀ line label condition label' condition', JumpForm line label condition →
      JumpForm line label' condition' → label = label' ∧ condition = condition') ∧
    ∀ label condition, isIdentifier label = true → '\n' ∉ condition →
      jumpParts? (jumpLine label condition) = some (label, condition) :=
  ⟨fun _ _ _ => jumpParts?_eq_some_iff, fun _ _ _ _ _ h h' => h.unique h',
    fun _ _ => jumpParts?_jumpLine⟩

example : jumpParts? "GoTo[ a-1 ]\t(x) || (y)) ".toList =
    some ("a-1".toList, "x) || (y)".toList) := by decide

end Command

end Brushwork
