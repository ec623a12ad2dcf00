import Brushwork.Program.Statement
import Brushwork.Proofs.Command.Assignment
import Brushwork.Proofs.Command.JumpForm

/-!
# Lines that declare labels

A line that declares a label holds a free name and at most a colon, so it holds neither
a parenthesis nor an arrow, and no kind of command but one accepts it. That one is the
jump, which accepts by its first four letters alone: a name that begins with them is
declared as a label although its line is of the kind of jumps. Every other line of some
kind is run, unless it is a comment.
-/

namespace Brushwork

/-- A line that declares a label is its name, alone or with blanks and a colon after it. -/
theorem trim_of_labelOf? {line name : Text} (h : labelOf? line = some name) :
    isFreeName name = true ∧ (trim line = name ∨
      ∃ blanks, (∀ c ∈ blanks, isBlank c = true) ∧ trim line = name ++ (blanks ++ [':'])) := by
  obtain ⟨hfree, heq⟩ := Option.ite_none_right_eq_some.1 h
  rw [Option.some.injEq] at heq
  rw [heq] at hfree
  refine ⟨hfree, ?_⟩
  cases hcolon : dropFinal? ':' (trim line) with
  | none =>
    left
    rw [hcolon, Option.getD_none] at heq
    rw [← heq, trim, trimEnd_trimEnd]
  | some front =>
    right
    rw [hcolon, Option.getD_some] at heq
    obtain ⟨blanks, hblanks, hfront⟩ := exists_trimEnd_append front
    refine ⟨blanks, hblanks, ?_⟩
    rw [dropFinal?_eq_some_iff.1 hcolon, ← hfront, heq, List.append_assoc]

theorem labelOf?_trim (line : Text) : labelOf? (trim line) = labelOf? line := by
  simp only [labelOf?, trim_trim]

namespace Command.Kind

theorem mem_of_hasArrow {line : Text} (h : hasArrow line = true) : '<' ∈ line := by
  fun_induction hasArrow line with
  | case1 => simp
  | case2 c t _ ih => exact List.mem_cons_of_mem c (ih h)
  | case3 => cases h

theorem mem_of_opensCall {keyword line : Text} (h : opensCall keyword line = true) : '(' ∈ line :=
  (opensCall_iff.1 h).subset (by simp)

/-- Of the lines without a parenthesis and without an arrow only jumps and a bare `Fill` are of
some kind. -/
theorem ofLine?_eq_none {line : Text} (hjump : ¬ "GoTo".toList <+: line)
    (hfill : line ≠ "Fill".toList) (hcall : '(' ∉ line) (harrow : '<' ∉ line) :
    ofLine? line = none := by
  have hopens : ∀ keyword, opensCall keyword line = false :=
    fun keyword => Bool.eq_false_iff.2 fun h => hcall (mem_of_opensCall h)
  have hassign : hasArrow line = false := Bool.eq_false_iff.2 fun h => harrow (mem_of_hasArrow h)
  refine List.find?_eq_none.2 fun kind _ => ?_
  cases kind with
  | goTo => rwa [accepts, List.isPrefixOf_iff_prefix]
  | assign => simp [accepts, hassign]
  | fill => simpa [accepts, hopens] using hfill
  | _ => simp [accepts, hopens]

end Command.Kind

section Declarations

variable {line name : Text}

/-- A line that declares a label holds name characters, blanks and a colon only. -/
theorem notMem_trim_of_labelOf? (h : labelOf? line = some name) {c : Char}
    (hc : isNameChar c = false ∧ isBlank c = false ∧ c ≠ ':') : c ∉ trim line := by
  obtain ⟨hfree, hform⟩ := trim_of_labelOf? h
  obtain ⟨hname, hblank, hcolon⟩ := hc
  have hnotName : c ∉ name := fun hmem => by
    rw [isNameChar_of_isIdentifier (isIdentifier_of_isFreeName hfree) c hmem] at hname
    cases hname
  rcases hform with hform | ⟨blanks, hblanks, hform⟩
  · rwa [hform]
  · have hnotBlank : c ∉ blanks := fun hmem => by
      rw [hblanks c hmem] at hblank
      cases hblank
    rw [hform]
    simp [hnotName, hnotBlank, hcolon]

theorem goTo_prefix_iff_of_labelOf? (h : labelOf? line = some name) :
    "GoTo".toList <+: trim line ↔ "GoTo".toList <+: name := by
  obtain ⟨-, hform⟩ := trim_of_labelOf? h
  rcases hform with hform | ⟨blanks, hblanks, hform⟩
  · rw [hform]
  · rw [hform]
    refine ⟨fun hbegins => ?_, fun hbegins => hbegins.trans (List.prefix_append _ _)⟩
    cases blanks with
    | nil => exact isPrefix_of_append_cons hbegins (by decide)
    | cons c blanks =>
      refine isPrefix_of_append_cons hbegins fun hc => ?_
      have hletter : isNameChar c = true :=
        isNameChar_of_isIdentifier (by decide : isIdentifier "GoTo".toList = true) c hc
      rw [isNameChar_of_isBlank (hblanks c List.mem_cons_self)] at hletter
      cases hletter

theorem trim_ne_fill_of_labelOf? (h : labelOf? line = some name) : trim line ≠ "Fill".toList := by
  intro hfill
  have hreserved : labelOf? "Fill".toList = none := by decide
  rw [← labelOf?_trim, hfill, hreserved] at h
  cases h

/-- A line that declares a label is of no kind but that of jumps, and of that kind only by the
beginning of its name. -/
theorem ofLine?_of_labelOf? (h : labelOf? line = some name) :
    Command.Kind.ofLine? (trim line) =
      if "GoTo".toList <+: name then some .goTo else none := by
  have hbegins := goTo_prefix_iff_of_labelOf? h
  by_cases hjump : "GoTo".toList <+: name
  · rw [if_pos hjump]
    exact Command.Kind.ofLine?_of_goTo (hbegins.2 hjump)
  · rw [if_neg hjump]
    exact Command.Kind.ofLine?_eq_none (mt hbegins.1 hjump) (trim_ne_fill_of_labelOf? h)
      (notMem_trim_of_labelOf? h (by decide)) (notMem_trim_of_labelOf? h (by decide))

theorem jumpParts?_of_labelOf? (h : labelOf? line = some name) :
    Command.jumpParts? (trim line) = none := by
  refine Option.eq_none_iff_forall_ne_some.2 fun (label, condition) hparts => ?_
  obtain ⟨w₁, w₂, w₃, w₄, w₅, -, -, -, hline⟩ := Command.jumpParts?_eq_some_iff.1 hparts
  have hbracket : '[' ∈ trim line := by simp [hline]
  exact notMem_trim_of_labelOf? h (by decide) hbracket

end Declarations

namespace Program

open Command

/-- A line that declares a label is of no kind, unless its name begins like a jump; then it is of
the kind of jumps but has not the form of one. So every line of another kind is run, unless it is a
comment. -/
theorem labels_are_no_commands (line : Text) :
    (∀ name, labelOf? line = some name → ¬ "GoTo".toList <+: name →
      Kind.ofLine? (trim line) = none) ∧
    (∀ name, labelOf? line = some name → "GoTo".toList <+: name →
      Kind.ofLine? (trim line) = some .goTo ∧ jumpParts? (trim line) = none) ∧
    (∀ kind, Kind.ofLine? (trim line) = some kind → kind ≠ .goTo →
      isComment (trim line) = false → isStatement (trim line) = true) := by
  refine ⟨fun name hlabel hname => ?_, fun name hlabel hname => ⟨?_, ?_⟩,
    fun kind hkind hother hcomment => ?_⟩
  · rw [ofLine?_of_labelOf? hlabel, if_neg hname]
  · rw [ofLine?_of_labelOf? hlabel, if_pos hname]
  · exact jumpParts?_of_labelOf? hlabel
  · have hempty : trim line ≠ [] := by
      intro hempty
      rw [hempty] at hkind
      cases hkind
    have hlabel : labelOf? (trim line) = none := by
      rw [labelOf?_trim]
      refine Option.eq_none_iff_forall_ne_some.2 fun name hlabel => ?_
      rw [ofLine?_of_labelOf? hlabel, Option.ite_none_right_eq_some, Option.some.injEq] at hkind
      exact hother hkind.2.symm
    simp [isStatement, hempty, hcomment, hlabel]

/-- A line of the kind of jumps that is passed over as a label. -/
theorem label_of_kind_goTo :
    ¬ ∀ line, (labelOf? line).isSome = true → Kind.ofLine? (trim line) = none := by
  intro h
  have hkind : Kind.ofLine? (trim "GoToX".toList) = some .goTo := by decide
  rw [h "GoToX".toList (by decide)] at hkind
  cases hkind

end Program

end Brushwork
