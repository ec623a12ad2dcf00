import Brushwork.Proofs.Program.Isolation
import Brushwork.Proofs.Program.LabelLines
import Brushwork.Proofs.Text.Layout

/-!
# The layout of a program

A program is read line by line, and of a line only what is left of it after trimming. Blank
lines and comments are passed over, so one may stand in the place of the other. Hence two
sources whose lines agree up to that give the same program. The one thing that is read off the
source as a whole is whether it is blank: a blank source is reported, a source of comments is
not.
-/

namespace Brushwork

/-- Whether a line is blank or a comment, blanks around it aside. -/
def isSilent (line : Text) : Bool := (trim line).isEmpty || isComment (trim line)

/-- Two lines are the same up to blanks around them, or both are passed over. -/
def SameLine (line other : Text) : Prop :=
  trim line = trim other ∨ isSilent line = true ∧ isSilent other = true

instance (line other : Text) : Decidable (SameLine line other) :=
  inferInstanceAs (Decidable (_ ∨ _))

section Silence

variable {line : Text}

theorem isSilent_iff : isSilent line = true ↔ trim line = [] ∨ isComment (trim line) = true := by
  rw [isSilent, Bool.or_eq_true, List.isEmpty_iff]

theorem mem_of_isComment (h : isComment line = true) : '/' ∈ line ∨ '#' ∈ line := by
  rw [isComment, Bool.or_eq_true, List.isPrefixOf_iff_prefix, List.isPrefixOf_iff_prefix] at h
  rcases h with h | h
  · exact .inl (h.subset (by decide))
  · exact .inr (h.subset (by decide))

/-- Neither a blank line nor a comment declares a label. -/
theorem labelOf?_of_isSilent (h : isSilent line = true) : labelOf? (trim line) = none := by
  rw [labelOf?_trim]
  refine Option.eq_none_iff_forall_ne_some.2 fun name hname => ?_
  rcases isSilent_iff.1 h with hnil | hcomment
  · rw [← labelOf?_trim, hnil] at hname
    cases hname
  · rcases mem_of_isComment hcomment with hmem | hmem
    · exact notMem_trim_of_labelOf? hname (by decide) hmem
    · exact notMem_trim_of_labelOf? hname (by decide) hmem

theorem isStatement_of_isSilent (h : isSilent line = true) : isStatement (trim line) = false := by
  rcases isSilent_iff.1 h with hnil | hcomment
  · rw [hnil]
    rfl
  · simp [isStatement, hcomment]

end Silence

theorem SameLine.statementOf?_eq {line other : Text} (h : SameLine line other) (labels : Labels)
    (size : Nat) :
    Program.statementOf? labels size (trim line) =
      Program.statementOf? labels size (trim other) := by
  rcases h with heq | ⟨hline, hother⟩
  · rw [heq]
  · simp [Program.statementOf?, isStatement_of_isSilent hline, isStatement_of_isSilent hother]

/-- Lines that are the same declare the same labels at the same positions. -/
theorem declareLabels_of_sameLine {lines others : List Text}
    (h : List.Forall₂ SameLine lines others) (labels : Labels) (position : Nat) :
    declareLabels labels position (lines.map trim) =
      declareLabels labels position (others.map trim) := by
  induction h generalizing labels position with
  | nil => rfl
  | @cons line other lines others hline _ ih =>
    rw [List.map_cons, List.map_cons]
    rcases hline with heq | ⟨hsilent, hsilent'⟩
    · simp only [heq, declareLabels, ih]
    · rw [declareLabels_of_none (labelOf?_of_isSilent hsilent),
        declareLabels_of_none (labelOf?_of_isSilent hsilent'), ih]

namespace Program

/-- No run and no check tells the two sources apart. -/
structure ReadAlike (source other : Text) : Prop where
  runs : ∀ machine config patience,
    executeOn machine config patience source = executeOn machine config patience other
  checks : ∀ config, check config source = check config other

section Alike

variable {source other : Text}

/-- A source is read through its program and its being blank only. -/
theorem ReadAlike.of_program (hprogram : ∀ size, ofSource size source = ofSource size other)
    (hblank : isBlankSource source = isBlankSource other) : ReadAlike source other where
  runs machine config patience := by
    have hrun : execute config patience source = execute config patience other := by
      unfold execute executeWithin executeToEnd?
      rw [hprogram, hblank]
    simp only [executeOn, stops, hrun, hprogram]
  checks config := by
    unfold check
    rw [hprogram, hblank]

theorem isBlankSource_iff : isBlankSource source = true ↔ ∀ line ∈ linesOf source, line = [] := by
  rw [isBlankSource, List.isEmpty_iff, trim_eq_nil_iff_lines, linesOf, List.forall_mem_map]

theorem ReadAlike.of_linesOf_eq (h : linesOf source = linesOf other) : ReadAlike source other := by
  refine .of_program (fun size => ?_) ?_
  · rw [ofSource, h, ofSource]
  · rw [Bool.eq_iff_iff, isBlankSource_iff, isBlankSource_iff, h]

theorem ofSource_of_sameLine (h : List.Forall₂ SameLine (splitLines source) (splitLines other))
    (size : Nat) : ofSource size source = ofSource size other := by
  have hdeclared := declareLabels_of_sameLine h .empty 0
  have hstatements : ∀ labels,
      ((splitLines source).map trim).map (statementOf? labels size) =
        ((splitLines other).map trim).map (statementOf? labels size) := by
    intro labels
    rw [List.map_map, List.map_map, ← List.forall₂_eq_eq_eq, List.forall₂_map_left_iff,
      List.forall₂_map_right_iff]
    exact h.imp fun line other hline => hline.statementOf?_eq labels size
  simp only [ofSource, ofLines, linesOf, hdeclared, hstatements]

end Alike

/-- Nothing happens in a run that comes to no statement. -/
theorem executeOn_of_ended {config : Config} {source : Text}
    (h : nextStatement (ofSource config.canvasSize source).statements 0 = none)
    (machine : Machine) (patience : Nat) :
    executeOn machine config patience source = some (beginning config.canvasSize source) := by
  rw [← position_beginning config.canvasSize source] at h
  rw [executeOn_of_leads machine (.refl _) h (Nat.zero_le _), steps_beginning, stops_zero]
  rfl

/-- Two sources whose lines are the same up to blanks around them, and up to what is written in
lines that are passed over, have the same run on each machine and the same diagnostics, if neither
is blank as a whole. In particular carriage returns before the line feeds and indentations change
nothing. A source of comments, though, has a run with nothing to report, and a blank one of as many
lines is reported as empty. -/
theorem layout_does_not_matter (source : Text) :
    (∀ other, List.Forall₂ SameLine (splitLines source) (splitLines other) →
      isBlankSource source = false → isBlankSource other = false → ReadAlike source other) ∧
    ReadAlike (withReturns source) source ∧
    (∀ indent : Nat → Text, (∀ i, ∀ c ∈ indent i, isBlank c = true ∧ c ≠ '\n') →
      ReadAlike (indentLines indent source) source) ∧
    (∀ other, List.Forall₂ SameLine (splitLines source) (splitLines other) →
      isBlankSource source = true → isBlankSource other = false → ∀ machine config patience,
        executeOn machine config patience source = some (emptyRun config.canvasSize) ∧
        executeOn machine config patience other = some (.start config.canvasSize #[])) := by
  refine ⟨fun other hlines hsource hother => ?_, ?_, fun indent hindent => ?_,
    fun other hlines hsource hother machine config patience => ?_⟩
  · exact .of_program (ofSource_of_sameLine hlines) (hsource.trans hother.symm)
  · exact .of_linesOf_eq (trim_splitLines_withReturns source)
  · exact .of_linesOf_eq (trim_splitLines_indentLines hindent source)
  · have hprogram := ofSource_of_sameLine hlines config.canvasSize
    have hnext : nextStatement (ofSource config.canvasSize source).statements 0 = none :=
      nextStatement_of_blank hsource 0
    refine ⟨?_, ?_⟩
    · rw [executeOn_of_ended hnext, beginning, if_pos hsource]
    · rw [hprogram] at hnext
      rw [executeOn_of_ended hnext, beginning_of_not_blank hother, start, ← hprogram,
        refused_of_blank hsource]

/-- Comments and blanks of the first two sources differ, and so do their line ends. -/
theorem layout_does_not_matter_indented :
    let source := "Spawn(1, 2)\n\n// up\nup:\nx <- 1".toList
    let other := "  Spawn(1, 2)\r\n# once\r\n\t\r\nup:  \r\nx <- 1".toList
    List.Forall₂ SameLine (splitLines source) (splitLines other) ∧ ReadAlike source other ∧
    ReadAlike (indentLines (List.replicate · '\t') source) source ∧
    executeOn .trapping {} 0 "\n".toList = some (emptyRun 86) ∧
    executeOn .trapping {} 0 "\n#".toList = some (.start 86 #[]) := by
  intro source other
  have hlines : List.Forall₂ SameLine (splitLines source) (splitLines other) := by decide
  obtain ⟨halike, -, hindented, -⟩ := layout_does_not_matter source
  refine ⟨hlines, halike other hlines (by decide) (by decide), hindented _ fun i c hc => ?_, ?_⟩
  · rw [List.eq_of_mem_replicate hc]
    decide
  · exact (layout_does_not_matter "\n".toList).2.2.2 "\n#".toList (by decide) (by decide)
      (by decide) .trapping {} 0

end Program

end Brushwork
