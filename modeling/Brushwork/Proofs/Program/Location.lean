import Brushwork.Proofs.Program.Agreement

/-!
# Diagnostics point at their lines

However a diagnostic has come about, it is tied to a line of the source by number and
by text. It is about a line that is to be run, unless it says that a label was declared
again or that there is no program at all. Checking reports lines from top to bottom.
-/

namespace Brushwork.Program

/-- The diagnostic names a line of the source and shows it, and it is about that line. -/
structure Located (source : Text) (d : Diagnostic) : Prop where
  positive : 1 ≤ d.line
  within : d.line ≤ (splitLines source).length
  shows : ∃ piece, (splitLines source)[d.line - 1]? = some piece ∧ d.snippet = trim piece
  subject : (isBlankSource source = true ∧ d = emptyProgram) ∨
    (∃ name, labelOf? d.snippet = some name ∧
      d = (Fault.duplicateLabel name).finding.at d.line d.snippet) ∨
    (d.snippet ≠ [] ∧ isComment d.snippet = false ∧ labelOf? d.snippet = none)

section Sources

variable {source line : Text} {position : Nat}

theorem exists_piece (h : (linesOf source)[position]? = some line) :
    position < (splitLines source).length ∧
      ∃ piece, (splitLines source)[position]? = some piece ∧ line = trim piece := by
  rw [linesOf, List.getElem?_map] at h
  obtain ⟨piece, hpiece, rfl⟩ := Option.map_eq_some_iff.1 h
  exact ⟨(List.getElem?_eq_some_iff.1 hpiece).1, piece, hpiece, rfl⟩

theorem located_statement (hline : (linesOf source)[position]? = some line)
    (h : isStatement line = true) (finding : Finding) :
    Located source (finding.at (position + 1) line) := by
  obtain ⟨hlt, hpiece⟩ := exists_piece hline
  refine ⟨Nat.succ_pos position, hlt, hpiece, .inr (.inr ?_)⟩
  simpa [isStatement, and_assoc, Finding.at] using h

theorem located_emptyProgram (h : isBlankSource source = true) : Located source emptyProgram := by
  obtain ⟨piece, pieces, hpieces⟩ := List.exists_cons_of_ne_nil (splitLines_ne_nil source)
  have hpiece : trim piece = [] := by
    refine trim_of_mem_splitLines (List.isEmpty_iff.1 h) ?_
    rw [hpieces]
    exact List.mem_cons_self
  refine ⟨Nat.le_refl 1, ?_, ⟨piece, ?_, hpiece.symm⟩, .inl ⟨h, rfl⟩⟩
  · exact List.length_pos_iff.2 (splitLines_ne_nil source)
  · rw [hpieces]
    rfl

theorem located_of_mem_refused {size : Nat} {d : Diagnostic}
    (h : d ∈ (ofSource size source).refused) : Located source d := by
  rw [ofSource, refused_ofLines] at h
  obtain ⟨position, -, hduplicate⟩ := List.mem_filterMap.1 h
  obtain ⟨line, name, hline, hname, rfl⟩ := duplicateAt?_eq_some hduplicate
  obtain ⟨hlt, hpiece⟩ := exists_piece hline
  exact ⟨Nat.succ_pos position, hlt, hpiece, .inr (.inl ⟨name, hname, rfl⟩)⟩

theorem located_beginning (size : Nat) (source : Text) :
    ∀ d ∈ (beginning size source).log, Located source d := by
  unfold beginning
  split
  · rename_i hblank
    intro d hd
    rw [Array.mem_singleton.1 hd]
    exact located_emptyProgram hblank
  · intro d hd
    exact located_of_mem_refused (List.mem_toArray.1 hd)

end Sources

section Runs

variable {size n : Nat} {source : Text} {run : Run}

theorem located_dispatch {position : Nat} {line : Text}
    (hline : (linesOf source)[position]? = some line) (hstatement : isStatement line = true)
    (hrun : ∀ d ∈ run.log, Located source d) (labels labels' : Labels) (size : Nat) :
    ∀ d ∈ (run.dispatch labels position (.ofLine labels' size line)).log, Located source d := by
  intro d hd
  rw [← Array.mem_toList_iff, Run.toList_log_dispatch] at hd
  rcases List.mem_append.1 hd with hd | hd
  · exact hrun d (Array.mem_toList_iff.1 hd)
  · obtain ⟨finding, -, rfl⟩ := List.mem_map.1 hd
    exact located_statement hline hstatement finding

theorem Leads.located (h : Leads (ofSource size source) n (beginning size source) run) :
    ∀ d ∈ run.log, Located source d := by
  refine h.preserves (P := fun run => ∀ d ∈ run.log, Located source d) ?_
    (located_beginning size source)
  intro run position statement hnext hrun
  obtain ⟨line, hfirst, rfl⟩ := nextStatement_ofLines_iff.1 hnext
  exact located_dispatch hfirst.line_eq hfirst.isStatement hrun _ _ size

theorem located_of_execute {config : Config} {patience : Nat}
    (h : execute config patience source = some run) : ∀ d ∈ run.log, Located source d := by
  obtain ⟨n, last, hleads, rfl | ⟨budget, position, line, hfirst, rfl⟩⟩ := leads_of_execute h
  · exact hleads.located
  · intro d hd
    rcases Array.mem_push.1 hd with hd | rfl
    · exact hleads.located d hd
    · exact located_statement hfirst.line_eq hfirst.isStatement _

end Runs

section Checks

variable {size : Nat} {source : Text}

theorem located_of_mem_checkFrom {d : Diagnostic}
    (h : d ∈ checkFrom 0 (ofSource size source).statements.toList) :
    Located source d ∧ labelOf? d.snippet = none := by
  obtain ⟨i, statement, finding, hget, rfl⟩ := exists_finding_of_mem_checkFrom h
  rw [Array.getElem?_toList] at hget
  obtain ⟨line, hline, hstatement, rfl⟩ := exists_line_of_getElem?_statements hget
  rw [Nat.zero_add]
  exact ⟨located_statement hline hstatement finding, labelOf?_of_isStatement hstatement⟩

theorem pairwise_line_checkFrom (position : Nat) (statements : List (Option Statement)) :
    (checkFrom position statements).Pairwise fun a b => a.line ≤ b.line := by
  induction statements generalizing position with
  | nil => exact List.Pairwise.nil
  | cons entry rest ih =>
    cases entry with
    | none => exact ih (position + 1)
    | some statement =>
      refine List.pairwise_append.2 ⟨?_, ih (position + 1), ?_⟩
      · refine List.pairwise_map.2 (List.pairwise_of_forall fun _ _ => ?_)
        exact Nat.le_refl _
      · intro a ha b hb
        obtain ⟨finding, -, rfl⟩ := List.mem_map.1 ha
        obtain ⟨i, other, -, hline⟩ := exists_of_mem_checkFrom hb
        change position + 1 ≤ b.line
        omega

/-- After the labels that are refused, checking reports lines from top to bottom, and none that
declares a label. -/
theorem check_eq_refused_append {config : Config} (h : config.validate = .ok ()) (source : Text) :
    ∃ later, check config source = .ok ((ofSource config.canvasSize source).refused ++ later) ∧
      (later.Pairwise fun a b => a.line ≤ b.line) ∧
      ∀ d ∈ later, Located source d ∧ labelOf? d.snippet = none := by
  rw [check_eq h]
  cases hblank : isBlankSource source with
  | true =>
    rw [checkFrom_of_blank hblank, refused_of_blank hblank, beginning, if_pos hblank]
    refine ⟨[emptyProgram], rfl, List.pairwise_singleton _ _, fun d hd => ?_⟩
    rw [List.mem_singleton.1 hd]
    exact ⟨located_emptyProgram hblank, rfl⟩
  | false =>
    rw [beginning_of_not_blank hblank, toList_log_start]
    exact ⟨_, rfl, pairwise_line_checkFrom 0 _, fun d => located_of_mem_checkFrom⟩

end Checks

/-- Whatever a run on a machine or a check reports names a line of the source and shows it. It is
about a line that is neither blank nor a comment nor a label, unless it says that a label was
declared again or that there is no program. After the labels that are refused, checking reports
lines from top to bottom. -/
theorem diagnostics_point_at_lines {config : Config} (h : config.validate = .ok ())
    (source : Text) :
    (∀ machine patience run, executeOn machine config patience source = some run →
      ∀ d ∈ run.log, Located source d) ∧
    ∃ later, check config source = .ok ((ofSource config.canvasSize source).refused ++ later) ∧
      (∀ d ∈ (ofSource config.canvasSize source).refused ++ later, Located source d) ∧
      (later.Pairwise fun a b => a.line ≤ b.line) ∧
      ∀ d ∈ later, labelOf? d.snippet = none := by
  obtain ⟨later, hcheck, hsorted, hlater⟩ := check_eq_refused_append h source
  refine ⟨fun _ _ _ hrun => located_of_execute (execute_of_executeOn hrun), later, hcheck, ?_,
    hsorted, fun d hd => (hlater d hd).2⟩
  intro d hd
  rcases List.mem_append.1 hd with hd | hd
  · exact located_of_mem_refused hd
  · exact (hlater d hd).1

/-- A jump leads back to the third line, where the budget is used up. -/
theorem diagnostics_point_at_lines_loop :
    let config : Config := ⟨10, some 3⟩
    let source := "a:\n  # note\n Size(x\n\na :\nFly(1)\nGoTo [a] (true)".toList
    ∃ run, executeOn .trapping config 0 source = some run ∧
      run.log.toList.map (·.line) = [5, 3, 3, 6, 3] ∧ (∀ d ∈ run.log, Located source d) ∧
      ∃ later, check config source = .ok ((ofSource 10 source).refused ++ later) ∧
        ((ofSource 10 source).refused ++ later).map (·.line) = [5, 3, 3, 6] ∧
        (later.Pairwise fun a b => a.line ≤ b.line) := by
  intro config source
  have hconfig : config.validate = .ok () := rfl
  have hlines : (check config source).toOption.map (·.map (·.line)) = some [5, 3, 3, 6] := by
    decide +kernel
  obtain ⟨hrun, later, hcheck, -, hsorted, -⟩ := diagnostics_point_at_lines hconfig source
  rw [hcheck] at hlines
  obtain ⟨run, hsome, hlog⟩ : ∃ run, executeOn .trapping config 0 source = some run ∧
      run.log.toList.map (·.line) = [5, 3, 3, 6, 3] :=
    Option.map_eq_some_iff.1 (by decide +kernel)
  exact ⟨run, hsome, hlog, hrun .trapping 0 run hsome, later, hcheck, Option.some.inj hlines,
    hsorted⟩

end Brushwork.Program
