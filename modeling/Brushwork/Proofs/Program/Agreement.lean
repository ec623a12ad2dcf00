import Brushwork.Program.Check
import Brushwork.Proofs.Program.Budget
import Brushwork.Proofs.Program.Labels
import Brushwork.Proofs.Session.Invariant

/-!
# Checking agrees with running

Checking a source reports what is known before any line is run, and then of each
line what can be said without running it. A run begins with the same reports, and
whenever it comes to a line it says the same of it first. So what checking reports
is found again, in the same order, in the reports of a run that passes every line.
-/

namespace Brushwork

/-- Whether a diagnostic is about a line that declares a label. -/
def Diagnostic.onLabel (lines : List Text) (d : Diagnostic) : Bool :=
  lines[d.line - 1]?.any fun line => (labelOf? line).isSome

theorem Diagnostic.onLabel_of_isStatement {lines : List Text} {d : Diagnostic} {position : Nat}
    {line : Text} (hd : d.line = position + 1) (hline : lines[position]? = some line)
    (hstatement : isStatement line = true) : d.onLabel lines = false := by
  simp [onLabel, hd, hline, labelOf?_of_isStatement hstatement]

namespace Program

section Checking

theorem checkFrom_append (position : Nat) (above below : List (Option Statement)) :
    checkFrom position (above ++ below) =
      checkFrom position above ++ checkFrom (position + above.length) below := by
  induction above generalizing position with
  | nil => rfl
  | cons entry above ih =>
    have hlength : position + (entry :: above).length = position + 1 + above.length :=
      Nat.add_right_comm position above.length 1
    cases entry with
    | none => simp only [List.cons_append, checkFrom, ih, hlength]
    | some statement => simp only [List.cons_append, checkFrom, ih, hlength, List.append_assoc]

/-- What checking reports is found in a statement and tied to the line of the statement. -/
theorem exists_finding_of_mem_checkFrom {position : Nat} {statements : List (Option Statement)}
    {d : Diagnostic} (h : d ∈ checkFrom position statements) :
    ∃ (i : Nat) (statement : Statement) (finding : Finding),
      statements[i]? = some (some statement) ∧
        d = finding.at (position + i + 1) statement.line := by
  induction statements generalizing position with
  | nil => cases h
  | cons entry rest ih =>
    have hrest : d ∈ checkFrom (position + 1) rest →
        ∃ (i : Nat) (statement : Statement) (finding : Finding),
          (entry :: rest)[i]? = some (some statement) ∧
            d = finding.at (position + i + 1) statement.line := by
      intro hd
      obtain ⟨i, statement, finding, hget, hline⟩ := ih hd
      refine ⟨i + 1, statement, finding, hget, ?_⟩
      rw [hline, Nat.add_right_comm position 1 i]
      rfl
    cases entry with
    | none => exact hrest h
    | some statement =>
      rcases List.mem_append.1 h with hd | hd
      · obtain ⟨finding, -, rfl⟩ := List.mem_map.1 hd
        exact ⟨0, statement, finding, rfl, rfl⟩
      · exact hrest hd

theorem exists_of_mem_checkFrom {position : Nat} {statements : List (Option Statement)}
    {d : Diagnostic} (h : d ∈ checkFrom position statements) :
    ∃ i statement, statements[i]? = some (some statement) ∧ d.line = position + i + 1 := by
  obtain ⟨i, statement, finding, hget, rfl⟩ := exists_finding_of_mem_checkFrom h
  exact ⟨i, statement, hget, rfl⟩

/-- What checking reports of one line. -/
theorem filter_checkFrom {statements : List (Option Statement)} {position : Nat}
    {statement : Statement} (h : statements[position]? = some (some statement)) :
    (checkFrom 0 statements).filter (·.line == position + 1) =
      statement.staticFindings.map (·.at (position + 1) statement.line) := by
  obtain ⟨hlt, hget⟩ := List.getElem?_eq_some_iff.1 h
  have hlength : (statements.take position).length = position :=
    List.length_take_of_le (Nat.le_of_lt hlt)
  have hsplit : statements =
      statements.take position ++ some statement :: statements.drop (position + 1) := by
    rw [← hget, List.getElem_cons_drop, List.take_append_drop]
  have habove : (checkFrom 0 (statements.take position)).filter (·.line == position + 1) = [] := by
    refine List.filter_eq_nil_iff.2 fun d hd => ?_
    obtain ⟨i, other, hother, hline⟩ := exists_of_mem_checkFrom hd
    have hi : i < position := hlength ▸ (List.getElem?_eq_some_iff.1 hother).1
    rw [beq_iff_eq, hline]
    omega
  have hbelow : (checkFrom (position + 1) (statements.drop (position + 1))).filter
      (·.line == position + 1) = [] := by
    refine List.filter_eq_nil_iff.2 fun d hd => ?_
    obtain ⟨i, other, -, hline⟩ := exists_of_mem_checkFrom hd
    rw [beq_iff_eq, hline]
    omega
  have hself : (statement.staticFindings.map (·.at (position + 1) statement.line)).filter
      (·.line == position + 1) =
        statement.staticFindings.map (·.at (position + 1) statement.line) := by
    refine List.filter_eq_self.2 fun d hd => ?_
    obtain ⟨finding, -, rfl⟩ := List.mem_map.1 hd
    exact beq_self_eq_true _
  rw [hsplit, checkFrom_append, checkFrom, hlength, Nat.zero_add, List.filter_append,
    List.filter_append, habove, hbelow, hself, List.nil_append, List.append_nil]

/-- Checking goes from statement to statement as a run without jumps does. -/
theorem checkFrom_drop (statements : Array (Option Statement)) (start : Nat) :
    checkFrom start (statements.toList.drop start) =
      match nextStatement statements start with
      | none => []
      | some (position, statement) =>
        statement.staticFindings.map (·.at (position + 1) statement.line) ++
          checkFrom (position + 1) (statements.toList.drop (position + 1)) := by
  fun_induction nextStatement statements start with
  | case1 start hstart statement hstatement =>
    rw [List.drop_eq_getElem_cons (by simpa using hstart), Array.getElem_toList, hstatement,
      checkFrom]
  | case2 start hstart hnone ih =>
    rw [List.drop_eq_getElem_cons (by simpa using hstart), Array.getElem_toList, hnone, checkFrom,
      ih]
  | case3 start hstart =>
    rw [List.drop_eq_nil_of_le (by simpa using hstart), checkFrom]

end Checking

section Beginnings

theorem exists_line_of_getElem?_statements {size position : Nat} {lines : List Text}
    {statement : Statement}
    (h : (ofLines size lines).statements[position]? = some (some statement)) :
    ∃ line, lines[position]? = some line ∧ isStatement line = true ∧ statement.line = line := by
  rw [getElem?_statements] at h
  obtain ⟨line, hline, hstatement⟩ := Option.map_eq_some_iff.1 h
  obtain ⟨his, rfl⟩ := statementOf?_eq_some_iff.1 hstatement
  exact ⟨line, hline, his, rfl⟩

theorem isStatement_of_getElem?_statements {size position : Nat} {lines : List Text}
    {statement : Statement}
    (h : (ofLines size lines).statements[position]? = some (some statement)) :
    ∃ line, lines[position]? = some line ∧ isStatement line = true := by
  obtain ⟨line, hline, hstatement, -⟩ := exists_line_of_getElem?_statements h
  exact ⟨line, hline, hstatement⟩

theorem onLabel_of_blank {source : Text} (h : isBlankSource source = true) (d : Diagnostic) :
    d.onLabel (linesOf source) = false := by
  unfold Diagnostic.onLabel
  cases hline : (linesOf source)[d.line - 1]? with
  | none => rfl
  | some line =>
    rw [eq_nil_of_blank h (List.mem_of_getElem? hline)]
    rfl

theorem onLabel_of_mem_refused {size : Nat} {lines : List Text} {d : Diagnostic}
    (h : d ∈ (ofLines size lines).refused) : d.onLabel lines = true := by
  rw [refused_ofLines] at h
  obtain ⟨position, -, hduplicate⟩ := List.mem_filterMap.1 h
  obtain ⟨line, name, hline, hname, rfl⟩ := duplicateAt?_eq_some hduplicate
  simp [Diagnostic.onLabel, Finding.at, hline, hname]

theorem refused_of_blank {source : Text} (h : isBlankSource source = true) (size : Nat) :
    (ofSource size source).refused = [] := by
  refine List.eq_nil_iff_forall_not_mem.2 fun d hd => ?_
  have honLabel := onLabel_of_mem_refused hd
  rw [onLabel_of_blank h] at honLabel
  cases honLabel

/-- Of the lines that declare labels a run reports nothing but the labels that were refused, and
these before anything else. -/
theorem labels_beginning (size : Nat) (source : Text) :
    (ofSource size source).refused <+: (beginning size source).log.toList ∧
      (beginning size source).log.toList.filter (Diagnostic.onLabel (linesOf source)) =
        (ofSource size source).refused := by
  unfold beginning
  split
  · rename_i hblank
    rw [refused_of_blank hblank]
    refine ⟨List.nil_prefix, List.filter_eq_nil_iff.2 fun d _ => ?_⟩
    rw [onLabel_of_blank hblank]
    exact Bool.false_ne_true
  · rw [toList_log_start]
    exact ⟨List.prefix_refl _, List.filter_eq_self.2 fun d hd => onLabel_of_mem_refused hd⟩

/-- Before any line is run, nothing is reported of the lines that are to be run. -/
theorem filter_line_beginning (size : Nat) {source : Text} {position : Nat} {line : Text}
    (hline : (linesOf source)[position]? = some line) (hstatement : isStatement line = true) :
    (beginning size source).log.toList.filter (·.line == position + 1) = [] := by
  have hsource : isBlankSource source = false :=
    isBlankSource_of_getElem? hline (ne_nil_of_isStatement hstatement)
  rw [beginning_of_not_blank hsource, toList_log_start]
  refine List.filter_eq_nil_iff.2 fun d hd hposition => ?_
  have honLabel := onLabel_of_mem_refused hd
  rw [Diagnostic.onLabel_of_isStatement (beq_iff_eq.1 hposition) hline hstatement] at honLabel
  cases honLabel

theorem checkFrom_of_blank {source : Text} (h : isBlankSource source = true) (size : Nat) :
    checkFrom 0 (ofSource size source).statements.toList = [] := by
  have hnone := checkFrom_drop (ofSource size source).statements 0
  rwa [nextStatement_of_blank h, List.drop_zero] at hnone

/-- Checking reports what a run reports before any line is run, and then what can be said of each
statement. -/
theorem check_eq {config : Config} (h : config.validate = .ok ()) (source : Text) :
    check config source = .ok ((beginning config.canvasSize source).log.toList ++
      checkFrom 0 (ofSource config.canvasSize source).statements.toList) := by
  rw [check, h, beginning]
  cases hblank : isBlankSource source with
  | true =>
    rw [checkFrom_of_blank hblank]
    rfl
  | false => rfl

end Beginnings

section Running

variable {size n : Nat} {source : Text} {run : Run}

/-- Running a line reports nothing of lines that declare labels. -/
theorem filter_onLabel_dispatch {lines : List Text} {position : Nat} {line : Text}
    (hline : lines[position]? = some line) (hstatement : isStatement line = true)
    (labels labels' : Labels) (size : Nat) (run : Run) :
    (run.dispatch labels position (.ofLine labels' size line)).log.toList.filter
        (Diagnostic.onLabel lines) =
      run.log.toList.filter (Diagnostic.onLabel lines) := by
  rw [Run.toList_log_dispatch, List.filter_append, List.append_right_eq_self]
  refine List.filter_eq_nil_iff.2 fun d hd => ?_
  obtain ⟨finding, -, rfl⟩ := List.mem_map.1 hd
  rw [Diagnostic.onLabel_of_isStatement rfl hline hstatement]
  exact Bool.false_ne_true

theorem labels_of_leads (h : Leads (ofSource size source) n (beginning size source) run) :
    (ofSource size source).refused <+: run.log.toList ∧
      run.log.toList.filter (Diagnostic.onLabel (linesOf source)) =
        (ofSource size source).refused := by
  obtain ⟨hbegins, hfilter⟩ := labels_beginning size source
  refine ⟨hbegins.trans h.log_isPrefix, ?_⟩
  refine h.preserves (P := fun run => run.log.toList.filter
    (Diagnostic.onLabel (linesOf source)) = (ofSource size source).refused) ?_ hfilter
  intro run position statement hnext hrun
  obtain ⟨line, hfirst, rfl⟩ := nextStatement_ofLines_iff.1 hnext
  rw [filter_onLabel_dispatch hfirst.line_eq hfirst.isStatement, hrun]

theorem labels_of_execute {config : Config} {patience : Nat}
    (h : execute config patience source = some run) :
    (ofSource config.canvasSize source).refused <+: run.log.toList ∧
      run.log.toList.filter (Diagnostic.onLabel (linesOf source)) =
        (ofSource config.canvasSize source).refused := by
  obtain ⟨n, last, hleads, rfl | ⟨budget, position, line, hfirst, rfl⟩⟩ := leads_of_execute h
  · exact labels_of_leads hleads
  · obtain ⟨hbegins, hfilter⟩ := labels_of_leads hleads
    have hlimit : (limitDiagnostic budget position line).onLabel (linesOf source) = false :=
      Diagnostic.onLabel_of_isStatement rfl hfirst.line_eq hfirst.isStatement
    rw [Array.toList_push, List.filter_append, hfilter,
      List.filter_cons_of_neg (by simp [hlimit])]
    exact ⟨hbegins.trans (List.prefix_append _ _), List.append_nil _⟩

/-- A run without jumps passes every statement that is left, and reports of each what checking
reports of it. -/
theorem exists_leads_of_straight (size : Nat) {lines : List Text}
    (h : ∀ line ∈ lines, isStatement line = true → Command.Kind.ofLine? line ≠ some .goTo)
    (run : Run) :
    ∃ n last, n ≤ lines.length - run.position ∧ Leads (ofLines size lines) n run last ∧
      nextStatement (ofLines size lines).statements last.position = none ∧
      (run.log.toList ++ checkFrom run.position
        ((ofLines size lines).statements.toList.drop run.position)).Sublist last.log.toList := by
  -- without jumps every statement leaves fewer lines to go through
  induction hleft : lines.length - run.position using Nat.strongRecOn generalizing run with
  | ind left ih =>
    cases hnext : nextStatement (ofLines size lines).statements run.position with
    | none =>
      refine ⟨0, run, Nat.zero_le _, .refl run, hnext, ?_⟩
      simpa only [checkFrom_drop, hnext, List.append_nil] using List.Sublist.refl run.log.toList
    | some waiting =>
      obtain ⟨position, statement⟩ := waiting
      obtain ⟨line, hfirst, rfl⟩ := nextStatement_ofLines_iff.1 hnext
      have hlt := (List.getElem?_eq_some_iff.1 hfirst.line_eq).1
      have hle := hfirst.le
      have hstraight := h line (List.mem_of_getElem? hfirst.line_eq) hfirst.isStatement
      have hposition := Run.position_dispatch_of_not_goTo hstraight (ofLines size lines).labels
        (ofLines size lines).labels size run position
      obtain ⟨n, last, hn, hleads, hended, hsublist⟩ :=
        ih (lines.length - (position + 1)) (by omega) _ (by rw [hposition])
      refine ⟨n + 1, last, by omega, .step hnext hleads, hended, ?_⟩
      refine List.Sublist.trans ?_ hsublist
      have hstatic := Step.staticFindings_isPrefix (ofLines size lines).labels run.scene position
        (ofLines size lines).labels size line
      rw [checkFrom_drop, hnext, hposition, Run.toList_log_dispatch, List.append_assoc]
      exact (List.Sublist.refl _).append ((hstatic.map _).sublist.append (List.Sublist.refl _))

/-- Whenever a run comes to a line, it reports first what the inspections find in the line then, and
also what checking reports of it. -/
theorem reports_of_leads (h : Leads (ofSource size source) n (beginning size source) run)
    {position : Nat} {line : Text}
    (hfirst : FirstStatement (linesOf source) run.position position line) :
    let program := ofSource size source
    let reported := (beginning size source).log.toList ++ checkFrom 0 program.statements.toList
    ∃ recorded,
      (run.dispatch program.labels position (.ofLine program.labels size line)).log.toList =
        run.log.toList ++ recorded ∧
      (Inspection.all program.labels run.scene.agent line).map (·.at (position + 1) line) <+:
        recorded ∧
      reported.filter (·.line == position + 1) <+: recorded := by
  intro program reported
  refine ⟨_, Run.toList_log_dispatch _ _ _ _, ?_, ?_⟩
  · have hsize : run.scene.agent.canvas.size = size := h.valid_scene.canvas.size_eq
    have hall := Step.inspections_isPrefix program.labels run.scene position program.labels line
    rw [hsize] at hall
    exact hall.map _
  · have hstatement : program.statements.toList[position]? =
        some (some (.ofLine program.labels size line)) := by
      rw [Array.getElem?_toList]
      refine (getElem?_statements size (linesOf source) position).trans ?_
      rw [hfirst.line_eq, Option.map_some, statementOf?, if_pos hfirst.isStatement]
      rfl
    rw [List.filter_append, filter_line_beginning size hfirst.line_eq hfirst.isStatement,
      List.nil_append, filter_checkFrom hstatement]
    exact (Step.staticFindings_isPrefix _ _ _ _ _ _).map _

end Running

/-- Checking a source with valid settings succeeds. The labels that are refused are reported alike
by checking and by running, before anything else. Whenever a run comes to a line, it begins by
reporting what the inspections find in it then, and what it reports begins with what checking
reports of the line. If no line that is to be run is a jump and there is no budget, the run
ends on every machine that is not stopped in it, its reports hold those of checking in the same
order, and checking has nothing to report of what succeeds. -/
theorem checking_agrees_with_running {config : Config} (h : config.validate = .ok ())
    (source : Text) :
    let program := ofSource config.canvasSize source
    let lines := linesOf source
    ∃ reported, check config source = .ok reported ∧
      (program.refused <+: reported ∧
        reported.filter (Diagnostic.onLabel lines) = program.refused) ∧
      (∀ machine patience run, executeOn machine config patience source = some run →
        program.refused <+: run.log.toList ∧
          run.log.toList.filter (Diagnostic.onLabel lines) = program.refused) ∧
      (∀ n run position line, Leads program n (beginning config.canvasSize source) run →
        FirstStatement lines run.position position line →
          ∃ recorded,
            (run.dispatch program.labels position
              (.ofLine program.labels config.canvasSize line)).log.toList =
                run.log.toList ++ recorded ∧
            (Inspection.all program.labels run.scene.agent line).map (·.at (position + 1) line) <+:
              recorded ∧
            reported.filter (·.line == position + 1) <+: recorded) ∧
      ((∀ line ∈ lines, isStatement line = true → Command.Kind.ofLine? line ≠ some .goTo) →
        config.maxSteps = none →
          ∃ run, (∀ machine patience, lines.length ≤ patience →
              executeOn machine config patience source =
                if stops machine config.canvasSize source run.steps then none else some run) ∧
            reported.Sublist run.log.toList ∧ (run.success = true → reported = [])) := by
  intro program lines
  refine ⟨_, check_eq h source, ?_,
    fun _ _ _ hrun => labels_of_execute (execute_of_executeOn hrun),
    fun _ _ _ _ hleads hfirst => reports_of_leads hleads hfirst, fun hstraight hbudget => ?_⟩
  · obtain ⟨hbegins, hfilter⟩ := labels_beginning config.canvasSize source
    refine ⟨hbegins.trans (List.prefix_append _ _), ?_⟩
    rw [List.filter_append, hfilter, List.append_right_eq_self]
    refine List.filter_eq_nil_iff.2 fun d hd => ?_
    obtain ⟨i, statement, hget, hline⟩ := exists_of_mem_checkFrom hd
    rw [Array.getElem?_toList] at hget
    obtain ⟨line, hget, hstatement⟩ := isStatement_of_getElem?_statements hget
    rw [Diagnostic.onLabel_of_isStatement (hline.trans (by rw [Nat.zero_add])) hget hstatement]
    exact Bool.false_ne_true
  · have hstart : (beginning config.canvasSize source).position = 0 := by
      unfold beginning
      split <;> rfl
    obtain ⟨n, last, hn, hleads, hended, hsublist⟩ :=
      exists_leads_of_straight config.canvasSize hstraight
        (beginning config.canvasSize source)
    rw [hstart] at hn hsublist
    refine ⟨last, fun machine patience hpatience => ?_, hsublist, fun hsuccess => ?_⟩
    · apply executeOn_of_leads machine hleads hended
      rw [hbudget]
      exact hn.trans hpatience
    · have hempty : last.log.toList = [] := by
        rw [Array.toList_eq_nil_iff]
        exact Array.isEmpty_iff.1 hsuccess
      rw [hempty] at hsublist
      exact List.eq_nil_of_sublist_nil hsublist

theorem checking_agrees_with_running_unclosed :
    let source := "a:\nSize(x\na:\nFill()".toList
    ∃ reported run, check ⟨10, none⟩ source = .ok reported ∧ reported ≠ [] ∧
      executeOn .wrapping ⟨10, none⟩ 4 source = some run ∧ reported.Sublist run.log.toList := by
  intro source
  have hconfig : Config.validate ⟨10, none⟩ = .ok () := rfl
  obtain ⟨reported, hreported, -, -, -, hrun⟩ := checking_agrees_with_running hconfig source
  obtain ⟨run, hrun, hsublist, -⟩ := hrun (by decide +kernel) rfl
  refine ⟨reported, run, hreported, ?_, hrun .wrapping 4 (by decide +kernel), hsublist⟩
  rintro rfl
  revert hreported
  decide +kernel

end Program

end Brushwork
