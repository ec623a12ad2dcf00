import Brushwork.Proofs.Program.Agreement
import Brushwork.Proofs.Text.Lines

/-!
# A failing line is isolated

A line that is refused whenever a run comes to it leaves nothing behind but its
reports. So the run of the program in which a comment stands in its place goes the
same way without it: both runs come to the same statements in the same scenes, and
only the reports of that line and the statements spent on it are missing.
-/

namespace Brushwork

theorem declareLabels_set {lines : List Text} {i : Nat} {line other : Text}
    (hget : lines[i]? = some line) (hline : labelOf? line = none) (hother : labelOf? other = none)
    (labels : Labels) (position : Nat) :
    declareLabels labels position (lines.set i other) = declareLabels labels position lines := by
  induction lines generalizing i labels position with
  | nil => rfl
  | cons first rest ih =>
    cases i with
    | zero =>
      obtain rfl : first = line := Option.some.inj hget
      rw [List.set_cons_zero, declareLabels_of_none hother, declareLabels_of_none hline]
    | succ i => simp only [List.set_cons_succ, declareLabels, ih hget]

namespace Program

section Silencing

variable {statements : Array (Option Statement)} {start position : Nat} {statement : Statement}

theorem nextStatement_of_none (h : statements[start]? = some none) :
    nextStatement statements start = nextStatement statements (start + 1) := by
  obtain ⟨hlt, hget⟩ := Array.getElem?_eq_some_iff.1 h
  rw [nextStatement]
  simp only [hlt, hget, dite_true]

theorem nextStatement_of_skipped (hle : start ≤ position)
    (h : ∀ j, start ≤ j → j < position → statements[j]? = some none) :
    nextStatement statements start = nextStatement statements position := by
  induction position, hle using Nat.le_induction with
  | base => rfl
  | succ position hle ih =>
    rw [ih fun j hj hj' => h j hj (Nat.lt_succ_of_lt hj'),
      nextStatement_of_none (h position hle (Nat.lt_succ_self position))]

theorem nextStatement_ne_none (hle : start ≤ position)
    (h : statements[position]? = some (some statement)) :
    nextStatement statements start ≠ none := by
  fun_induction nextStatement statements start with
  | case1 start hstart found hfound => exact Option.some_ne_none _
  | case2 start hstart hnone ih =>
    refine ih (Nat.lt_of_le_of_ne hle ?_)
    rintro rfl
    rw [Array.getElem?_eq_getElem hstart, hnone] at h
    cases h
  | case3 start hstart =>
    rw [Array.getElem?_eq_none (by omega)] at h
    cases h

/-- The second program has no statement at a position, and else the statements of the first. -/
structure Silenced (program other : Program) (i : Nat) : Prop where
  labels : other.labels = program.labels
  refused : other.refused = program.refused
  here : other.statements[i]? = some none
  elsewhere : ∀ j, j ≠ i → other.statements[j]? = program.statements[j]?

namespace Silenced

variable {program other : Program} {i : Nat}

theorem getElem?_of_none (h : Silenced program other i) {j : Nat}
    (hnone : program.statements[j]? = some none) : other.statements[j]? = some none := by
  by_cases hj : j = i
  · rw [hj]
    exact h.here
  · rw [h.elsewhere j hj, hnone]

theorem next_of_ne (h : Silenced program other i)
    (hnext : nextStatement program.statements start = some (position, statement))
    (hne : position ≠ i) :
    nextStatement other.statements start = some (position, statement) := by
  obtain ⟨hle, hposition, hskipped⟩ := nextStatement_eq_some_iff.1 hnext
  refine nextStatement_eq_some_iff.2 ⟨hle, ?_, fun j hj hj' => ?_⟩
  · rw [h.elsewhere position hne, hposition]
  · exact h.getElem?_of_none (hskipped j hj hj')

/-- Where the first program comes to the statement that is missing, the second goes on behind it. -/
theorem next_of_eq (h : Silenced program other i)
    (hnext : nextStatement program.statements start = some (i, statement)) :
    nextStatement other.statements start = nextStatement other.statements (i + 1) := by
  obtain ⟨hle, -, hskipped⟩ := nextStatement_eq_some_iff.1 hnext
  have hskip : nextStatement other.statements start = nextStatement other.statements i :=
    nextStatement_of_skipped hle fun j hj hj' => h.getElem?_of_none (hskipped j hj hj')
  rw [hskip, nextStatement_of_none h.here]

theorem next_of_none (h : Silenced program other i)
    (hnone : nextStatement program.statements start = none) :
    nextStatement other.statements start = none := by
  cases hnext : nextStatement other.statements start with
  | none => rfl
  | some waiting =>
    obtain ⟨hle, hposition, -⟩ := nextStatement_eq_some_iff.1 hnext
    have hne : waiting.1 ≠ i := by
      intro heq
      rw [heq, h.here] at hposition
      cases hposition
    rw [h.elsewhere _ hne] at hposition
    exact absurd hnone (nextStatement_ne_none hle hposition)

end Silenced

end Silencing

section Following

/-- The positions of the statements that are run, at most as many as the budget says. -/
def trace (program : Program) : (budget : Nat) → Run → List Nat
  | 0, _ => []
  | budget + 1, run =>
    match nextStatement program.statements run.position with
    | none => []
    | some (position, statement) =>
      position :: trace program budget (run.dispatch program.labels position statement)

variable {program other : Program} {i n : Nat} {run run' after : Run}

theorem trace_of_waiting {position : Nat} {statement : Statement}
    (h : nextStatement program.statements run.position = some (position, statement)) (n : Nat) :
    program.trace (n + 1) run =
      position :: program.trace n (run.dispatch program.labels position statement) := by
  simp only [trace, h]

theorem Leads.length_trace (h : Leads program n run after) :
    (program.trace n run).length = n := by
  induction h with
  | refl => rfl
  | step next rest ih => rw [trace_of_waiting next, List.length_cons, ih]

/-- Whenever the run comes to the statement at a position, this is passed over and changes nothing
but the log. -/
def Idle (program : Program) (i : Nat) (run : Run) : Prop :=
  ∀ n state statement, Leads program n run state →
    nextStatement program.statements state.position = some (i, statement) →
      ∃ findings, Step.ofStatement program.labels state.scene i statement =
        ⟨state.scene, i + 1, none, findings⟩

/-- The second state is that of a run without the statement at a position, which waits for the same
statement. -/
structure Follows (other : Program) (i : Nat) (run run' : Run) : Prop where
  next : nextStatement other.statements run'.position =
    nextStatement other.statements run.position
  scene : run'.scene = run.scene
  lastValue : run'.lastValue = run.lastValue
  log : run'.log.toList = run.log.toList.filter (·.line != i + 1)

/-- The statement that is missing is passed over. -/
theorem Follows.pass (h : Follows other i run run') {labels : Labels} {statement : Statement}
    {findings : List Finding}
    (hnext : nextStatement other.statements run.position =
      nextStatement other.statements (i + 1))
    (hstep : Step.ofStatement labels run.scene i statement =
      ⟨run.scene, i + 1, none, findings⟩) :
    Follows other i (run.dispatch labels i statement) run' := by
  constructor
  · rw [h.next, hnext, Run.position_dispatch, hstep]
  · rw [h.scene, Run.scene_dispatch, hstep]
  · rw [h.lastValue, Run.lastValue_dispatch, hstep, Option.none_or]
  · rw [h.log, Run.toList_log_dispatch, List.filter_append, eq_comm, List.append_right_eq_self]
    refine List.filter_eq_nil_iff.2 fun d hd => ?_
    obtain ⟨finding, -, rfl⟩ := List.mem_map.1 hd
    simp [Finding.at]

/-- Any other statement does the same in both runs. -/
theorem Follows.dispatch (h : Follows other i run run') (labels : Labels) {position : Nat}
    (hne : position ≠ i) (statement : Statement) :
    Follows other i (run.dispatch labels position statement)
      (run'.dispatch labels position statement) := by
  constructor
  · rw [Run.position_dispatch, Run.position_dispatch, h.scene]
  · rw [Run.scene_dispatch, Run.scene_dispatch, h.scene]
  · rw [Run.lastValue_dispatch, Run.lastValue_dispatch, h.scene, h.lastValue]
  · rw [Run.toList_log_dispatch, Run.toList_log_dispatch, h.scene, h.log, List.filter_append,
      List.append_cancel_left_eq, eq_comm]
    refine List.filter_eq_self.2 fun d hd => ?_
    obtain ⟨finding, -, rfl⟩ := List.mem_map.1 hd
    simpa [Finding.at] using hne

/-- The run without the statement goes through all statements but that one, so none overflows that
does not overflow in the other run. -/
theorem Follows.leads (hsilenced : Silenced program other i) (h : Leads program n run after)
    (hidle : Idle program i run) (hfollows : Follows other i run run') :
    ∃ m after', m + (program.trace n run).count i = n ∧ Leads other m run' after' ∧
      Follows other i after after' ∧
      (program.overflowsWithin n run = false → other.overflowsWithin m run' = false) := by
  induction h generalizing run' with
  | refl run => exact ⟨0, run', rfl, .refl run', hfollows, fun _ => rfl⟩
  | @step n run after position statement next rest ih =>
    have hidle' : Idle program i (run.dispatch program.labels position statement) :=
      fun k state statement hleads => hidle (k + 1) state statement (.step next hleads)
    by_cases hposition : position = i
    · subst hposition
      obtain ⟨findings, hstep⟩ := hidle 0 run statement (.refl run) next
      obtain ⟨m, after', hcount, hleads, hafter, hoverflows⟩ :=
        ih hidle' (hfollows.pass (hsilenced.next_of_eq next) hstep)
      refine ⟨m, after', ?_, hleads, hafter, fun hnone => hoverflows ?_⟩
      · rw [trace_of_waiting next, List.count_cons_self]
        omega
      · rw [overflowsWithin_of_waiting next, Bool.or_eq_false_iff] at hnone
        exact hnone.2
    · obtain ⟨m, after', hcount, hleads, hafter, hoverflows⟩ :=
        ih hidle' (hfollows.dispatch program.labels hposition statement)
      have hnext : nextStatement other.statements run'.position = some (position, statement) := by
        rw [hfollows.next]
        exact hsilenced.next_of_ne next hposition
      refine ⟨m + 1, after', ?_, .step hnext (hsilenced.labels ▸ hleads), hafter, fun hnone => ?_⟩
      · rw [trace_of_waiting next, List.count_cons_of_ne hposition]
        omega
      · rw [overflowsWithin_of_waiting next, Bool.or_eq_false_iff] at hnone
        rw [overflowsWithin_of_waiting hnext, hfollows.scene, hsilenced.labels, hnone.1,
          hoverflows hnone.2, Bool.false_or]

end Following

section Sources

variable {machine : Machine} {size patience i : Nat} {source line : Text} {run : Run}

theorem silenced_set {lines : List Text} (hget : lines[i]? = some line)
    (hstatement : isStatement line = true) (size : Nat) :
    Silenced (ofLines size lines) (ofLines size (lines.set i ['#'])) i := by
  have hcomment : labelOf? ['#'] = none := by decide
  have hdeclare := declareLabels_set hget (labelOf?_of_isStatement hstatement) hcomment .empty 0
  have hlabels : (ofLines size (lines.set i ['#'])).labels = (ofLines size lines).labels :=
    congrArg Prod.fst hdeclare
  have hlt : i < lines.length := (List.getElem?_eq_some_iff.1 hget).1
  refine ⟨hlabels, congrArg Prod.snd hdeclare, ?_, fun j hj => ?_⟩
  · rw [getElem?_statements, List.getElem?_set_self hlt]
    rfl
  · rw [getElem?_statements, getElem?_statements, hlabels, List.getElem?_set_ne (Ne.symm hj)]

theorem linesOf_replaceLine (source : Text) (i : Nat) :
    linesOf (replaceLine source i ['#']) = (linesOf source).set i ['#'] := by
  rw [linesOf, splitLines_replaceLine source i (by decide), List.map_set]
  rfl

/-- Both runs begin alike, as nothing is reported of the line before it is run. -/
theorem follows_beginning (hline : (linesOf source)[i]? = some line)
    (hstatement : isStatement line = true) (size : Nat) :
    Follows (ofSource size (replaceLine source i ['#'])) i (beginning size source)
      (beginning size (replaceLine source i ['#'])) := by
  have hlt : i < (linesOf source).length := (List.getElem?_eq_some_iff.1 hline).1
  have hcomment : (linesOf (replaceLine source i ['#']))[i]? = some ['#'] := by
    rw [linesOf_replaceLine, List.getElem?_set_self hlt]
  have hsource : isBlankSource source = false :=
    isBlankSource_of_getElem? hline (ne_nil_of_isStatement hstatement)
  have hreplaced : isBlankSource (replaceLine source i ['#']) = false :=
    isBlankSource_of_getElem? hcomment (List.cons_ne_nil _ _)
  have hrefused : (ofSource size (replaceLine source i ['#'])).refused =
      (ofSource size source).refused := by
    rw [ofSource, linesOf_replaceLine]
    exact (silenced_set hline hstatement size).refused
  have hbegins := filter_line_beginning size hline hstatement
  rw [beginning_of_not_blank hsource, toList_log_start] at hbegins
  rw [beginning_of_not_blank hsource, beginning_of_not_blank hreplaced]
  constructor
  · rfl
  · rfl
  · rfl
  · rw [toList_log_start, toList_log_start, hrefused]
    refine (List.filter_eq_self.2 fun d hd => ?_).symm
    simpa using List.filter_eq_nil_iff.1 hbegins d hd

theorem idle_beginning (hline : (linesOf source)[i]? = some line)
    (h : ∀ n state, Leads (ofSource size source) n (beginning size source) state →
      FirstStatement (linesOf source) state.position i line →
        Command.Refuses (ofSource size source).labels state.scene line) :
    Idle (ofSource size source) i (beginning size source) := by
  intro n state statement hleads hnext
  obtain ⟨found, hfirst, rfl⟩ := nextStatement_ofLines_iff.1 hnext
  have hfound := hfirst.line_eq
  rw [hline] at hfound
  cases hfound
  exact Step.ofStatement_of_refuses (h n state hleads hfirst)

/-- If a run without a budget ends on a machine, and a line is of no kind or refused whenever the
run comes to it, then the run with a comment in the place of that line ends there as well. It leaves
the same scene and the same last value, it reports the same but for that line, in the same order,
and it takes as many statements less as that line has taken. -/
theorem refused_line_is_isolated
    (hrun : executeOn machine ⟨size, none⟩ patience source = some run)
    (hline : (linesOf source)[i]? = some line) (hstatement : isStatement line = true)
    (hrefused : ∀ n state, Leads (ofSource size source) n (beginning size source) state →
      FirstStatement (linesOf source) state.position i line →
        Command.Refuses (ofSource size source).labels state.scene line) :
    let positions := (ofSource size source).trace run.steps (beginning size source)
    ∃ after, (∀ patience, after.steps ≤ patience →
        executeOn machine ⟨size, none⟩ patience (replaceLine source i ['#']) = some after) ∧
      after.scene = run.scene ∧ after.lastValue = run.lastValue ∧
      after.log.toList = run.log.toList.filter (·.line != i + 1) ∧
      positions.length = run.steps ∧ after.steps + positions.count i = run.steps := by
  intro positions
  obtain ⟨hexecute, hstops⟩ := executeOn_eq_some_iff.1 hrun
  obtain ⟨n, -, hleads, hended⟩ := executeToEnd?_eq_some_iff.1 hexecute
  obtain rfl : run.steps = n := hleads.steps_of_beginning
  have hsilenced : Silenced (ofSource size source)
      (ofSource size (replaceLine source i ['#'])) i := by
    rw [ofSource, ofSource, linesOf_replaceLine]
    exact silenced_set hline hstatement size
  obtain ⟨m, after, hcount, hleads', hafter, hoverflows⟩ :=
    (follows_beginning hline hstatement size).leads hsilenced hleads
      (idle_beginning hline hrefused)
  obtain rfl : after.steps = m := hleads'.steps_of_beginning
  have hstops' : stops machine size (replaceLine source i ['#']) after.steps = false := by
    cases machine with
    | wrapping => rfl
    | trapping =>
      rw [stops_trapping] at hstops ⊢
      exact hoverflows hstops
  refine ⟨after, fun patience hpatience => ?_, hafter.scene, hafter.lastValue, hafter.log,
    hleads.length_trace, hcount⟩
  have hended' := hafter.next.trans (hsilenced.next_of_none hended)
  calc executeOn machine ⟨size, none⟩ patience (replaceLine source i ['#'])
    _ = if stops machine size (replaceLine source i ['#']) after.steps then none
        else some after := executeOn_of_leads machine hleads' hended' hpatience
    _ = some after := by
      rw [hstops']
      rfl

theorem refused_line_is_isolated_in_loop :
    let source := "n <- 0\nloop\nSpawn(1)\nn <- n + 1\nGoTo [loop] (n < 2)".toList
    ∃ run after, executeOn .trapping ⟨10, none⟩ 7 source = some run ∧
      executeOn .trapping ⟨10, none⟩ 5 (replaceLine source 2 ['#']) = some after ∧
      after.scene = run.scene ∧ run.steps = 7 ∧ after.steps = 5 := by
  intro source
  obtain ⟨run, hrun, hsteps⟩ :
      ∃ run, executeOn .trapping ⟨10, none⟩ 7 source = some run ∧ run.steps = 7 :=
    Option.map_eq_some_iff.1 (by decide +kernel)
  have hcount : ((ofSource 10 source).trace 7 (beginning 10 source)).count 2 = 2 := by
    decide +kernel
  have hrefuses : ∀ scene,
      Command.Refuses (ofSource 10 source).labels scene "Spawn(1)".toList := by
    intro scene kind hkind
    have hspawn : Command.Kind.ofLine? "Spawn(1)".toList = some .spawn := by decide +kernel
    have hmalformed : Command.ofLine .spawn "Spawn(1)".toList = .error (.malformed .spawn) := by
      decide +kernel
    cases hspawn.symm.trans hkind
    rw [Command.process, hmalformed]
    exact ⟨.malformed .spawn, rfl⟩
  have hline : (linesOf source)[2]? = some "Spawn(1)".toList := by decide +kernel
  obtain ⟨after, hafter, hscene, -, -, -, hless⟩ :=
    refused_line_is_isolated hrun hline (by decide +kernel) fun _ state _ _ => hrefuses state.scene
  rw [hsteps, hcount] at hless
  exact ⟨run, after, hrun, hafter 5 (by omega), hscene, hsteps, by omega⟩

end Sources

end Program

end Brushwork
