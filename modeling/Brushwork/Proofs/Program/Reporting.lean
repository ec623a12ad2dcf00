import Brushwork.Proofs.Program.Budget
import Brushwork.Proofs.Program.Labels
import Brushwork.Proofs.Session.Invariant

/-!
# No fault goes unreported

Whatever becomes of a line is seen in what is reported of it. A line of no kind and
a line that is refused are reported under their number, and a fault is left out only
where the inspections have reported one of its category for the same line. So a run
reports nothing exactly when there was nothing to report.
-/

namespace Brushwork

/-- The inspections find nothing in a line, and it is a command that is not refused. -/
structure Passes (labels : Labels) (scene : Scene) (line : Text) : Prop where
  silent : Inspection.all labels scene.agent line = []
  done : ∃ kind outcome, Command.Kind.ofLine? line = some kind ∧
    (Command.process labels scene kind line).2 = .ok outcome

/-- What is reported of a line at a position covers the faults of the line. -/
structure Covered (labels : Labels) (scene : Scene) (position : Nat) (line : Text)
    (recorded : List Diagnostic) : Prop where
  unrecognized : Command.Kind.ofLine? line = none →
    ∃ d ∈ recorded, d.line = position + 1 ∧ d.category = .syntactic
  refused : ∀ kind fault, Command.Kind.ofLine? line = some kind →
    (Command.process labels scene kind line).2 = .error fault →
      ∃ d ∈ recorded, d.line = position + 1 ∧ d.category = fault.category
  /-- A fault that depends on the state of the run is reported in its own words, and last. -/
  runtime : ∀ kind fault, Command.Kind.ofLine? line = some kind →
    (Command.process labels scene kind line).2 = .error fault → fault.category = .runtime →
      ∃ d ∈ recorded.getLast?, d.line = position + 1 ∧ d.message = fault.message
  /-- Other faults are not reported again under the same heading. -/
  found : ∀ kind fault, Command.Kind.ofLine? line = some kind →
    (Command.process labels scene kind line).2 = .error fault → fault.category ≠ .runtime →
      (∃ finding ∈ Inspection.all labels scene.agent line, finding.category = fault.category) →
        recorded = (Inspection.all labels scene.agent line).map (·.at (position + 1) line)

namespace Step

section Findings

variable {findings : List Finding} {fault : Fault}

theorem alreadyFound_eq_true_iff : alreadyFound findings fault = true ↔
    fault.category ≠ .runtime ∧ ∃ finding ∈ findings, finding.category = fault.category := by
  simp [alreadyFound]

theorem withFault_of_runtime (h : fault.category = .runtime) (findings : List Finding) :
    withFault findings fault = findings ++ [fault.finding] := by
  refine if_neg fun hfound => ?_
  exact (alreadyFound_eq_true_iff.1 hfound).1 h

theorem exists_mem_withFault (findings : List Finding) (fault : Fault) :
    ∃ finding ∈ withFault findings fault, finding.category = fault.category := by
  unfold withFault
  split
  · rename_i hfound
    exact (alreadyFound_eq_true_iff.1 hfound).2
  · exact ⟨fault.finding, List.mem_append_right _ List.mem_cons_self, rfl⟩

end Findings

variable {labels : Labels} {scene : Scene} {position : Nat} {line : Text}

theorem findings_ofCommand (labels : Labels) (scene : Scene) (position : Nat)
    (findings : List Finding) (command : Except Fault Command) :
    (ofCommand labels scene position findings command).findings =
      match (Command.runParsed labels scene command).2 with
      | .ok _ => findings
      | .error fault => withFault findings fault := by
  unfold ofCommand
  split <;> rename_i h <;> rw [h]

theorem findings_of_unrecognized (h : Command.Kind.ofLine? line = none) :
    (ofStatement labels scene position
      (.ofLine labels scene.agent.canvas.size line)).findings =
        Inspection.all labels scene.agent line ++ [Statement.unrecognized line] := by
  rw [ofStatement_of_unrecognized h, Statement.staticFindings_ofLine, if_pos h, Inspection.all_eq,
    h, Option.map_none, Option.getD_none, List.append_nil]

theorem findings_of_kind {kind : Command.Kind} (h : Command.Kind.ofLine? line = some kind) :
    (ofStatement labels scene position
      (.ofLine labels scene.agent.canvas.size line)).findings =
        match (Command.process labels scene kind line).2 with
        | .ok _ => Inspection.all labels scene.agent line
        | .error fault => withFault (Inspection.all labels scene.agent line) fault := by
  rw [ofStatement_of_kind h, findings_ofCommand, Inspection.all_eq, h]
  rfl

/-- Nothing is said of a line when it is run exactly if it passes. -/
theorem findings_eq_nil_iff (labels : Labels) (scene : Scene) (position : Nat) (line : Text) :
    (ofStatement labels scene position
      (.ofLine labels scene.agent.canvas.size line)).findings = [] ↔
        Passes labels scene line := by
  cases hkind : Command.Kind.ofLine? line with
  | none =>
    rw [findings_of_unrecognized hkind]
    refine ⟨fun h => ?_, fun h => ?_⟩
    · cases (List.append_eq_nil_iff.1 h).2
    · obtain ⟨kind, outcome, hkind', -⟩ := h.done
      rw [hkind] at hkind'
      cases hkind'
  | some kind =>
    rw [findings_of_kind hkind]
    split
    · rename_i outcome hok
      exact ⟨fun h => ⟨h, kind, outcome, hkind, hok⟩, Passes.silent⟩
    · rename_i fault herror
      refine ⟨fun h => ?_, fun h => ?_⟩
      · obtain ⟨finding, hfinding, -⟩ :=
          exists_mem_withFault (Inspection.all labels scene.agent line) fault
        rw [h] at hfinding
        cases hfinding
      · obtain ⟨kind', outcome, hkind', hok⟩ := h.done
        rw [hkind] at hkind'
        cases hkind'
        rw [herror] at hok
        cases hok

/-- Running a line reports what there is to say of it. -/
theorem covered_ofStatement (labels : Labels) (scene : Scene) (position : Nat) (line : Text) :
    Covered labels scene position line
      ((ofStatement labels scene position
        (.ofLine labels scene.agent.canvas.size line)).findings.map
          (·.at (position + 1) line)) where
  unrecognized hkind := by
    rw [findings_of_unrecognized hkind]
    exact ⟨(Statement.unrecognized line).at (position + 1) line,
      List.mem_map_of_mem (List.mem_append_right _ List.mem_cons_self), rfl, rfl⟩
  refused kind fault hkind hfault := by
    rw [findings_of_kind hkind, hfault]
    obtain ⟨finding, hfinding, hcategory⟩ :=
      exists_mem_withFault (Inspection.all labels scene.agent line) fault
    exact ⟨finding.at (position + 1) line, List.mem_map_of_mem hfinding, rfl, hcategory⟩
  runtime kind fault hkind hfault hruntime := by
    rw [findings_of_kind hkind, hfault]
    dsimp only
    rw [withFault_of_runtime hruntime, List.map_append, List.map_singleton, List.getLast?_concat]
    exact ⟨_, rfl, rfl, rfl⟩
  found kind fault hkind hfault hruntime hfound := by
    rw [findings_of_kind hkind, hfault]
    exact congrArg _ (if_pos (alreadyFound_eq_true_iff.2 ⟨hruntime, hfound⟩))

end Step

namespace Program

section Chains

variable {program : Program} {n k : Nat} {run state after : Run}

/-- A chain has one end for each number of statements. -/
theorem Leads.rest (h : Leads program k run state) (hafter : Leads program (k + n) run after) :
    Leads program n state after := by
  induction h with
  | refl => rwa [Nat.zero_add] at hafter
  | step next rest ih =>
    rw [Nat.add_right_comm] at hafter
    cases hafter with
    | step next' rest' =>
      rw [next] at next'
      cases next'
      exact ih rest'

/-- What has been reported of a statement stays reported to the end of the chain. -/
theorem Leads.log_dispatch_isPrefix {position : Nat} {statement : Statement}
    (h : Leads program k run state)
    (hnext : nextStatement program.statements state.position = some (position, statement))
    (hafter : Leads program n run after) (hk : k < n) :
    (state.dispatch program.labels position statement).log.toList <+: after.log.toList := by
  obtain ⟨m, rfl⟩ := Nat.exists_eq_add_of_lt hk
  cases h.rest (Nat.add_assoc k m 1 ▸ hafter) with
  | step next' rest' =>
    rw [hnext] at next'
    cases next'
    exact rest'.log_isPrefix

/-- Nothing is reported along a chain exactly if nothing is said of any statement in it. -/
theorem Leads.log_eq_nil_iff (h : Leads program n run after) :
    after.log.toList = [] ↔ run.log.toList = [] ∧
      ∀ m state position statement, m < n → Leads program m run state →
        nextStatement program.statements state.position = some (position, statement) →
          (Step.ofStatement program.labels state.scene position statement).findings = [] := by
  induction h with
  | refl run =>
    refine ⟨fun hlog => ⟨hlog, fun m _ _ _ hm => absurd hm (Nat.not_lt_zero m)⟩, And.left⟩
  | @step n run after position statement next rest ih =>
    rw [ih, Run.toList_log_dispatch, List.append_eq_nil_iff, List.map_eq_nil_iff, and_assoc]
    refine and_congr_right fun _ => ⟨?_, ?_⟩
    · rintro ⟨hfirst, hrest⟩ m state position' statement' hm hleads hnext
      cases hleads with
      | refl =>
        rw [next] at hnext
        cases hnext
        exact hfirst
      | step next' rest' =>
        rw [next] at next'
        cases next'
        exact hrest _ state position' statement' (Nat.lt_of_succ_lt_succ hm) rest' hnext
    · intro hall
      refine ⟨hall 0 run position statement (Nat.succ_pos n) (.refl run) next, ?_⟩
      intro m state position' statement' hm hleads hnext
      exact hall (m + 1) state position' statement' (Nat.succ_lt_succ hm) (.step next hleads) hnext

end Chains

/-- A line is not reported for its label exactly if no line above it declares the same. -/
theorem duplicateAt?_eq_none_iff {lines : List Text} {position : Nat}
    (h : position < lines.length) :
    duplicateAt? lines position = none ↔
      ∀ i (hi : i < position) name, labelOf? lines[i] = some name →
        labelOf? lines[position] ≠ some name := by
  have habove : ∀ name, (lines.take position).any (labelOf? · == some name) = true ↔
      ∃ i, ∃ hi : i < position, labelOf? lines[i] = some name := by
    intro name
    rw [List.any_eq_true]
    constructor
    · rintro ⟨line, hline, hname⟩
      obtain ⟨i, hi, rfl⟩ := List.mem_take_iff_getElem.1 hline
      exact ⟨i, by omega, beq_iff_eq.1 hname⟩
    · rintro ⟨i, hi, hname⟩
      exact ⟨lines[i], List.mem_take_iff_getElem.2 ⟨i, by omega, rfl⟩, beq_iff_eq.2 hname⟩
  rw [duplicateAt?, List.getElem?_eq_getElem h, Option.bind_eq_bind, Option.bind_some]
  cases hlabel : labelOf? lines[position] with
  | none => simp
  | some name =>
    rw [Option.bind_some, ite_eq_right_iff]
    constructor
    · intro hnone i hi other hother hsame
      cases hsame
      cases hnone ((habove name).2 ⟨i, hi, hother⟩)
    · intro hall hdeclared
      obtain ⟨i, hi, hname⟩ := (habove name).1 hdeclared
      exact absurd rfl (hall i hi name hname)

/-- No label is refused exactly if no two lines declare the same one. -/
theorem refused_eq_nil_iff (size : Nat) (lines : List Text) :
    (ofLines size lines).refused = [] ↔ (lines.filterMap labelOf?).Nodup := by
  rw [refused_ofLines, List.filterMap_eq_nil_iff, List.Nodup, List.pairwise_filterMap,
    List.pairwise_iff_getElem]
  constructor
  · intro h i j hi hj hij name hname other hother
    have hnone := h j (List.mem_range.2 hj)
    rintro rfl
    exact (duplicateAt?_eq_none_iff hj).1 hnone i hij name hname hother
  · intro h position hposition
    have hlt := List.mem_range.1 hposition
    refine (duplicateAt?_eq_none_iff hlt).2 fun i hi name hname hother => ?_
    exact h i position (hi.trans hlt) hlt hi name hname name hother rfl

section Success

variable {size n : Nat} {source : Text} {run : Run}

theorem log_beginning_eq_nil_iff (size : Nat) (source : Text) :
    (beginning size source).log.toList = [] ↔
      isBlankSource source = false ∧ ((linesOf source).filterMap labelOf?).Nodup := by
  cases hblank : isBlankSource source with
  | true =>
    rw [beginning, if_pos hblank]
    simp [emptyRun, Run.start]
  | false =>
    rw [beginning_of_not_blank hblank, toList_log_start, ofSource, refused_eq_nil_iff]
    simp

theorem findings_eq_nil_iff_of_leads
    (h : Leads (ofSource size source) n (beginning size source) run) (position : Nat)
    (line : Text) :
    (Step.ofStatement (ofSource size source).labels run.scene position
      (.ofLine (ofSource size source).labels size line)).findings = [] ↔
        Passes (ofSource size source).labels run.scene line := by
  have hsize : run.scene.agent.canvas.size = size := h.valid_scene.canvas.size_eq
  rw [← Step.findings_eq_nil_iff _ _ position, hsize]

theorem success_iff_of_leads (h : Leads (ofSource size source) n (beginning size source) run) :
    run.success = true ↔
      (isBlankSource source = false ∧ ((linesOf source).filterMap labelOf?).Nodup) ∧
        ∀ m state position line, m < n →
          Leads (ofSource size source) m (beginning size source) state →
            FirstStatement (linesOf source) state.position position line →
              Passes (ofSource size source).labels state.scene line := by
  rw [Run.success, Array.isEmpty_iff, ← Array.toList_eq_nil_iff, h.log_eq_nil_iff,
    log_beginning_eq_nil_iff]
  refine and_congr_right fun _ => ⟨?_, ?_⟩
  · intro hall m state position line hm hleads hfirst
    refine (findings_eq_nil_iff_of_leads hleads position line).1 ?_
    exact hall m state position _ hm hleads (nextStatement_of_first hfirst)
  · intro hall m state position statement hm hleads hnext
    obtain ⟨line, hfirst, rfl⟩ := nextStatement_ofLines_iff.1 hnext
    exact (findings_eq_nil_iff_of_leads hleads position line).2
      (hall m state position line hm hleads hfirst)

/-- A run has as many steps as the chain that it follows. -/
theorem exists_leads_steps {config : Config} {patience : Nat}
    (h : execute config patience source = some run) :
    ∃ last, Leads (ofSource config.canvasSize source) run.steps
      (beginning config.canvasSize source) last ∧ last.log.toList <+: run.log.toList := by
  obtain ⟨n, last, hleads, rfl | ⟨budget, position, line, -, rfl⟩⟩ := leads_of_execute h
  · rw [hleads.steps_of_beginning]
    exact ⟨run, hleads, List.prefix_refl _⟩
  · rw [hleads.steps_of_beginning, Array.toList_push]
    exact ⟨last, hleads, List.prefix_append _ _⟩

/-- After as many statements as the budget allows, a run of the source comes to a line that is to be
run. -/
def ExceedsBudget (config : Config) (source : Text) : Prop :=
  ∃ budget stopped position line, config.maxSteps = some budget ∧
    Leads (ofSource config.canvasSize source) budget
      (beginning config.canvasSize source) stopped ∧
    FirstStatement (linesOf source) stopped.position position line

theorem not_exceedsBudget {config : Config}
    (h : Leads (ofSource config.canvasSize source) n (beginning config.canvasSize source) run)
    (hended : nextStatement (ofSource config.canvasSize source).statements run.position = none)
    (hn : ∀ budget, config.maxSteps = some budget → n ≤ budget) :
    ¬ ExceedsBudget config source := by
  rintro ⟨budget, stopped, position, line, hbudget, hstopped, hfirst⟩
  have hadvance := advance_of_leads_ended h hended (hn budget hbudget)
  rw [hstopped.advance_eq, nextStatement_of_first hfirst] at hadvance
  cases hadvance

end Success

/-- Whenever a run comes to a line, what it reports of the line covers the faults of the line, and
it stays reported. A run that is over, on whatever machine, succeeds exactly if its source is not
blank, no label is declared twice, its budget was enough and every line that it came to passed. -/
theorem reports_every_fault (config : Config) (source : Text) :
    let size := config.canvasSize
    let program := ofSource size source
    let lines := linesOf source
    (∀ n state position line, Leads program n (beginning size source) state →
      FirstStatement lines state.position position line →
        ∃ recorded,
          (state.dispatch program.labels position (.ofLine program.labels size line)).log.toList =
            state.log.toList ++ recorded ∧
          Covered program.labels state.scene position line recorded) ∧
    ∀ machine patience run, executeOn machine config patience source = some run →
      (∀ n state position line, n < run.steps → Leads program n (beginning size source) state →
        FirstStatement lines state.position position line →
          (state.dispatch program.labels position (.ofLine program.labels size line)).log.toList <+:
            run.log.toList) ∧
      (run.success = true ↔
        isBlankSource source = false ∧ (lines.filterMap labelOf?).Nodup ∧
        ¬ ExceedsBudget config source ∧
        ∀ n state position line, n < run.steps → Leads program n (beginning size source) state →
          FirstStatement lines state.position position line →
            Passes program.labels state.scene line) := by
  intro size program lines
  refine ⟨fun n state position line hleads hfirst => ?_,
    fun machine patience run hrun => ⟨?_, ?_⟩⟩
  · refine ⟨_, Run.toList_log_dispatch _ _ _ _, ?_⟩
    have hsize : state.scene.agent.canvas.size = size := hleads.valid_scene.canvas.size_eq
    have hcovered := Step.covered_ofStatement program.labels state.scene position line
    rwa [hsize] at hcovered
  · intro n state position line hn hleads hfirst
    obtain ⟨last, hlast, hlog⟩ := exists_leads_steps (execute_of_executeOn hrun)
    exact (hleads.log_dispatch_isPrefix (nextStatement_of_first hfirst) hlast hn).trans hlog
  · rcases execute_cases (execute_of_executeOn hrun) with
      ⟨n, hleads, hended, hn⟩ | ⟨budget, stopped, position, line, hbudget, hleads, hfirst, rfl⟩
    · have hbudget := not_exceedsBudget hleads hended hn
      rw [success_iff_of_leads hleads, hleads.steps_of_beginning, and_assoc]
      simp only [hbudget, not_false_eq_true, true_and]
      rfl
    · have hexceeds : ExceedsBudget config source :=
        ⟨budget, stopped, position, line, hbudget, hleads, hfirst⟩
      simp [Run.success, hexceeds]

end Program

end Brushwork
