import Brushwork.Proofs.Program.Limit
import Brushwork.Proofs.Program.Overflow

/-!
# Budgets only cut runs short

A run with a budget follows the same chain of statements as the run without one. If
a statement is still waiting when the budget is used up, the run stops there and
says so, once and last; else the budget has played no role. So a run that was not
stopped is the run of every greater budget, and what a stopped run has reported
before is how every longer run begins to report.
-/

namespace Brushwork.Program

section Chains

variable {size budget n : Nat} {source : Text} {after : Run}

/-- Along a run no diagnostic is worded like a broken limit. -/
theorem not_tellsLimit_of_leads
    (h : Leads (ofSource size source) n (beginning size source) after) :
    ∀ d ∈ after.log, ¬ d.TellsLimit := by
  refine h.preserves (P := fun run => ∀ d ∈ run.log, ¬ d.TellsLimit) ?_ ?_
  · intro run position statement hnext hrun d hd
    obtain ⟨line, -, rfl⟩ := nextStatement_ofLines_iff.1 hnext
    rw [← Array.mem_toList_iff, Run.toList_log_dispatch] at hd
    rcases List.mem_append.1 hd with hd | hd
    · exact hrun d (Array.mem_toList_iff.1 hd)
    · obtain ⟨finding, hfinding, rfl⟩ := List.mem_map.1 hd
      exact Diagnostic.not_tellsLimit (Step.plain_ofStatement _ _ _ _ _ finding hfinding)
  · intro d hd
    unfold beginning at hd
    split at hd
    · rw [Array.mem_singleton.1 hd]
      exact Diagnostic.not_tellsLimit (by rw [emptyProgram, opening_ofList]; decide)
    · exact not_tellsLimit_of_mem_declareLabels _ _ (List.mem_toArray.1 hd)

def limitDiagnostic (budget position : Nat) (line : Text) : Diagnostic :=
  (Fault.stepLimit budget).finding.at (position + 1) line

theorem tellsLimit_limitDiagnostic (budget position : Nat) (line : Text) :
    (limitDiagnostic budget position line).TellsLimit :=
  ⟨budget, rfl⟩

/-- A run that reaches a line to be run when its budget is used up stops there and says so. -/
theorem stops_of_waiting {position : Nat} {line : Text}
    (h : Leads (ofSource size source) budget (beginning size source) after)
    (hfirst : FirstStatement (linesOf source) after.position position line) :
    executeWithin size budget source =
        { after with log := after.log.push (limitDiagnostic budget position line) } ∧
      (executeWithin size budget source).steps = budget ∧ ∀ d ∈ after.log, ¬ d.TellsLimit := by
  have hrun : executeWithin size budget source =
      { after with log := after.log.push (limitDiagnostic budget position line) } := by
    rw [executeWithin_eq, h.advance_eq, nextStatement_of_first hfirst]
    rfl
  refine ⟨hrun, ?_, not_tellsLimit_of_leads h⟩
  rw [hrun]
  exact h.steps_of_beginning

theorem exists_tellsLimit_of_waiting {position : Nat} {line : Text}
    (h : Leads (ofSource size source) budget (beginning size source) after)
    (hfirst : FirstStatement (linesOf source) after.position position line) :
    ∃ d ∈ (executeWithin size budget source).log, d.TellsLimit := by
  rw [(stops_of_waiting h hfirst).1]
  exact ⟨_, Array.mem_push_self, tellsLimit_limitDiagnostic budget position line⟩

theorem advance_of_leads_ended (h : Leads (ofSource size source) n (beginning size source) after)
    (hended : nextStatement (ofSource size source).statements after.position = none)
    (hn : n ≤ budget) :
    (ofSource size source).advance budget (beginning size source) = (after, none) := by
  obtain ⟨k, rfl⟩ := Nat.exists_eq_add_of_le hn
  rw [h.advance_add, advance_of_ended hended]

theorem executeWithin_of_ended (h : Leads (ofSource size source) n (beginning size source) after)
    (hended : nextStatement (ofSource size source).statements after.position = none)
    (hn : n ≤ budget) : executeWithin size budget source = after := by
  rw [executeWithin_eq, advance_of_leads_ended h hended hn]
  rfl

/-- A run without a budget has an answer if it comes to its end soon enough. -/
theorem executeToEnd?_eq_some_iff {patience : Nat} :
    executeToEnd? size patience source = some after ↔
      ∃ n ≤ patience, Leads (ofSource size source) n (beginning size source) after ∧
        nextStatement (ofSource size source).statements after.position = none := by
  rw [executeToEnd?_eq]
  constructor
  · intro h
    rcases advance_cases (ofSource size source) patience (beginning size source) with
      ⟨last, position, statement, hleads, -, hadvance⟩ | ⟨n, last, hn, hleads, hended, hadvance⟩
    · rw [hadvance] at h
      cases h
    · rw [hadvance] at h
      cases h
      exact ⟨n, hn, hleads, hended⟩
  · rintro ⟨n, hn, hleads, hended⟩
    rw [advance_of_leads_ended hleads hended hn]
    rfl

/-- A run that comes to its end within the budget, or soon enough without one, is the answer of
every machine that is not stopped in it. -/
theorem executeOn_of_leads {config : Config} {patience : Nat} (machine : Machine)
    (h : Leads (ofSource config.canvasSize source) n (beginning config.canvasSize source) after)
    (hended : nextStatement (ofSource config.canvasSize source).statements after.position = none)
    (hn : n ≤ config.maxSteps.getD patience) :
    executeOn machine config patience source =
      if stops machine config.canvasSize source after.steps then none else some after := by
  apply executeOn_of_execute
  unfold execute
  split
  · rename_i budget hbudget
    rw [hbudget] at hn
    exact congrArg some (executeWithin_of_ended h hended hn)
  · rename_i hbudget
    rw [hbudget] at hn
    exact executeToEnd?_eq_some_iff.2 ⟨n, hn, h, hended⟩

/-- A run ends where no statement is waiting, and else it is stopped when its budget is used up. -/
theorem execute_cases {config : Config} {patience : Nat} {run : Run}
    (h : execute config patience source = some run) :
    (∃ n, Leads (ofSource config.canvasSize source) n (beginning config.canvasSize source) run ∧
      nextStatement (ofSource config.canvasSize source).statements run.position = none ∧
      ∀ budget, config.maxSteps = some budget → n ≤ budget) ∨
    ∃ budget stopped position line, config.maxSteps = some budget ∧
      Leads (ofSource config.canvasSize source) budget
        (beginning config.canvasSize source) stopped ∧
      FirstStatement (linesOf source) stopped.position position line ∧
      run = { stopped with log := stopped.log.push (limitDiagnostic budget position line) } := by
  unfold execute at h
  split at h
  · rename_i budget hbudget
    cases h
    rcases advance_cases (ofSource config.canvasSize source) budget
      (beginning config.canvasSize source) with
      ⟨stopped, position, statement, hleads, hnext, -⟩ | ⟨n, last, hn, hleads, hended, -⟩
    · obtain ⟨line, hfirst, -⟩ := nextStatement_ofLines_iff.1 hnext
      exact .inr ⟨budget, stopped, position, line, hbudget, hleads, hfirst,
        (stops_of_waiting hleads hfirst).1⟩
    · rw [executeWithin_of_ended hleads hended hn]
      refine .inl ⟨n, hleads, hended, fun other hother => ?_⟩
      rw [hbudget] at hother
      exact Option.some.inj hother ▸ hn
  · rename_i hbudget
    obtain ⟨n, -, hleads, hended⟩ := executeToEnd?_eq_some_iff.1 h
    refine .inl ⟨n, hleads, hended, fun other hother => ?_⟩
    rw [hbudget] at hother
    cases hother

/-- Every run ends in a state that it has come to, and if it is stopped there, it says so. -/
theorem leads_of_execute {config : Config} {patience : Nat} {run : Run}
    (h : execute config patience source = some run) :
    ∃ n last, Leads (ofSource config.canvasSize source) n
      (beginning config.canvasSize source) last ∧
      (run = last ∨ ∃ budget position line,
        FirstStatement (linesOf source) last.position position line ∧
          run = { last with log := last.log.push (limitDiagnostic budget position line) }) := by
  rcases execute_cases h with
    ⟨n, hleads, -⟩ | ⟨budget, stopped, position, line, -, hleads, hfirst, hrun⟩
  · exact ⟨n, run, hleads, .inl rfl⟩
  · exact ⟨budget, stopped, hleads, .inr ⟨budget, position, line, hfirst, hrun⟩⟩

/-- A longer run goes on where a shorter one is stopped. -/
theorem exists_leads_executeWithin
    (h : Leads (ofSource size source) n (beginning size source) after) (k : Nat) :
    ∃ j last, Leads (ofSource size source) j after last ∧
      (executeWithin size (n + k) source).steps = last.steps ∧
      last.log.toList <+: (executeWithin size (n + k) source).log.toList := by
  rw [executeWithin_eq, h.advance_add]
  rcases advance_cases (ofSource size source) k after with
    ⟨last, position, statement, hleads, -, hadvance⟩ | ⟨j, last, -, hleads, -, hadvance⟩
  · rw [hadvance]
    refine ⟨k, last, hleads, rfl, ?_⟩
    simp only [cutOff, Array.toList_push]
    exact List.prefix_append _ _
  · rw [hadvance]
    exact ⟨j, last, hleads, rfl, List.prefix_refl _⟩

/-- A longer run on the same machine begins to report as the stopped one has reported. -/
theorem log_isPrefix_of_waiting {machine : Machine} {more patience position : Nat} {line : Text}
    {longer : Run} (h : Leads (ofSource size source) budget (beginning size source) after)
    (hfirst : FirstStatement (linesOf source) after.position position line) (hmore : budget < more)
    (hlonger : executeOn machine ⟨size, some more⟩ patience source = some longer) :
    stops machine size source (executeWithin size budget source).steps = false ∧
      (executeWithin size budget source).log.pop.toList <+: longer.log.toList := by
  obtain ⟨k, rfl⟩ := Nat.exists_eq_add_of_lt hmore
  obtain ⟨hexecute, hstops⟩ := executeOn_eq_some_iff.1 hlonger
  obtain rfl : executeWithin size (budget + k + 1) source = longer := Option.some.inj hexecute
  obtain ⟨j, last, hlast, hsteps, hlog⟩ := exists_leads_executeWithin h (k + 1)
  obtain ⟨hrun, hbudget, -⟩ := stops_of_waiting h hfirst
  have hless : (executeWithin size budget source).steps ≤
      (executeWithin size (budget + k + 1) source).steps := by
    rw [hbudget, Nat.add_assoc, hsteps, hlast.steps_eq, h.steps_of_beginning]
    exact Nat.le_add_right budget j
  refine ⟨stops_of_le hless hstops, ?_⟩
  rw [hrun, Array.pop_push]
  exact hlast.log_isPrefix.trans hlog

end Chains

/-- With a budget every run ends, after no more statements than the budget allows, unless the
machine traps and one of these statements overflows: then there is no run. It reports a broken limit
exactly when a line that is to be run is reached after as many statements as the budget allows: then
it has run that many, and the report is its last, names that line and is the only one of its
wording. A run that reports no broken limit is the run of every greater budget and the run without a
budget. What any other run has reported before its last report is how the run of every greater
budget begins to report, if it has one. -/
theorem budget_cuts_runs_short (size budget : Nat) (source : Text) :
    ∃ run, (∀ machine patience, executeOn machine ⟨size, some budget⟩ patience source =
        if stops machine size source run.steps then none else some run) ∧
      run.steps ≤ budget ∧
      ((∃ d ∈ run.log, d.TellsLimit) ↔ ∃ stopped position line,
        Leads (ofSource size source) budget (beginning size source) stopped ∧
          FirstStatement (linesOf source) stopped.position position line) ∧
      (∀ stopped position line,
        Leads (ofSource size source) budget (beginning size source) stopped →
          FirstStatement (linesOf source) stopped.position position line →
            run = { stopped with
              log := stopped.log.push (limitDiagnostic budget position line) } ∧
            run.steps = budget ∧ ∀ d ∈ stopped.log, ¬ d.TellsLimit) ∧
      ((∀ d ∈ run.log, ¬ d.TellsLimit) →
        (∀ machine more patience, budget ≤ more →
          executeOn machine ⟨size, some more⟩ patience source =
            if stops machine size source run.steps then none else some run) ∧
        ∀ machine patience, run.steps ≤ patience →
          executeOn machine ⟨size, none⟩ patience source =
            if stops machine size source run.steps then none else some run) ∧
      ((∃ d ∈ run.log, d.TellsLimit) → ∀ machine more patience longer, budget < more →
        executeOn machine ⟨size, some more⟩ patience source = some longer →
          stops machine size source run.steps = false ∧
            run.log.pop.toList <+: longer.log.toList) := by
  refine ⟨executeWithin size budget source, fun machine _ => executeOn_of_execute rfl machine, ?_⟩
  rcases advance_cases (ofSource size source) budget (beginning size source) with
    ⟨stopped, position, statement, hleads, hnext, -⟩ | ⟨n, last, hn, hleads, hended, -⟩
  · obtain ⟨line, hfirst, -⟩ := nextStatement_ofLines_iff.1 hnext
    have hsteps := (stops_of_waiting hleads hfirst).2.1
    have htells := exists_tellsLimit_of_waiting hleads hfirst
    refine ⟨hsteps.le, ⟨fun _ => ⟨stopped, position, line, hleads, hfirst⟩, fun _ => htells⟩,
      fun _ _ _ => stops_of_waiting, fun hnone => ?_,
      fun _ _ _ _ _ => log_isPrefix_of_waiting hleads hfirst⟩
    obtain ⟨d, hd, hlimit⟩ := htells
    exact absurd hlimit (hnone d hd)
  · have hrun := executeWithin_of_ended hleads hended hn
    have hsteps : last.steps = n := hleads.steps_of_beginning
    have hnone : ¬ ∃ d ∈ (executeWithin size budget source).log, d.TellsLimit := by
      rintro ⟨d, hd, hlimit⟩
      exact not_tellsLimit_of_leads hleads d (hrun ▸ hd) hlimit
    refine ⟨?_, ⟨fun htells => absurd htells hnone, ?_⟩, fun _ _ _ => stops_of_waiting,
      fun _ => ⟨fun machine more patience hmore => ?_, fun machine patience hpatience => ?_⟩,
      fun htells => absurd htells hnone⟩
    · rw [hrun, hsteps]
      exact hn
    · rintro ⟨stopped, position, line, hleads', hfirst⟩
      exact exists_tellsLimit_of_waiting hleads' hfirst
    · rw [hrun]
      exact executeOn_of_leads machine hleads hended (hn.trans hmore)
    · rw [hrun, hsteps] at hpatience
      rw [hrun]
      exact executeOn_of_leads machine hleads hended hpatience

end Brushwork.Program
