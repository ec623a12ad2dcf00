import Brushwork.Proofs.Program.Leads

/-!
# Runs on machines that trap

A machine whose words wrap round runs every statement. One that traps goes the same way
up to the first statement that overflows, and has no answer if it comes to one. So a run
has the same answer on every machine, or none on a machine that traps.
-/

namespace Brushwork.Program

section Overflows

variable {program : Program} {n k : Nat} {run after : Run}

theorem overflowsWithin_of_waiting {position : Nat} {statement : Statement}
    (h : nextStatement program.statements run.position = some (position, statement)) (n : Nat) :
    program.overflowsWithin (n + 1) run = (statement.overflows run.scene ||
      program.overflowsWithin n (run.dispatch program.labels position statement)) := by
  simp [overflowsWithin, h]

theorem overflowsWithin_of_ended (h : nextStatement program.statements run.position = none)
    (n : Nat) : program.overflowsWithin n run = false := by
  cases n with
  | zero => rfl
  | succ n => simp [overflowsWithin, h]

/-- The statements of a chain overflow, or some that follow it. -/
theorem Leads.overflowsWithin_add (h : Leads program k run after) (n : Nat) :
    program.overflowsWithin (k + n) run =
      (program.overflowsWithin k run || program.overflowsWithin n after) := by
  induction h with
  | refl => simp [overflowsWithin]
  | @step k run after position statement next rest ih =>
    rw [Nat.add_right_comm, overflowsWithin_of_waiting next, overflowsWithin_of_waiting next, ih,
      Bool.or_assoc]

/-- An overflow comes of a statement that a run comes to. -/
theorem overflowsWithin_iff :
    program.overflowsWithin n run = true ↔ ∃ k < n, ∃ state position statement,
      Leads program k run state ∧
      nextStatement program.statements state.position = some (position, statement) ∧
      statement.overflows state.scene = true := by
  constructor
  · intro h
    induction n generalizing run with
    | zero => cases h
    | succ n ih =>
      cases hnext : nextStatement program.statements run.position with
      | none =>
        rw [overflowsWithin_of_ended hnext] at h
        cases h
      | some waiting =>
        obtain ⟨position, statement⟩ := waiting
        rw [overflowsWithin_of_waiting hnext, Bool.or_eq_true] at h
        rcases h with hhere | hlater
        · exact ⟨0, Nat.succ_pos n, run, position, statement, .refl run, hnext, hhere⟩
        · obtain ⟨k, hk, state, position', statement', hleads, hnext', hoverflows⟩ := ih hlater
          exact ⟨k + 1, Nat.succ_lt_succ hk, state, position', statement', .step hnext hleads,
            hnext', hoverflows⟩
  · rintro ⟨k, hk, state, position, statement, hleads, hnext, hoverflows⟩
    obtain ⟨m, rfl⟩ := Nat.exists_eq_add_of_lt hk
    rw [Nat.add_assoc, hleads.overflowsWithin_add, overflowsWithin_of_waiting hnext, hoverflows,
      Bool.true_or, Bool.or_true]

end Overflows

section Machines

variable {machine : Machine} {size n m patience : Nat} {source : Text} {config : Config}
  {run : Run}

theorem stops_zero (machine : Machine) (size : Nat) (source : Text) :
    stops machine size source 0 = false := Bool.and_false _

theorem stops_trapping (size : Nat) (source : Text) (n : Nat) :
    stops .trapping size source n =
      (ofSource size source).overflowsWithin n (beginning size source) := by
  cases hblank : isBlankSource source with
  | true =>
    have hnext : ∀ start, nextStatement (ofSource size source).statements start = none :=
      nextStatement_of_blank hblank
    rw [stops, overflowsWithin_of_ended (hnext _), overflowsWithin_of_ended (hnext _),
      Bool.and_false]
  | false =>
    rw [beginning_of_not_blank hblank]
    rfl

/-- A machine is stopped exactly if it traps and the run comes to a statement that overflows. -/
theorem stops_iff :
    stops machine size source n = true ↔ machine = .trapping ∧
      ∃ k < n, ∃ state position line, Leads (ofSource size source) k (beginning size source) state ∧
        FirstStatement (linesOf source) state.position position line ∧
        (Statement.ofLine (ofSource size source).labels size line).overflows state.scene =
          true := by
  cases machine with
  | wrapping => exact iff_of_false Bool.false_ne_true fun h => nomatch h.1
  | trapping =>
    rw [stops_trapping, overflowsWithin_iff, eq_self, true_and]
    constructor
    · rintro ⟨k, hk, state, position, statement, hleads, hnext, hoverflows⟩
      obtain ⟨line, hfirst, rfl⟩ := nextStatement_ofLines_iff.1 hnext
      exact ⟨k, hk, state, position, line, hleads, hfirst, hoverflows⟩
    · rintro ⟨k, hk, state, position, line, hleads, hfirst, hoverflows⟩
      exact ⟨k, hk, state, position, _, hleads, nextStatement_of_first hfirst, hoverflows⟩

/-- A machine that is not stopped in a longer run is not stopped in a shorter one. -/
theorem stops_of_le (hnm : n ≤ m) (h : stops machine size source m = false) :
    stops machine size source n = false := by
  rw [← Bool.not_eq_true, stops_iff] at h ⊢
  rintro ⟨hmachine, k, hk, hrest⟩
  exact h ⟨hmachine, k, hk.trans_le hnm, hrest⟩

theorem executeOn_wrapping (config : Config) (patience : Nat) (source : Text) :
    executeOn .wrapping config patience source = execute config patience source := by
  rw [executeOn]
  cases execute config patience source with
  | none => rfl
  | some run => rfl

/-- A run has the same answer on every machine, but for those that are stopped in it. -/
theorem executeOn_of_execute (h : execute config patience source = some run)
    (machine : Machine) : executeOn machine config patience source =
      if stops machine config.canvasSize source run.steps then none else some run := by
  rw [executeOn, h]
  cases hstops : stops machine config.canvasSize source run.steps <;> simp [hstops]

/-- The least word is no direction to a machine that traps, and one to a machine that wraps. -/
example :
    let source := "Spawn(0, 0)\nDrawLine(-9223372036854775807 - 1, 0, 1)".toList
    (executeOn .trapping ⟨10, none⟩ 2 source).isNone = true ∧
      (executeOn .wrapping ⟨10, none⟩ 2 source).any Run.success = true := by
  decide +kernel

theorem executeOn_eq_some_iff :
    executeOn machine config patience source = some run ↔
      execute config patience source = some run ∧
        stops machine config.canvasSize source run.steps = false := by
  simp [executeOn, Option.filter_eq_some_iff]

theorem execute_of_executeOn (h : executeOn machine config patience source = some run) :
    execute config patience source = some run :=
  (executeOn_eq_some_iff.1 h).1

end Machines

end Brushwork.Program
