import Brushwork.Program.Run
import Brushwork.Proofs.Text.Trimming

/-!
# Runs as chains of statements

A run goes from one statement to the next that is waiting. `Leads n` joins two
states of a run between which `n` statements are run; whatever each statement keeps
is kept along it (`Leads.preserves`). Running at most so many statements, as
`advance` does, follows such a chain until the number is used up or no statement is
waiting; and every run of a source is read off it.
-/

namespace Brushwork

theorem Run.toList_log_dispatch (labels : Labels) (run : Run) (position : Nat)
    (statement : Statement) :
    (run.dispatch labels position statement).log.toList = run.log.toList ++
      (Step.ofStatement labels run.scene position statement).findings.map
        (·.at (position + 1) statement.line) := by
  simp [Run.dispatch]

namespace Program

/-- From a position on, the first line that is to be run is `line`, at `position`. -/
structure FirstStatement (lines : List Text) (start position : Nat) (line : Text) : Prop where
  le : start ≤ position
  line_eq : lines[position]? = some line
  isStatement : isStatement line = true
  skipped : ∀ i, start ≤ i → i < position →
    ∀ other, lines[i]? = some other → Brushwork.isStatement other = false

theorem nextStatement_eq_some_iff {statements : Array (Option Statement)} {start position : Nat}
    {statement : Statement} :
    nextStatement statements start = some (position, statement) ↔
      start ≤ position ∧ statements[position]? = some (some statement) ∧
        ∀ i, start ≤ i → i < position → statements[i]? = some none := by
  fun_induction nextStatement statements start with
  | case1 start hstart found hfound =>
    have hget : statements[start]? = some (some found) := by
      rw [Array.getElem?_eq_getElem hstart, hfound]
    constructor
    · intro h
      cases h
      exact ⟨Nat.le_refl _, hget, fun i hi hi' => absurd hi' (Nat.not_lt.2 hi)⟩
    · rintro ⟨hle, hposition, hskipped⟩
      rcases Nat.lt_or_eq_of_le hle with hlt | rfl
      · have hnone := hskipped start (Nat.le_refl _) hlt
        rw [hget] at hnone
        cases hnone
      · rw [hget] at hposition
        cases hposition
        rfl
  | case2 start hstart hfound ih =>
    have hget : statements[start]? = some none := by
      rw [Array.getElem?_eq_getElem hstart, hfound]
    rw [ih]
    constructor
    · rintro ⟨hle, hposition, hskipped⟩
      refine ⟨by omega, hposition, fun i hi hi' => ?_⟩
      rcases Nat.lt_or_eq_of_le hi with hlt | rfl
      · exact hskipped i hlt hi'
      · exact hget
    · rintro ⟨hle, hposition, hskipped⟩
      have hne : start ≠ position := by
        rintro rfl
        rw [hget] at hposition
        cases hposition
      exact ⟨by omega, hposition, fun i hi hi' => hskipped i (by omega) hi'⟩
  | case3 start hstart =>
    constructor
    · intro h
      cases h
    · rintro ⟨hle, hposition, -⟩
      rw [Array.getElem?_eq_none (by omega)] at hposition
      cases hposition

theorem getElem?_statements (size : Nat) (lines : List Text) (i : Nat) :
    (ofLines size lines).statements[i]? =
      lines[i]?.map (statementOf? (ofLines size lines).labels size) := by
  simp [ofLines]

theorem statementOf?_eq_some_iff {labels : Labels} {size : Nat} {line : Text}
    {statement : Statement} :
    statementOf? labels size line = some statement ↔
      isStatement line = true ∧ statement = .ofLine labels size line := by
  unfold statementOf?
  split
  · rename_i h
    simp [h, eq_comm]
  · rename_i h
    simp [h]

/-- The statement that waits is made of the first line that is to be run. -/
theorem nextStatement_ofLines_iff {size : Nat} {lines : List Text} {start position : Nat}
    {statement : Statement} :
    nextStatement (ofLines size lines).statements start = some (position, statement) ↔
      ∃ line, FirstStatement lines start position line ∧
        statement = .ofLine (ofLines size lines).labels size line := by
  simp only [nextStatement_eq_some_iff, getElem?_statements]
  constructor
  · rintro ⟨hle, hposition, hskipped⟩
    obtain ⟨line, hline, hstatement⟩ := Option.map_eq_some_iff.1 hposition
    obtain ⟨his, rfl⟩ := statementOf?_eq_some_iff.1 hstatement
    refine ⟨line, ⟨hle, hline, his, fun i hi hi' other hother => ?_⟩, rfl⟩
    have hnone := hskipped i hi hi'
    rw [hother, Option.map_some, Option.some.injEq, statementOf?] at hnone
    split at hnone
    · cases hnone
    · rename_i h
      exact Bool.eq_false_iff.2 h
  · rintro ⟨line, hfirst, rfl⟩
    refine ⟨hfirst.le, ?_, fun i hi hi' => ?_⟩
    · rw [hfirst.line_eq, Option.map_some,
        statementOf?_eq_some_iff.2 ⟨hfirst.isStatement, rfl⟩]
    · have hlt : position < lines.length := (List.getElem?_eq_some_iff.1 hfirst.line_eq).1
      have hget := List.getElem?_eq_getElem (l := lines) (i := i) (by omega)
      have hnot := hfirst.skipped i hi hi' _ hget
      rw [hget, Option.map_some, statementOf?, if_neg (by simp [hnot])]

theorem nextStatement_of_first {size : Nat} {source line : Text} {start position : Nat}
    (h : FirstStatement (linesOf source) start position line) :
    nextStatement (ofSource size source).statements start =
      some (position, .ofLine (ofSource size source).labels size line) :=
  nextStatement_ofLines_iff.2 ⟨line, h, rfl⟩

/-- Running so many statements leads from one state of a run to another. -/
inductive Leads (program : Program) : Nat → Run → Run → Prop where
  | refl (run : Run) : Leads program 0 run run
  | step {n : Nat} {run after : Run} {position : Nat} {statement : Statement}
      (next : nextStatement program.statements run.position = some (position, statement))
      (rest : Leads program n (run.dispatch program.labels position statement) after) :
      Leads program (n + 1) run after

variable {program : Program} {n k : Nat} {run after : Run}

/-- What every statement keeps, the whole chain keeps. -/
theorem Leads.preserves {P : Run → Prop}
    (hstep : ∀ run position statement,
      nextStatement program.statements run.position = some (position, statement) → P run →
        P (run.dispatch program.labels position statement))
    (h : Leads program n run after) (hrun : P run) : P after := by
  induction h with
  | refl => exact hrun
  | step next rest ih => exact ih (hstep _ _ _ next hrun)

theorem Leads.steps_eq (h : Leads program n run after) : after.steps = run.steps + n := by
  induction h with
  | refl => rfl
  | step next rest ih =>
    rw [ih]
    simp only [Run.dispatch]
    omega

/-- A statement adds to the log and takes nothing away. -/
theorem Leads.log_isPrefix (h : Leads program n run after) :
    run.log.toList <+: after.log.toList := by
  refine h.preserves (P := fun state => run.log.toList <+: state.log.toList) ?_
    (List.prefix_refl _)
  intro state position statement _ hstate
  rw [Run.toList_log_dispatch]
  exact hstate.trans (List.prefix_append _ _)

theorem advance_of_waiting {position : Nat} {statement : Statement}
    (h : nextStatement program.statements run.position = some (position, statement)) (n : Nat) :
    program.advance (n + 1) run =
      program.advance n (run.dispatch program.labels position statement) := by
  simp [advance, h]

theorem advance_of_ended (h : nextStatement program.statements run.position = none) (n : Nat) :
    program.advance n run = (run, none) := by
  cases n with
  | zero => simp [advance, h]
  | succ n => simp [advance, h]

/-- Statements that have been run count toward the number that may be. -/
theorem Leads.advance_add (h : Leads program k run after) (n : Nat) :
    program.advance (k + n) run = program.advance n after := by
  induction h with
  | refl => rw [Nat.zero_add]
  | @step k run after position statement next rest ih =>
    rw [Nat.add_right_comm, advance_of_waiting next, ih]

theorem Leads.advance_eq (h : Leads program n run after) :
    program.advance n run = (after, nextStatement program.statements after.position) :=
  h.advance_add 0

/-- Running at most so many statements follows a chain: to its full length if a statement is
still waiting, and else to a state in which none is. -/
theorem advance_cases (program : Program) (n : Nat) (run : Run) :
    (∃ after position statement, Leads program n run after ∧
      nextStatement program.statements after.position = some (position, statement) ∧
      program.advance n run = (after, some (position, statement))) ∨
    ∃ k after, k ≤ n ∧ Leads program k run after ∧
      nextStatement program.statements after.position = none ∧
      program.advance n run = (after, none) := by
  induction n generalizing run with
  | zero =>
    cases hnext : nextStatement program.statements run.position with
    | none => exact .inr ⟨0, run, Nat.le_refl 0, .refl run, hnext, advance_of_ended hnext 0⟩
    | some waiting =>
      exact .inl ⟨run, waiting.1, waiting.2, .refl run, hnext, (Leads.refl run).advance_eq.trans
        (by rw [hnext])⟩
  | succ n ih =>
    cases hnext : nextStatement program.statements run.position with
    | none => exact .inr ⟨0, run, Nat.zero_le _, .refl run, hnext, advance_of_ended hnext _⟩
    | some waiting =>
      obtain ⟨position, statement⟩ := waiting
      rw [advance_of_waiting hnext]
      rcases ih (run.dispatch program.labels position statement) with
        ⟨after, position', statement', hleads, hwaiting, hadvance⟩ |
        ⟨k, after, hk, hleads, hended, hadvance⟩
      · exact .inl ⟨after, position', statement', .step hnext hleads, hwaiting, hadvance⟩
      · exact .inr ⟨k + 1, after, by omega, .step hnext hleads, hended, hadvance⟩

theorem toList_log_start (program : Program) (size : Nat) :
    (program.start size).log.toList = program.refused := rfl

def beginning (size : Nat) (source : Text) : Run :=
  if isBlankSource source then emptyRun size else (ofSource size source).start size

theorem beginning_of_not_blank {source : Text} (h : isBlankSource source = false) (size : Nat) :
    beginning size source = (ofSource size source).start size := by
  rw [beginning, if_neg (by rw [h]; exact Bool.false_ne_true)]

theorem steps_beginning (size : Nat) (source : Text) : (beginning size source).steps = 0 := by
  unfold beginning
  split <;> rfl

theorem position_beginning (size : Nat) (source : Text) : (beginning size source).position = 0 := by
  unfold beginning
  split <;> rfl

theorem Leads.steps_of_beginning {size : Nat} {source : Text}
    (h : Leads program n (beginning size source) run) : run.steps = n := by
  rw [h.steps_eq, steps_beginning, Nat.zero_add]

theorem ne_nil_of_isStatement {line : Text} (h : isStatement line = true) : line ≠ [] := by
  rintro rfl
  cases h

theorem eq_nil_of_blank {source line : Text} (h : isBlankSource source = true)
    (hline : line ∈ linesOf source) : line = [] := by
  obtain ⟨piece, hpiece, rfl⟩ := List.mem_map.1 hline
  exact trim_of_mem_splitLines (List.isEmpty_iff.1 h) hpiece

theorem isBlankSource_of_getElem? {source line : Text} {i : Nat}
    (h : (linesOf source)[i]? = some line) (hline : line ≠ []) : isBlankSource source = false := by
  refine Bool.eq_false_iff.2 fun hblank => hline ?_
  exact eq_nil_of_blank hblank (List.mem_of_getElem? h)

/-- A source that holds nothing but blanks has no statement. -/
theorem nextStatement_of_blank {size : Nat} {source : Text} (h : isBlankSource source = true)
    (start : Nat) : nextStatement (ofSource size source).statements start = none := by
  cases hnext : nextStatement (ofSource size source).statements start with
  | none => rfl
  | some waiting =>
    obtain ⟨position, statement⟩ := waiting
    obtain ⟨line, hfirst, -⟩ := nextStatement_ofLines_iff.1 hnext
    have hnil := eq_nil_of_blank h (List.mem_of_getElem? hfirst.line_eq)
    exact absurd hnil (ne_nil_of_isStatement hfirst.isStatement)

/-- The state in which a run is left when it may not go on, with the statement that waits there. -/
def cutOff (budget : Nat) : Run × Option (Nat × Statement) → Run
  | (run, none) => run
  | (run, some (position, statement)) =>
    { run with
      log := run.log.push ((Fault.stepLimit budget).finding.at (position + 1) statement.line) }

theorem executeWithin_eq (size budget : Nat) (source : Text) :
    executeWithin size budget source =
      cutOff budget ((ofSource size source).advance budget (beginning size source)) := by
  unfold executeWithin beginning
  split
  · rename_i hblank
    rw [advance_of_ended (nextStatement_of_blank hblank _)]
    rfl
  · rfl

/-- The state in which a run has ended, if no statement waits there. -/
def ended? : Run × Option (Nat × Statement) → Option Run
  | (run, none) => some run
  | (_, some _) => none

theorem executeToEnd?_eq (size patience : Nat) (source : Text) :
    executeToEnd? size patience source =
      ended? ((ofSource size source).advance patience (beginning size source)) := by
  unfold executeToEnd? beginning
  split
  · rename_i hblank
    rw [advance_of_ended (nextStatement_of_blank hblank _)]
    rfl
  · rfl

end Program

end Brushwork
