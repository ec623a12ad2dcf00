import Brushwork.Proofs.Program.Isolation

/-!
# Programs that only jump forward

If what a jump names is declared below it or nowhere, the run goes down the program. Every
statement that is run leaves fewer statements below, so the run ends even without a budget, and
it has run each statement at most once, in the order of the lines. Without jumps it runs them
all.
-/

namespace Brushwork.Program

/-- What a jump names is declared below it or nowhere. -/
def JumpsForward (lines : List Text) : Prop :=
  ∀ position line label condition, lines[position]? = some line → isStatement line = true →
    Command.jumpParts? line = some (label, condition) →
      ∀ target, FirstDeclaration lines label target → position < target

instance (lines : List Text) : Decidable (JumpsForward lines) :=
  decidable_of_iff (∀ entry ∈ lines.zipIdx, isStatement entry.1 = true →
    ∀ parts ∈ Command.jumpParts? entry.1,
      ∀ target ∈ (ofLines 0 lines).labels.resolve? parts.1, entry.2 < target) <| by
    constructor
    · intro h position line label condition hline hstatement hparts target hfirst
      exact h (line, position) (List.mem_zipIdx_iff_getElem?.2 hline) hstatement _ hparts target
        (resolve?_labels_iff.2 hfirst)
    · intro h entry hentry hstatement parts hparts target htarget
      exact h entry.2 entry.1 _ _ (List.mem_zipIdx_iff_getElem?.1 hentry) hstatement hparts target
        (resolve?_labels_iff.1 htarget)

/-- How many lines from a position on are to be run. -/
def statementsFrom (lines : List Text) (start : Nat) : Nat :=
  (lines.drop start).countP isStatement

section Counting

variable {lines : List Text} {start position : Nat} {line : Text}

theorem statementsFrom_anti (lines : List Text) {start stop : Nat} (h : start ≤ stop) :
    statementsFrom lines stop ≤ statementsFrom lines start :=
  (List.drop_sublist_drop_left lines h).countP_le

/-- Behind the first line that is to be run, one less is left. -/
theorem statementsFrom_of_first (h : FirstStatement lines start position line) :
    statementsFrom lines start = statementsFrom lines (position + 1) + 1 := by
  obtain ⟨skip, rfl⟩ := Nat.exists_eq_add_of_le h.le
  have hskipped : ((lines.drop start).take skip).countP isStatement = 0 := by
    refine List.countP_eq_zero.2 fun other hother => ?_
    obtain ⟨i, hget⟩ := List.mem_iff_getElem?.1 hother
    rw [List.getElem?_take, List.getElem?_drop] at hget
    obtain ⟨hi, hget⟩ := Option.ite_none_right_eq_some.1 hget
    rw [h.skipped (start + i) (by omega) (by omega) other hget]
    exact Bool.false_ne_true
  have hrest : (lines.drop start).drop skip = line :: lines.drop (start + skip + 1) := by
    obtain ⟨hlt, hget⟩ := List.getElem?_eq_some_iff.1 h.line_eq
    rw [List.drop_drop, List.drop_eq_getElem_cons hlt, hget]
  rw [statementsFrom, ← List.take_append_drop skip (lines.drop start), List.countP_append, hskipped,
    hrest, List.countP_cons_of_pos h.isStatement, Nat.zero_add, statementsFrom]

end Counting

section Running

variable {size n : Nat} {lines : List Text} {run after : Run}

/-- After a jump that leads forward, and after any other statement, the run goes on below. -/
theorem JumpsForward.lt_position_dispatch (h : JumpsForward lines) {position : Nat} {line : Text}
    (hline : lines[position]? = some line) (hstatement : isStatement line = true) (size : Nat)
    (run : Run) :
    position < (run.dispatch (ofLines size lines).labels position
      (.ofLine (ofLines size lines).labels size line)).position := by
  rw [Run.position_dispatch]
  cases hkind : Command.Kind.ofLine? line with
  | none =>
    rw [Step.ofStatement_of_unrecognized hkind]
    exact Nat.lt_succ_self position
  | some kind =>
    rw [Step.position_of_kind hkind]
    split
    · rename_i target hjump
      obtain ⟨-, label, condition, hparts, htarget⟩ := Command.process_eq_jump hjump
      exact h position line label condition hline hstatement hparts target
        (resolve?_labels_iff.1 htarget)
    · exact Nat.lt_succ_self position

/-- Every statement that is run is one less below. -/
theorem Leads.add_statementsFrom_le (h : JumpsForward lines)
    (hleads : Leads (ofLines size lines) n run after) :
    n + statementsFrom lines after.position ≤ statementsFrom lines run.position := by
  induction hleads with
  | refl run => exact (Nat.zero_add _).le
  | @step n run after position statement next rest ih =>
    obtain ⟨line, hfirst, rfl⟩ := nextStatement_ofLines_iff.1 next
    have hbelow := h.lt_position_dispatch hfirst.line_eq hfirst.isStatement size run
    have hanti : _ ≤ statementsFrom lines (position + 1) := statementsFrom_anti lines hbelow
    have hcount := statementsFrom_of_first hfirst
    omega

/-- Without jumps no statement is passed over. -/
theorem Leads.add_statementsFrom_eq
    (h : ∀ line ∈ lines, isStatement line = true → Command.Kind.ofLine? line ≠ some .goTo)
    (hleads : Leads (ofLines size lines) n run after) :
    n + statementsFrom lines after.position = statementsFrom lines run.position := by
  induction hleads with
  | refl run => exact Nat.zero_add _
  | @step n run after position statement next rest ih =>
    obtain ⟨line, hfirst, rfl⟩ := nextStatement_ofLines_iff.1 next
    have hstraight := h line (List.mem_of_getElem? hfirst.line_eq) hfirst.isStatement
    rw [Run.position_dispatch_of_not_goTo hstraight] at ih
    have hcount := statementsFrom_of_first hfirst
    omega

theorem statementsFrom_of_ended (h : nextStatement (ofLines size lines).statements n = none) :
    statementsFrom lines n = 0 := by
  refine List.countP_eq_zero.2 fun line hline hstatement => ?_
  obtain ⟨i, hget⟩ := List.mem_iff_getElem?.1 hline
  rw [List.getElem?_drop] at hget
  have hwaits : (ofLines size lines).statements[n + i]? =
      some (some (.ofLine (ofLines size lines).labels size line)) := by
    rw [getElem?_statements, hget, Option.map_some,
      statementOf?_eq_some_iff.2 ⟨hstatement, rfl⟩]
  exact nextStatement_ne_none (Nat.le_add_right n i) hwaits h

/-- The run goes down the program. -/
theorem Leads.pairwise_trace (h : JumpsForward lines)
    (hleads : Leads (ofLines size lines) n run after) :
    ((ofLines size lines).trace n run).Pairwise (· < ·) ∧
      ∀ position ∈ (ofLines size lines).trace n run, run.position ≤ position := by
  induction hleads with
  | refl run => exact ⟨List.Pairwise.nil, nofun⟩
  | @step n run after position statement next rest ih =>
    obtain ⟨line, hfirst, rfl⟩ := nextStatement_ofLines_iff.1 next
    have hbelow := h.lt_position_dispatch hfirst.line_eq hfirst.isStatement size run
    have hle := hfirst.le
    obtain ⟨hsorted, hafter⟩ := ih
    rw [trace_of_waiting next]
    refine ⟨List.pairwise_cons.2 ⟨fun other hother => ?_, hsorted⟩,
      List.forall_mem_cons.2 ⟨hle, fun other hother => ?_⟩⟩
    · exact hbelow.trans_le (hafter other hother)
    · have := hafter other hother
      omega

/-- Only lines that are to be run are run. -/
theorem exists_of_mem_trace {position : Nat}
    (h : position ∈ (ofLines size lines).trace n run) :
    ∃ line, lines[position]? = some line ∧ isStatement line = true := by
  induction n generalizing run with
  | zero => cases h
  | succ n ih =>
    cases hnext : nextStatement (ofLines size lines).statements run.position with
    | none =>
      rw [trace, hnext] at h
      cases h
    | some waiting =>
      obtain ⟨line, hfirst, -⟩ := nextStatement_ofLines_iff.1 hnext
      rw [trace_of_waiting hnext] at h
      rcases List.mem_cons.1 h with rfl | h
      · exact ⟨line, hfirst.line_eq, hfirst.isStatement⟩
      · exact ih h

/-- A run that only goes down the program ends, after at most as many statements as are left. -/
theorem exists_leads_of_jumpsForward (h : JumpsForward lines) (size : Nat) (run : Run) :
    ∃ n last, n ≤ statementsFrom lines run.position ∧ Leads (ofLines size lines) n run last ∧
      nextStatement (ofLines size lines).statements last.position = none := by
  rcases advance_cases (ofLines size lines) (statementsFrom lines run.position) run with
    ⟨last, position, statement, hleads, hnext, -⟩ | ⟨n, last, hn, hleads, hended, -⟩
  · obtain ⟨line, hfirst, -⟩ := nextStatement_ofLines_iff.1 hnext
    have hcount := statementsFrom_of_first hfirst
    have hle := hleads.add_statementsFrom_le h
    omega
  · exact ⟨n, last, hn, hleads, hended⟩

end Running

/-- If what each jump of a source names is declared below it or nowhere, the run ends without a
budget on every machine that is not stopped in it. It has run lines that are to be run, each at most
once and in their order, so it takes no more statements than the source has. If no line that is to
be run is a jump, it takes as many. -/
theorem forward_programs_halt (size : Nat) {source : Text} (h : JumpsForward (linesOf source)) :
    ∃ run, (∀ machine patience, run.steps ≤ patience →
        executeOn machine ⟨size, none⟩ patience source =
          if stops machine size source run.steps then none else some run) ∧
      let positions := (ofSource size source).trace run.steps (beginning size source)
      positions.length = run.steps ∧ positions.Pairwise (· < ·) ∧
      (∀ position ∈ positions,
        ∃ line, (linesOf source)[position]? = some line ∧ isStatement line = true) ∧
      run.steps ≤ (linesOf source).countP isStatement ∧
      ((∀ line ∈ linesOf source, isStatement line = true →
          Command.Kind.ofLine? line ≠ some .goTo) →
        run.steps = (linesOf source).countP isStatement) := by
  have hstart : statementsFrom (linesOf source) (beginning size source).position =
      (linesOf source).countP isStatement := by
    rw [position_beginning, statementsFrom, List.drop_zero]
  obtain ⟨n, last, hn, hleads, hended⟩ :=
    exists_leads_of_jumpsForward h size (beginning size source)
  obtain rfl : last.steps = n := hleads.steps_of_beginning
  refine ⟨last, fun machine patience hpatience => ?_, hleads.length_trace,
    (hleads.pairwise_trace h).1, fun position => exists_of_mem_trace, hstart ▸ hn,
    fun hstraight => ?_⟩
  · exact executeOn_of_leads machine hleads hended hpatience
  · have hcount := hleads.add_statementsFrom_eq hstraight
    rwa [statementsFrom_of_ended hended, hstart] at hcount

/-- One jump leads over a line to the first declaration of its label, the other one nowhere. -/
theorem forward_programs_halt_skipping :
    let source := "GoTo [b] (true)\nx <- 1\nb:\nGoTo [a] (true)\nFly()\nb".toList
    JumpsForward (linesOf source) ∧ ∃ run,
      executeOn .wrapping ⟨10, none⟩ 4 source = some run ∧
      run.steps = 3 ∧ (linesOf source).countP isStatement = 4 ∧
      (ofSource 10 source).trace 3 (beginning 10 source) = [0, 3, 4] := by
  intro source
  have hforward : JumpsForward (linesOf source) := by decide +kernel
  have hcount : (linesOf source).countP isStatement = 4 := by decide +kernel
  obtain ⟨run, hrun, -, -, -, hle, -⟩ := forward_programs_halt 10 hforward
  have hfour : executeOn .wrapping ⟨10, none⟩ 4 source = some run :=
    hrun .wrapping 4 (hcount ▸ hle)
  have hsteps : (executeOn .wrapping ⟨10, none⟩ 4 source).map Run.steps = some 3 := by
    decide +kernel
  rw [hfour] at hsteps
  exact ⟨hforward, run, hfour, Option.some.inj hsteps, hcount, by decide +kernel⟩

end Brushwork.Program
