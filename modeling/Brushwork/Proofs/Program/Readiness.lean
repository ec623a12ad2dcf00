import Brushwork.Proofs.Program.Reporting

/-!
# Drawing before the agent is on the canvas

Whether the agent has been put on the canvas is a fact about the past of a run: some
statement before was a spawn that was not refused. No other command sets this, and no
command takes it back. So a drawing command is reported as too early exactly as long as
no spawn has succeeded, and nothing else is reported in these words.
-/

namespace Brushwork

section Spawning

/-- A line is a spawn that is not refused. -/
def Command.Spawns (labels : Labels) (scene : Scene) (line : Text) : Prop :=
  Kind.ofLine? line = some .spawn ∧
    ∃ outcome, (process labels scene .spawn line).2 = .ok outcome

/-- Of all commands a spawn alone puts the agent on the canvas, and none takes it away again. -/
theorem Command.Kind.Changes.spawned_iff {kind : Command.Kind} {line : Text}
    {before after : Scene} (h : kind.Changes line before after) :
    after.agent.spawned = true ↔ before.agent.spawned = true ∨ kind = .spawn := by
  cases kind with
  | goTo | colorCount =>
    obtain rfl : after = before := h
    simp
  | assign =>
    obtain ⟨_, _, _, -, -, -, hagent, -⟩ := h
    simp [hagent]
  | spawn =>
    obtain ⟨p, -, rfl⟩ := h
    simp
  | color =>
    obtain ⟨color, rfl⟩ := h
    simp
  | size =>
    obtain ⟨brush, -, -, rfl⟩ := h
    simp
  | drawLine | drawCircle | drawRectangle =>
    obtain ⟨position, canvas, -, rfl⟩ := h
    simp
  | fill =>
    obtain ⟨canvas, -, rfl⟩ := h
    simp

variable (labels : Labels) (scene : Scene) (position : Nat) (labels' : Labels) (size : Nat)
  (line : Text)

theorem Step.spawned_ofStatement :
    (ofStatement labels scene position (.ofLine labels' size line)).scene.agent.spawned = true ↔
      scene.agent.spawned = true ∨ Command.Spawns labels scene line := by
  cases hkind : Command.Kind.ofLine? line with
  | none =>
    rw [ofStatement_of_unrecognized hkind]
    simp [Command.Spawns, hkind]
  | some kind =>
    rw [ofStatement_of_kind hkind, scene_ofCommand]
    change (Command.process labels scene kind line).1.agent.spawned = true ↔ _
    cases hresult : (Command.process labels scene kind line).2 with
    | error fault =>
      have hnot : ¬ Command.Spawns labels scene line := by
        rintro ⟨hspawn, outcome, hok⟩
        obtain rfl : kind = .spawn := Option.some.inj (hkind.symm.trans hspawn)
        rw [hresult] at hok
        cases hok
      rw [Command.process_eq_error hresult, or_iff_left hnot]
    | ok outcome =>
      rw [(Command.process_eq_ok hresult).spawned_iff]
      refine or_congr_right ⟨?_, fun hspawns => ?_⟩
      · rintro rfl
        exact ⟨hkind, outcome, hresult⟩
      · exact Option.some.inj (hkind.symm.trans hspawns.1)

end Spawning

section Wording

/-- The finding that a command of a kind comes before the agent is on the canvas. -/
def Inspection.unready (kind : Command.Kind) : Finding :=
  ⟨.runtime, String.ofList kind.keyword ++ " used before Spawn"⟩

/-- Whether a finding has the words of a command that comes too early, of whatever kind. -/
def Finding.tellsUnready (finding : Finding) : Bool :=
  Command.Kind.all.any fun kind => finding = Inspection.unready kind

def Diagnostic.tellsUnready (d : Diagnostic) : Bool :=
  Finding.tellsUnready ⟨d.category, d.message⟩

theorem Finding.tellsUnready_iff (finding : Finding) :
    finding.tellsUnready = true ↔ ∃ kind, finding = Inspection.unready kind := by
  rw [tellsUnready, List.any_eq_true]
  constructor
  · rintro ⟨kind, -, hkind⟩
    exact ⟨kind, of_decide_eq_true hkind⟩
  · rintro ⟨kind, hkind⟩
    exact ⟨kind, Command.Kind.mem_all kind, decide_eq_true hkind⟩

theorem Inspection.IsStatic.not_tellsUnready {finding : Finding} (h : IsStatic finding) :
    finding.tellsUnready = false := by
  refine Bool.eq_false_iff.2 fun htells => ?_
  obtain ⟨kind, rfl⟩ := finding.tellsUnready_iff.1 htells
  exact h.category_ne rfl

/-- Faults are worded in small letters, and keywords begin with none. -/
theorem Fault.not_tellsUnready (fault : Fault) : fault.finding.tellsUnready = false := by
  refine Bool.eq_false_iff.2 fun htells => ?_
  obtain ⟨kind, hkind⟩ := fault.finding.tellsUnready_iff.1 htells
  have hkeyword : ∃ c d rest, kind.keyword = c :: d :: rest ∧ c.isLower = false := by
    cases kind <;> exact ⟨_, _, _, rfl, by decide⟩
  obtain ⟨c, d, rest, hkeyword, hcapital⟩ := hkeyword
  have hsmall := fault.opening_message.1
  have hmessage : fault.message = String.ofList kind.keyword ++ " used before Spawn" :=
    congrArg Finding.message hkind
  rw [hmessage, hkeyword, opening_append, List.head?_cons, Option.any_some, hcapital] at hsmall
  cases hsmall

theorem Step.filter_withFault (findings : List Finding) (fault : Fault) :
    (withFault findings fault).filter Finding.tellsUnready =
      findings.filter Finding.tellsUnready := by
  rw [withFault]
  split
  · rfl
  · rw [List.filter_append, List.filter_cons_of_neg (by simp [fault.not_tellsUnready]),
      List.filter_nil, List.append_nil]

theorem Inspection.filter_static (labels : Labels) (size : Nat) (line : Text) :
    (static labels size line).filter Finding.tellsUnready = [] :=
  List.filter_eq_nil_iff.2 fun _ hmem => by simp [(isStatic_of_mem hmem).not_tellsUnready]

theorem Inspection.filter_kindReadiness (spawned : Bool) (kind : Command.Kind) :
    (kindReadiness spawned kind).filter Finding.tellsUnready = kindReadiness spawned kind := by
  refine List.filter_eq_self.2 fun finding hfinding => ?_
  unfold kindReadiness at hfinding
  split at hfinding
  · exact finding.tellsUnready_iff.2 ⟨kind, List.mem_singleton.1 hfinding⟩
  · cases hfinding

/-- Of what is said when a line is run, nothing but what the inspection of readiness has found is
worded like it. -/
theorem Step.filter_ofStatement (labels : Labels) (scene : Scene) (position : Nat)
    (labels' : Labels) (size : Nat) (line : Text) :
    (ofStatement labels scene position (.ofLine labels' size line)).findings.filter
      Finding.tellsUnready = Inspection.readiness scene.agent.spawned line := by
  rw [Inspection.readiness]
  cases hkind : Command.Kind.ofLine? line with
  | none =>
    rw [ofStatement_of_unrecognized hkind, Statement.staticFindings_ofLine, if_pos hkind,
      List.filter_append, Inspection.filter_static]
    have hcategory : (Statement.unrecognized line).tellsUnready = false := by
      refine Bool.eq_false_iff.2 fun htells => ?_
      obtain ⟨kind, heq⟩ := (Finding.tellsUnready_iff _).1 htells
      cases congrArg Finding.category heq
    simp [hcategory]
  | some kind =>
    rw [ofStatement_of_kind hkind, findings_ofCommand]
    have hfilter : (Inspection.static labels' size line ++
        Inspection.kindReadiness scene.agent.spawned kind).filter Finding.tellsUnready =
          Inspection.kindReadiness scene.agent.spawned kind := by
      rw [List.filter_append, Inspection.filter_static, Inspection.filter_kindReadiness,
        List.nil_append]
    split
    · exact hfilter
    · rw [filter_withFault, hfilter]

theorem Inspection.readiness_eq_nil_iff (spawned : Bool) (line : Text) :
    readiness spawned line = [] ↔
      ¬ ((∃ kind ∈ [Command.Kind.drawLine, .drawCircle, .drawRectangle, .fill],
        Command.Kind.ofLine? line = some kind) ∧ spawned = false) := by
  rw [readiness]
  cases hkind : Command.Kind.ofLine? line with
  | none => simp
  | some kind => cases spawned <;> cases kind <;> simp [kindReadiness, Command.Kind.isDrawing]

theorem Inspection.mem_readiness {spawned : Bool} {line : Text} {finding : Finding}
    (h : finding ∈ readiness spawned line) :
    ∃ kind, Command.Kind.ofLine? line = some kind ∧ finding = unready kind := by
  unfold readiness at h
  split at h
  · rename_i kind hkind
    unfold kindReadiness at h
    split at h
    · exact ⟨kind, hkind, List.mem_singleton.1 h⟩
    · cases h
  · cases h

theorem Inspection.length_readiness_le (spawned : Bool) (line : Text) :
    (readiness spawned line).length ≤ 1 := by
  unfold readiness
  split
  · unfold kindReadiness
    split
    · exact Nat.le_refl 1
    · exact Nat.zero_le 1
  · exact Nat.zero_le 1

end Wording

namespace Program

section History

variable {size n : Nat} {source : Text} {run after : Run}

/-- Within so many statements of a run from a state on, one is a spawn that is not refused. -/
def SpawnsWithin (size : Nat) (source : Text) (run : Run) (n : Nat) : Prop :=
  ∃ m state position line, m < n ∧ Leads (ofSource size source) m run state ∧
    FirstStatement (linesOf source) state.position position line ∧
    Command.Spawns (ofSource size source).labels state.scene line

theorem not_spawnsWithin_zero : ¬ SpawnsWithin size source run 0 := by
  rintro ⟨m, _, _, _, hm, -⟩
  exact Nat.not_lt_zero m hm

theorem spawnsWithin_succ_iff {position : Nat} {line : Text}
    (hfirst : FirstStatement (linesOf source) run.position position line) :
    SpawnsWithin size source run (n + 1) ↔
      Command.Spawns (ofSource size source).labels run.scene line ∨
        SpawnsWithin size source (run.dispatch (ofSource size source).labels position
          (.ofLine (ofSource size source).labels size line)) n := by
  have hnext : nextStatement (ofSource size source).statements run.position = _ :=
    nextStatement_of_first hfirst
  constructor
  · rintro ⟨m, state, position', line', hm, hleads, hfirst', hspawns⟩
    cases hleads with
    | refl =>
      have hsame := (nextStatement_of_first hfirst').symm.trans hnext
      obtain ⟨-, hstatement⟩ := Prod.mk.inj (Option.some.inj hsame)
      obtain rfl : line' = line := congrArg Statement.line hstatement
      exact .inl hspawns
    | step next rest =>
      rw [hnext] at next
      cases next
      exact .inr ⟨_, state, position', line', Nat.lt_of_succ_lt_succ hm, rest, hfirst', hspawns⟩
  · rintro (hspawns | ⟨m, state, position', line', hm, hleads, hstate⟩)
    · exact ⟨0, run, position, line, Nat.succ_pos n, .refl run, hfirst, hspawns⟩
    · exact ⟨m + 1, state, position', line', Nat.succ_lt_succ hm, .step hnext hleads, hstate⟩

/-- The agent is on the canvas exactly if it was there at first or a spawn has put it there. -/
theorem Leads.spawned_iff (h : Leads (ofSource size source) n run after) :
    after.scene.agent.spawned = true ↔
      run.scene.agent.spawned = true ∨ SpawnsWithin size source run n := by
  induction h with
  | refl => simp [not_spawnsWithin_zero]
  | @step n run after position statement next rest ih =>
    obtain ⟨line, hfirst, rfl⟩ := nextStatement_ofLines_iff.1 next
    rw [ih, Run.scene_dispatch]
    exact (or_congr_left (Step.spawned_ofStatement _ _ _ _ _ _)).trans
      (or_assoc.trans (or_congr_right (spawnsWithin_succ_iff hfirst).symm))

theorem spawned_beginning (size : Nat) (source : Text) :
    (beginning size source).scene.agent.spawned = false := by
  unfold beginning
  split <;> rfl

/-- In a run from its beginning the agent is on the canvas exactly if a spawn has put it there. -/
theorem Leads.spawned_iff_spawnsWithin
    (h : Leads (ofSource size source) n (beginning size source) run) :
    run.scene.agent.spawned = true ↔ SpawnsWithin size source (beginning size source) n := by
  rw [h.spawned_iff, spawned_beginning]
  simp

end History

/-- What the inspection of readiness records when a run has come to a line after `n` statements. -/
structure ReadinessRecorded (size : Nat) (source : Text) (n : Nat) (state : Run) (position : Nat)
    (line : Text) (recorded : List Diagnostic) : Prop where
  /-- A drawing command is reported as too early as long as no spawn has succeeded. -/
  early : (∃ d ∈ recorded, d.tellsUnready = true) ↔
    (∃ kind ∈ [Command.Kind.drawLine, .drawCircle, .drawRectangle, .fill],
      Command.Kind.ofLine? line = some kind) ∧
    ¬ SpawnsWithin size source (beginning size source) n
  /-- Each report names the line and the keyword of its kind. -/
  wording : ∀ d ∈ recorded, d.tellsUnready = true → ∃ kind,
    Command.Kind.ofLine? line = some kind ∧
    d = { line := position + 1
          message := String.ofList kind.keyword ++ " used before Spawn"
          category := .runtime
          snippet := line }
  once : recorded.countP (·.tellsUnready) ≤ 1
  /-- All such reports are those of the inspection. -/
  inspected : recorded.filter (·.tellsUnready) =
    (Inspection.readiness state.scene.agent.spawned line).map (·.at (position + 1) line)

theorem ReadinessRecorded.of_inspected {size n : Nat} {source line : Text} {state : Run}
    {position : Nat} {recorded : List Diagnostic}
    (h : Leads (ofSource size source) n (beginning size source) state)
    (hrecorded : recorded.filter (·.tellsUnready) =
      (Inspection.readiness state.scene.agent.spawned line).map (·.at (position + 1) line)) :
    ReadinessRecorded size source n state position line recorded where
  early := by
    have hnone : (¬ ∃ d ∈ recorded, d.tellsUnready = true) ↔
        recorded.filter (·.tellsUnready) = [] := by
      simp
    rw [← h.spawned_iff_spawnsWithin, Bool.not_eq_true, ← not_iff_not, hnone, hrecorded,
      List.map_eq_nil_iff, Inspection.readiness_eq_nil_iff]
  wording d hd htells := by
    have hmem : d ∈ recorded.filter (·.tellsUnready) := List.mem_filter.2 ⟨hd, htells⟩
    rw [hrecorded] at hmem
    obtain ⟨finding, hfinding, rfl⟩ := List.mem_map.1 hmem
    obtain ⟨kind, hkind, rfl⟩ := Inspection.mem_readiness hfinding
    exact ⟨kind, hkind, rfl⟩
  once := by
    rw [List.countP_eq_length_filter, hrecorded, List.length_map]
    exact Inspection.length_readiness_le _ _
  inspected := hrecorded

/-- Whenever a run comes to a line, a drawing command is reported as too early exactly as long as
no spawn has succeeded, once and in these words. A line that is no successful spawn makes no
difference to this, and after a successful spawn nothing is reported so. What is reported of a line
stays in the log of a run that is over, on whatever machine. -/
theorem early_exactly_before_spawn (config : Config) (source : Text) :
    let size := config.canvasSize
    let program := ofSource size source
    let start := beginning size source
    (∀ n state position line, Leads program n start state →
      FirstStatement (linesOf source) state.position position line →
        let after := state.dispatch program.labels position (.ofLine program.labels size line)
        (∃ recorded, after.log.toList = state.log.toList ++ recorded ∧
          ReadinessRecorded size source n state position line recorded) ∧
        (¬ Command.Spawns program.labels state.scene line →
          after.scene.agent.spawned = state.scene.agent.spawned) ∧
        (Command.Spawns program.labels state.scene line → ∀ m later other, n < m →
          Leads program m start later →
            Inspection.readiness later.scene.agent.spawned other = [])) ∧
    ∀ machine patience run, executeOn machine config patience source = some run →
      ∀ n state position line, n < run.steps → Leads program n start state →
        FirstStatement (linesOf source) state.position position line →
          (state.dispatch program.labels position (.ofLine program.labels size line)).log.toList <+:
            run.log.toList := by
  intro size program start
  refine ⟨fun n state position line hleads hfirst => ⟨?_, fun hnot => ?_, ?_⟩, ?_⟩
  · refine ⟨_, Run.toList_log_dispatch _ _ _ _, .of_inspected hleads ?_⟩
    rw [List.filter_map, ← Step.filter_ofStatement]
    rfl
  · have hspawned := Step.spawned_ofStatement program.labels state.scene position program.labels
      size line
    rw [or_iff_left hnot] at hspawned
    exact Bool.eq_iff_iff.2 hspawned
  · intro hspawns m later other hm hlater
    have hwithin : SpawnsWithin size source start m :=
      ⟨n, state, position, line, hm, hleads, hfirst, hspawns⟩
    rw [Inspection.readiness_eq_nil_iff, hlater.spawned_iff_spawnsWithin.2 hwithin]
    simp
  · intro machine patience run hrun n state position line hn hleads hfirst
    obtain ⟨last, hlast, hlog⟩ := exists_leads_steps (execute_of_executeOn hrun)
    exact (hleads.log_dispatch_isPrefix (nextStatement_of_first hfirst) hlast hn).trans hlog

end Program

end Brushwork
