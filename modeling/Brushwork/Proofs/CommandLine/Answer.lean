import Brushwork.CommandLine.Answer
import Brushwork.Proofs.CommandLine.Directory

/-!
# What a command line leaves behind

A command line is refused for its words, for its input, for its side length or for its
output, and then it prints nothing and changes no file. Otherwise a check changes no
file, and a run changes at most the file that its output leads to, which holds the
pixmap of the canvas afterwards. The exit code tells whether there was anything to
report; how it is reported makes no difference to it.
-/

namespace Brushwork.CommandLine

section Plans

variable {read : Text → Except FileFault Text} {words : List Text} {found : Plan}

theorem mapError_eq_ok_iff {ε ε' α : Type} {x : Except ε α} {f : ε → ε'} {a : α} :
    x.mapError f = .ok a ↔ x = .ok a := by
  cases x with
  | error e => exact ⟨fun h => (nomatch h), fun h => (nomatch h)⟩
  | ok a' => exact ⟨fun h => congrArg _ (Except.ok.inj h), fun h => congrArg _ (Except.ok.inj h)⟩

theorem runSource_eq_ok_iff {size maxSteps : Nat} {source : Text} {run : Run} :
    runSource size maxSteps source = .ok run ↔
      (leastCanvasSize ≤ size ∧ size ≤ greatestCanvasSize) ∧
        run = Program.executeWithin size maxSteps source := by
  rw [runSource, bind_eq_ok_iff, ← checkCanvasSize_eq_ok_iff]
  constructor
  · rintro ⟨_, hsize, hrun⟩
    exact ⟨mapError_eq_ok_iff.1 hsize, (Except.ok.inj hrun).symm⟩
  · rintro ⟨hsize, rfl⟩
    exact ⟨(), mapError_eq_ok_iff.2 hsize, rfl⟩

theorem plan_run_eq_ok_iff {request : RunRequest}
    (h : Invocation.read? words = some (.run request)) :
    plan read words = .ok found ↔ ∃ source, read request.input = .ok source ∧
      (leastCanvasSize ≤ request.size ∧ request.size ≤ greatestCanvasSize) ∧
      found = runPlan request (Program.executeWithin request.size request.maxSteps source) := by
  rw [plan, h]
  dsimp only
  rw [bind_eq_ok_iff]
  refine exists_congr fun source => ?_
  rw [readInput, mapError_eq_ok_iff, bind_eq_ok_iff]
  refine and_congr_right fun _ => ?_
  constructor
  · rintro ⟨run, hrun, hfound⟩
    obtain ⟨hsize, rfl⟩ := runSource_eq_ok_iff.1 hrun
    exact ⟨hsize, (Except.ok.inj hfound).symm⟩
  · rintro ⟨hsize, rfl⟩
    exact ⟨_, runSource_eq_ok_iff.2 ⟨hsize, rfl⟩, rfl⟩

/-- A machine is stopped only in a run that the command line asks for and that begins. -/
theorem stops_iff {machine : Machine} :
    stops machine read words = true ↔ ∃ request source,
      Invocation.read? words = some (.run request) ∧ read request.input = .ok source ∧
      (leastCanvasSize ≤ request.size ∧ request.size ≤ greatestCanvasSize) ∧
      Program.stops machine request.size source
        (Program.executeWithin request.size request.maxSteps source).steps = true := by
  unfold stops
  constructor
  · intro h
    split at h
    · rename_i request hread
      split at h
      · cases h
      · rename_i source hinput
        split at h
        · cases h
        · rename_i run hrun
          obtain ⟨hsize, rfl⟩ := runSource_eq_ok_iff.1 hrun
          exact ⟨request, source, hread, mapError_eq_ok_iff.1 hinput, hsize, h⟩
    · cases h
  · rintro ⟨request, source, hread, hinput, hsize, hstops⟩
    rw [hread]
    simp only [readInput, mapError_eq_ok_iff.2 hinput, runSource_eq_ok_iff.2 ⟨hsize, rfl⟩, hstops]

/-- A source is checked exactly if the side length is between the limits. -/
theorem exists_check_iff (size : Nat) (source : Text) :
    (∃ ds, Program.check { canvasSize := size } source = .ok ds) ↔
      leastCanvasSize ≤ size ∧ size ≤ greatestCanvasSize := by
  rw [← checkCanvasSize_eq_ok_iff, Program.check]
  constructor
  · rintro ⟨ds, hds⟩
    obtain ⟨_, hsize, -⟩ := bind_eq_ok_iff.1 hds
    exact hsize
  · intro hsize
    rw [Config.validate, hsize, ok_bind]
    split
    · exact ⟨_, rfl⟩
    · exact ⟨_, rfl⟩

theorem plan_check_eq_ok_iff {request : CheckRequest}
    (h : Invocation.read? words = some (.check request)) :
    plan read words = .ok found ↔ ∃ source ds, read request.input = .ok source ∧
      Program.check { canvasSize := request.size } source = .ok ds ∧
      found = checkPlan request ds := by
  rw [plan, h]
  dsimp only
  rw [bind_eq_ok_iff]
  refine exists_congr fun source => ?_
  rw [readInput, mapError_eq_ok_iff, bind_eq_ok_iff]
  constructor
  · rintro ⟨hread, ds, hds, hfound⟩
    exact ⟨ds, hread, mapError_eq_ok_iff.1 hds, (Except.ok.inj hfound).symm⟩
  · rintro ⟨ds, hread, hds, rfl⟩
    exact ⟨hread, ds, mapError_eq_ok_iff.2 hds, rfl⟩

end Plans

section Refusals

variable {directory : Directory} {words : List Text}

/-- The input and the side length of the command lines that have them. -/
def Invocation.source? : Invocation → Option (Text × Nat)
  | .run request => some (request.input, request.size)
  | .check request => some (request.input, request.size)
  | .colors | .version => none

/-- What a command line can be refused for: it cannot be read, its input cannot, its side length is
not between the limits, or its output cannot be written. -/
inductive Refused (directory : Directory) (words : List Text) : Prop where
  | words (h : Invocation.read? words = none)
  | input {invocation : Invocation} {path : Text} {size : Nat} {fault : FileFault}
      (h : Invocation.read? words = some invocation)
      (source : invocation.source? = some (path, size))
      (unreadable : directory.read path = .error fault)
  | size {invocation : Invocation} {path : Text} {size : Nat}
      (h : Invocation.read? words = some invocation)
      (source : invocation.source? = some (path, size))
      (outside : ¬ (leastCanvasSize ≤ size ∧ size ≤ greatestCanvasSize))
  | output {request : RunRequest} {path text : Text} {fault : FileFault}
      (h : Invocation.read? words = some (.run request))
      (output : request.output = some path)
      (unwritable : directory.write path text = .error fault)

theorem refused_of_plan {refusal : Refusal} (h : plan directory.read words = .error refusal) :
    Refused directory words := by
  cases hread : Invocation.read? words with
  | none => exact .words hread
  | some invocation =>
    cases invocation with
    | colors | version =>
      rw [plan, hread] at h
      cases h
    | run request =>
      cases hinput : directory.read request.input with
      | error fault => exact .input hread rfl hinput
      | ok source =>
        refine .size hread rfl fun hsize => ?_
        rw [(plan_run_eq_ok_iff hread).2 ⟨source, hinput, hsize, rfl⟩] at h
        cases h
    | check request =>
      cases hinput : directory.read request.input with
      | error fault => exact .input hread rfl hinput
      | ok source =>
        refine .size hread rfl fun hsize => ?_
        obtain ⟨ds, hds⟩ := (exists_check_iff request.size source).2 hsize
        rw [(plan_check_eq_ok_iff hread).2 ⟨source, ds, hinput, hds, rfl⟩] at h
        cases h

/-- A plan has the directory `after` left behind. -/
def Plan.Leaves (found : Plan) (directory after : Directory) : Prop :=
  match found.file with
  | none => after = directory
  | some (path, text) => directory.write path text = .ok after

variable {found : Plan} {after : Directory}

theorem leaves_runPlan_iff {request : RunRequest} {run : Run} :
    (runPlan request run).Leaves directory after ↔
      match request.output with
      | none => after = directory
      | some path => directory.write path (Picture.ppm run.scene.agent.canvas) = .ok after := by
  unfold Plan.Leaves runPlan
  cases request.output <;> rfl

/-- A plan is made only where the input can be read and the side length is between the limits. -/
theorem source_of_plan {invocation : Invocation} {path : Text} {size : Nat}
    (h : plan directory.read words = .ok found) (hread : Invocation.read? words = some invocation)
    (hsource : invocation.source? = some (path, size)) :
    (∃ source, directory.read path = .ok source) ∧
      leastCanvasSize ≤ size ∧ size ≤ greatestCanvasSize := by
  cases invocation with
  | colors | version => cases hsource
  | run request =>
    cases hsource
    obtain ⟨source, hinput, hsize, -⟩ := (plan_run_eq_ok_iff hread).1 h
    exact ⟨⟨source, hinput⟩, hsize⟩
  | check request =>
    cases hsource
    obtain ⟨source, ds, hinput, hds, -⟩ := (plan_check_eq_ok_iff hread).1 h
    exact ⟨⟨source, hinput⟩, (exists_check_iff _ source).1 ⟨ds, hds⟩⟩

/-- A plan is made and carried out for no command line that is refused. -/
theorem not_refused_of_plan (h : plan directory.read words = .ok found)
    (hleaves : found.Leaves directory after) : ¬ Refused directory words := by
  intro hrefused
  cases hrefused with
  | words hread =>
    rw [plan, hread] at h
    cases h
  | input hread hsource hunreadable =>
    obtain ⟨source, hreadable⟩ := (source_of_plan h hread hsource).1
    rw [hunreadable] at hreadable
    cases hreadable
  | size hread hsource houtside => exact houtside (source_of_plan h hread hsource).2
  | output hread houtput hunwritable =>
    obtain ⟨source, -, -, rfl⟩ := (plan_run_eq_ok_iff hread).1 h
    rw [leaves_runPlan_iff, houtput] at hleaves
    cases (Directory.write_eq_error hunwritable _).symm.trans hleaves

/-- Only runs write files. -/
theorem exists_output_of_file {path text : Text} (h : plan directory.read words = .ok found)
    (hfile : found.file = some (path, text)) :
    ∃ request, Invocation.read? words = some (.run request) ∧ request.output = some path := by
  cases hread : Invocation.read? words with
  | none =>
    rw [plan, hread] at h
    cases h
  | some invocation =>
    cases invocation with
    | colors | version =>
      rw [plan, hread] at h
      cases h
      cases hfile
    | run request =>
      obtain ⟨source, -, -, rfl⟩ := (plan_run_eq_ok_iff hread).1 h
      obtain ⟨output, houtput, heq⟩ := Option.map_eq_some_iff.1 hfile
      cases heq
      exact ⟨request, rfl, houtput⟩
    | check request =>
      obtain ⟨source, ds, -, -, rfl⟩ := (plan_check_eq_ok_iff hread).1 h
      cases hfile

/-- A command line is refused and leaves no trace, or its plan is carried out. -/
theorem perform_cases (directory : Directory) (words : List Text) :
    (Refused directory words ∧
      ∃ refusal : Refusal, perform directory words = (refusal.answer, directory)) ∨
    ¬ Refused directory words ∧
      ∃ found after, plan directory.read words = .ok found ∧ found.Leaves directory after ∧
        perform directory words = (found.answer, after) := by
  unfold perform
  cases hplan : plan directory.read words with
  | error refusal => exact .inl ⟨refused_of_plan hplan, refusal, rfl⟩
  | ok found =>
    dsimp only
    cases hfile : found.file with
    | none =>
      have hleaves : found.Leaves directory directory := by rw [Plan.Leaves, hfile]
      exact .inr ⟨not_refused_of_plan hplan hleaves, found, directory, rfl, hleaves, rfl⟩
    | some file =>
      obtain ⟨path, text⟩ := file
      dsimp only
      cases hwrite : directory.write path text with
      | error fault =>
        obtain ⟨request, hread, houtput⟩ := exists_output_of_file hplan hfile
        exact .inl ⟨.output hread houtput hwrite, _, rfl⟩
      | ok after =>
        have hleaves : found.Leaves directory after := by rw [Plan.Leaves, hfile]; exact hwrite
        exact .inr ⟨not_refused_of_plan hplan hleaves, found, after, rfl, hleaves, rfl⟩

end Refusals

/-- What a run of the command line answers and leaves behind. -/
structure RunAnswered (directory : Directory) (request : RunRequest) (source : Text)
    (answer : Answer) (after : Directory) : Prop where
  input : directory.read request.input = .ok source
  exitCode : answer.exitCode =
    if (Program.executeWithin request.size request.maxSteps source).success then 0 else 1
  /-- Without an output no file is touched. -/
  untouched : request.output = none → after = directory
  written : ∀ path, request.output = some path →
    directory.write path (Picture.ppm
      (Program.executeWithin request.size request.maxSteps source).scene.agent.canvas) = .ok after
  /-- No file is changed but the one that the output leads to, which holds the pixmap. -/
  files : ∀ name, after.contents? name =
    if (request.output.bind fun path => (Place.ofPath path).file?) = some name then
      some (String.ofList (Picture.ppm
        (Program.executeWithin request.size request.maxSteps source).scene.agent.canvas)).toUTF8
    else directory.contents? name

/-- What a check of the command line answers and leaves behind. -/
structure CheckAnswered (directory : Directory) (request : CheckRequest) (source : Text)
    (ds : List Diagnostic) (answer : Answer) (after : Directory) : Prop where
  input : directory.read request.input = .ok source
  checked : Program.check { canvasSize := request.size } source = .ok ds
  exitCode : answer.exitCode = if ds = [] then 0 else 1
  untouched : after = directory

section Answers

variable {directory : Directory} {words : List Text}

theorem exitCode_eq_two_iff :
    (perform directory words).1.exitCode = 2 ↔ Refused directory words := by
  rcases perform_cases directory words with
    ⟨hrefused, refusal, hperform⟩ | ⟨hnot, found, after, -, -, hperform⟩
  · rw [hperform]
    exact iff_of_true rfl hrefused
  · rw [hperform]
    refine iff_of_false ?_ hnot
    change (if found.success then 0 else 1) ≠ 2
    split <;> decide

theorem runAnswered_of_not_refused {request : RunRequest}
    (h : Invocation.read? words = some (.run request)) (hnot : ¬ Refused directory words) :
    ∃ source, RunAnswered directory request source (perform directory words).1
      (perform directory words).2 := by
  rcases perform_cases directory words with
    ⟨hrefused, -⟩ | ⟨-, found, after, hplan, hleaves, hperform⟩
  · exact absurd hrefused hnot
  · obtain ⟨source, hinput, -, rfl⟩ := (plan_run_eq_ok_iff h).1 hplan
    rw [leaves_runPlan_iff] at hleaves
    rw [hperform]
    refine ⟨source, hinput, rfl, fun hnone => ?_, fun path hpath => ?_, fun name => ?_⟩
    · rwa [hnone] at hleaves
    · rwa [hpath] at hleaves
    · cases houtput : request.output with
      | none =>
        rw [houtput] at hleaves
        rw [hleaves]
        rfl
      | some path =>
        rw [houtput] at hleaves
        exact Directory.contents?_write hleaves name

theorem checkAnswered_of_not_refused {request : CheckRequest}
    (h : Invocation.read? words = some (.check request)) (hnot : ¬ Refused directory words) :
    ∃ source ds, CheckAnswered directory request source ds (perform directory words).1
      (perform directory words).2 := by
  rcases perform_cases directory words with
    ⟨hrefused, -⟩ | ⟨-, found, after, hplan, hleaves, hperform⟩
  · exact absurd hrefused hnot
  · obtain ⟨source, ds, hinput, hds, rfl⟩ := (plan_check_eq_ok_iff h).1 hplan
    rw [hperform]
    refine ⟨source, ds, hinput, hds, ?_, hleaves⟩
    cases ds <;> rfl

end Answers

/-- A command line has the same answer on every machine, but for a machine that traps and is stopped
in the run that is asked for: there is no answer then. It ends with the exit code 2 exactly if it is
refused, and then nothing is printed and no file is changed. Any other check changes no file and
ends with 0 exactly if it finds nothing; any other run changes at most its output, which holds the
pixmap of the canvas, and ends with 0 exactly if it succeeds, however it is reported. -/
theorem refusals_leave_no_trace (directory : Directory) (words : List Text) :
    let answer := (perform directory words).1
    let after := (perform directory words).2
    (∀ machine, performOn machine directory words =
      if stops machine directory.read words then none else some (answer, after)) ∧
    (∀ machine, stops machine directory.read words = true ↔ ∃ request source,
      Invocation.read? words = some (.run request) ∧ directory.read request.input = .ok source ∧
      (leastCanvasSize ≤ request.size ∧ request.size ≤ greatestCanvasSize) ∧
      Program.stops machine request.size source
        (Program.executeWithin request.size request.maxSteps source).steps = true) ∧
    (answer.exitCode = 2 ↔ Refused directory words) ∧
    (answer.exitCode = 2 → answer.printed = "" ∧ after = directory) ∧
    (answer.exitCode ≠ 2 →
      (∀ request, Invocation.read? words = some (.check request) →
        ∃ source ds, CheckAnswered directory request source ds answer after) ∧
      ∀ request, Invocation.read? words = some (.run request) →
        (∃ source, RunAnswered directory request source answer after) ∧
        ∀ words' request', Invocation.read? words' = some (.run request') →
          request'.input = request.input → request'.size = request.size →
          request'.maxSteps = request.maxSteps → (perform directory words').1.exitCode ≠ 2 →
            (perform directory words').1.exitCode = answer.exitCode) := by
  intro answer after
  refine ⟨fun _ => rfl, fun _ => stops_iff, exitCode_eq_two_iff, fun h => ?_,
    fun h => ⟨fun request hread => ?_, fun request hread => ⟨?_, ?_⟩⟩⟩
  · rcases perform_cases directory words with ⟨-, refusal, hperform⟩ | ⟨hnot, -⟩
    · change (perform directory words).1.printed = "" ∧ (perform directory words).2 = directory
      rw [hperform]
      exact ⟨rfl, rfl⟩
    · exact absurd (exitCode_eq_two_iff.1 h) hnot
  · exact checkAnswered_of_not_refused hread fun hrefused => h (exitCode_eq_two_iff.2 hrefused)
  · exact runAnswered_of_not_refused hread fun hrefused => h (exitCode_eq_two_iff.2 hrefused)
  · intro words' request' hread' hinput hsize hsteps h'
    obtain ⟨source, hrun⟩ := runAnswered_of_not_refused hread fun hrefused =>
      h (exitCode_eq_two_iff.2 hrefused)
    obtain ⟨source', hrun'⟩ := runAnswered_of_not_refused hread' fun hrefused =>
      h' (exitCode_eq_two_iff.2 hrefused)
    have hsource := hrun'.input
    rw [hinput, hrun.input] at hsource
    obtain rfl : source = source' := Except.ok.inj hsource
    rw [hrun'.exitCode, hsize, hsteps]
    exact hrun.exitCode.symm

end Brushwork.CommandLine
