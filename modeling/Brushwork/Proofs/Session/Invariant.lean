import Brushwork.Session
import Brushwork.Proofs.Command.Frame
import Brushwork.Proofs.Program.Budget

/-!
# What always holds in a session

The side length of the canvas stays between its limits, the canvas has a cell for
every place and none is transparent, the brush is odd, and variables have names that
are free for them. Each command keeps this, so each statement of a run does, and so
does whatever a session is asked to do. A run starts afresh: what a session has done
before makes no difference to it.
-/

namespace Brushwork

/-- A canvas of the given side length with a color in every cell. -/
structure Canvas.Valid (size : Nat) (canvas : Canvas) : Prop where
  size_eq : canvas.size = size
  pixels : canvas.pixels.size = size * size
  colored : Color.transparent ∉ canvas.pixels

theorem Canvas.valid_blank (size : Nat) {background : Color} (h : background ≠ .transparent) :
    (blank size background).Valid size where
  size_eq := rfl
  pixels := Array.size_replicate
  colored := by simp [blank, h.symm]

theorem Canvas.Painted.valid {color : Color} {before after : Canvas} {size : Nat}
    (h : Painted color before after) (hbefore : before.Valid size) : after.Valid size := by
  have hsize : after.size = size := h.size.trans hbefore.size_eq
  exact ⟨hsize, hsize ▸ after.size_pixels, h.transparent_notMem hbefore.colored⟩

/-- What holds of every scene on a canvas of the given side length. -/
structure Scene.Valid (size : Nat) (scene : Scene) : Prop where
  canvas : scene.agent.canvas.Valid size
  brush_pos : 0 < scene.agent.brush
  brush_odd : scene.agent.brush % 2 = 1
  names : ∀ name ∈ scene.vars.names, isIdentifier name = true ∧ name ∉ reservedWords

theorem Scene.valid_fresh (size : Nat) : (⟨.fresh size, .empty⟩ : Scene).Valid size where
  canvas := Canvas.valid_blank size (by decide)
  brush_pos := Int.one_pos
  brush_odd := rfl
  names name h := by cases h

theorem Variables.mem_names_iff {vars : Variables} {name : Text} :
    name ∈ vars.names ↔ ∃ value, vars.get? name = some value := by
  rw [← List.contains_iff_mem, contains_names, binds, Option.isSome_iff_exists]

/-- What commands of a kind do keeps a scene valid. -/
theorem Command.Kind.Changes.valid {kind : Command.Kind} {line : Text} {before after : Scene}
    {size : Nat} (h : kind.Changes line before after) (hbefore : before.Valid size) :
    after.Valid size := by
  cases kind with
  | goTo | colorCount =>
    obtain rfl : after = before := h
    exact hbefore
  | assign =>
    obtain ⟨left, right, value, -, hfree, -, hagent, hvars⟩ := h
    refine ⟨hagent ▸ hbefore.canvas, hagent ▸ hbefore.brush_pos, hagent ▸ hbefore.brush_odd, ?_⟩
    intro name hname
    obtain ⟨found, hfound⟩ := Variables.mem_names_iff.1 hname
    by_cases htarget : name = trim left
    · subst htarget
      obtain ⟨hidentifier, hreserved⟩ := (isFreeName_iff _).1 hfree
      exact ⟨hidentifier, by simpa [isReserved] using hreserved⟩
    · rw [hvars, if_neg htarget] at hfound
      exact hbefore.names name (Variables.mem_names_iff.2 ⟨found, hfound⟩)
  | spawn =>
    obtain ⟨p, -, rfl⟩ := h
    exact { hbefore with }
  | color =>
    obtain ⟨color, rfl⟩ := h
    exact { hbefore with }
  | size =>
    obtain ⟨brush, hpos, hodd, rfl⟩ := h
    exact { hbefore with brush_pos := hpos, brush_odd := hodd }
  | drawLine | drawCircle | drawRectangle =>
    obtain ⟨position, canvas, hpainted, rfl⟩ := h
    exact { hbefore with canvas := hpainted.valid hbefore.canvas }
  | fill =>
    obtain ⟨canvas, hpainted, rfl⟩ := h
    exact { hbefore with canvas := hpainted.valid hbefore.canvas }

theorem Command.valid_process (labels : Labels) {scene : Scene} {size : Nat}
    (h : scene.Valid size) (kind : Command.Kind) (line : Text) :
    (Command.process labels scene kind line).1.Valid size := by
  cases hresult : (process labels scene kind line).2 with
  | error fault =>
    rw [process_eq_error hresult]
    exact h
  | ok outcome => exact (process_eq_ok hresult).valid h

theorem Step.scene_ofCommand (labels : Labels) (scene : Scene) (position : Nat)
    (findings : List Finding) (command : Except Fault Command) :
    (ofCommand labels scene position findings command).scene =
      (Command.runParsed labels scene command).1 := by
  unfold ofCommand
  split <;> rename_i h <;> rw [h]

/-- Running a line keeps the scene valid, also if the line is of no kind or is refused. -/
theorem Step.valid_ofStatement (labels labels' : Labels) {scene : Scene} {size : Nat}
    (h : scene.Valid size) (position size' : Nat) (line : Text) :
    (ofStatement labels scene position (.ofLine labels' size' line)).scene.Valid size := by
  unfold ofStatement Statement.ofLine
  cases Command.Kind.ofLine? line with
  | none => exact h
  | some kind =>
    simp only [Option.map_some, scene_ofCommand]
    exact Command.valid_process labels h kind line

namespace Program

variable {size n : Nat} {source : Text}

/-- The scene is valid whenever a run has come to a line. -/
theorem Leads.valid_scene {run : Run}
    (h : Leads (ofSource size source) n (beginning size source) run) : run.scene.Valid size := by
  refine h.preserves (P := fun run => run.scene.Valid size) ?_ ?_
  · intro run position statement hnext hrun
    obtain ⟨line, -, rfl⟩ := nextStatement_ofLines_iff.1 hnext
    exact Step.valid_ofStatement _ _ hrun position size line
  · unfold beginning
    split <;> exact Scene.valid_fresh size

/-- The scene that a run leaves behind is one that it has come to. -/
theorem exists_leads_of_execute {config : Config} {patience : Nat} {run : Run}
    (h : execute config patience source = some run) :
    ∃ n last, Leads (ofSource config.canvasSize source) n
      (beginning config.canvasSize source) last ∧ run.scene = last.scene := by
  obtain ⟨n, last, hleads, rfl | ⟨budget, position, line, -, rfl⟩⟩ := leads_of_execute h
  · exact ⟨n, run, hleads, rfl⟩
  · exact ⟨n, last, hleads, rfl⟩

end Program

namespace Session

structure Valid (session : Session) : Prop where
  least : 10 ≤ session.config.canvasSize
  greatest : session.config.canvasSize ≤ 500
  scene : session.scene.Valid session.config.canvasSize

/-- Asks a session to take another side length: the session after it, and whether it did. -/
def resize (session : Session) (size : Nat) : Session × Except Fault Unit :=
  match session.setCanvasSize size with
  | .ok after => (after, .ok ())
  | .error fault => (session, .error fault)

/-- The sessions that there can be: new ones, and what becomes of them when sources are run and
side lengths are changed, in any order. -/
inductive Reached : Session → Prop where
  | initial : Reached .initial
  | new {config : Config} {session : Session} (h : Session.new config = .ok session) :
      Reached session
  | execute {session after : Session} {patience : Nat} {source : Text} {run : Run}
      (before : Reached session) (h : session.execute patience source = some (run, after)) :
      Reached after
  | resize {session : Session} (before : Reached session) (size : Nat) :
      Reached (session.resize size).1

/-- What is given for a checked side length is given exactly for those between the limits. -/
theorem checked_eq_ok_iff {α : Type} {size : Nat} {given found : α} :
    (do checkCanvasSize size; return given) = Except.ok found ↔
      (10 ≤ size ∧ size ≤ 500) ∧ found = given := by
  have hlimits : checkCanvasSize size = .ok () ↔ 10 ≤ size ∧ size ≤ 500 :=
    checkCanvasSize_eq_ok_iff size
  rw [← hlimits]
  constructor
  · intro h
    obtain ⟨_, hsize, h⟩ := bind_eq_ok_iff.1 h
    exact ⟨hsize, (Except.ok.inj h).symm⟩
  · rintro ⟨hsize, rfl⟩
    exact bind_eq_ok_iff.2 ⟨(), hsize, rfl⟩

theorem new_eq_ok_iff {config : Config} {session : Session} :
    Session.new config = .ok session ↔ (10 ≤ config.canvasSize ∧ config.canvasSize ≤ 500) ∧
      session = ⟨config, ⟨.fresh config.canvasSize, .empty⟩⟩ :=
  checked_eq_ok_iff

theorem setCanvasSize_eq_ok_iff {session after : Session} {size : Nat} :
    session.setCanvasSize size = .ok after ↔ (10 ≤ size ∧ size ≤ 500) ∧
      after = ⟨{ session.config with canvasSize := size }, ⟨.fresh size, session.scene.vars⟩⟩ :=
  checked_eq_ok_iff

theorem execute_eq_some {session after : Session} {patience : Nat} {source : Text} {run : Run}
    (h : session.execute patience source = some (run, after)) :
    Program.execute session.config patience source = some run ∧
      after = { session with scene := run.scene } := by
  obtain ⟨found, hfound, heq⟩ := Option.map_eq_some_iff.1 h
  cases heq
  exact ⟨hfound, rfl⟩

theorem Valid.resize {session : Session} (h : session.Valid) (size : Nat) :
    (session.resize size).1.Valid := by
  unfold Session.resize
  cases hset : session.setCanvasSize size with
  | error fault => exact h
  | ok after =>
    obtain ⟨⟨hleast, hgreatest⟩, rfl⟩ := setCanvasSize_eq_ok_iff.1 hset
    exact ⟨hleast, hgreatest, { Scene.valid_fresh size with names := h.scene.names }⟩

theorem Reached.valid {session : Session} (h : session.Reached) : session.Valid := by
  induction h with
  | initial => exact ⟨by decide, by decide, Scene.valid_fresh _⟩
  | new h =>
    obtain ⟨⟨hleast, hgreatest⟩, rfl⟩ := new_eq_ok_iff.1 h
    exact ⟨hleast, hgreatest, Scene.valid_fresh _⟩
  | execute before h ih =>
    obtain ⟨hrun, rfl⟩ := execute_eq_some h
    obtain ⟨n, last, hleads, hscene⟩ := Program.exists_leads_of_execute hrun
    exact { ih with scene := hscene ▸ hleads.valid_scene }
  | resize before size ih => exact ih.resize size

/-- However a session has come about, it is valid, and so it is whenever one of its runs has come
to a line. A side length outside the limits is refused, which leaves the session as it was.
And every run ends as it does in a new session with the same settings. -/
theorem valid_throughout {session : Session} (h : session.Reached) :
    session.Valid ∧
    (∀ source n run,
      Program.Leads (.ofSource session.config.canvasSize source) n
        (Program.beginning session.config.canvasSize source) run →
      Valid { session with scene := run.scene }) ∧
    (∀ size, ((session.resize size).2 = .ok () ↔ 10 ≤ size ∧ size ≤ 500) ∧
      ∀ fault, (session.resize size).2 = .error fault → (session.resize size).1 = session) ∧
    ∃ fresh, Session.new session.config = .ok fresh ∧
      ∀ patience source, session.execute patience source = fresh.execute patience source := by
  have hvalid := h.valid
  refine ⟨hvalid, ?_, fun size => ?_, ?_⟩
  · intro source n run hleads
    exact { hvalid with scene := hleads.valid_scene }
  · unfold Session.resize
    cases hset : session.setCanvasSize size with
    | error fault =>
      refine ⟨⟨fun hok => ?_, fun hlimits => ?_⟩, fun _ _ => rfl⟩
      · cases hok
      · rw [setCanvasSize_eq_ok_iff.2 ⟨hlimits, rfl⟩] at hset
        cases hset
    | ok after =>
      refine ⟨⟨fun _ => (setCanvasSize_eq_ok_iff.1 hset).1, fun _ => rfl⟩, fun fault herror => ?_⟩
      cases herror
  · exact ⟨_, new_eq_ok_iff.2 ⟨⟨hvalid.least, hvalid.greatest⟩, rfl⟩, fun _ _ => rfl⟩

theorem valid_throughout_after_run :
    let begun : Session := ⟨⟨10, some 9⟩, ⟨.fresh 10, .empty⟩⟩
    let source := "Spawn(1, 2)\nSize(4)\nDrawLine(1, 0, 3)".toList
    let run := Program.executeWithin 10 9 source
    let session : Session := { begun with scene := run.scene }
    Session.new ⟨10, some 9⟩ = .ok begun ∧ begun.execute 0 source = some (run, session) ∧
      session.Valid ∧ (session.resize 501).1 = session := by
  intro begun source run session
  have hbegun : Session.new ⟨10, some 9⟩ = .ok begun := rfl
  have hrun : begun.execute 0 source = some (run, session) := rfl
  obtain ⟨hvalid, -, hresize, -⟩ := valid_throughout (.execute (.new hbegun) hrun)
  exact ⟨hbegun, hrun, hvalid, (hresize 501).2 _ rfl⟩

end Session

end Brushwork
