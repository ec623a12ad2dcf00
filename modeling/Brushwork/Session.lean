import Brushwork.Program.Run

/-!
# Sessions

A session keeps its settings from run to run. Each run starts from a blank canvas
and no variables, and leaves behind the scene it ended with.
-/

namespace Brushwork

/-- Settings and the scene that the last run left behind. -/
structure Session where
  config : Config
  scene : Scene

namespace Session

def initial : Session := ⟨{}, ⟨.fresh ({} : Config).canvasSize, .empty⟩⟩

def new (config : Config) : Except Fault Session := do
  config.validate
  return ⟨config, ⟨.fresh config.canvasSize, .empty⟩⟩

/-- Takes another side length, with a blank canvas at once. The variables stay. -/
def setCanvasSize (session : Session) (size : Nat) : Except Fault Session := do
  checkCanvasSize size
  return { config := { session.config with canvasSize := size }
           scene := { session.scene with agent := .fresh size } }

/-- Runs a source. Without a budget there is an answer only if the run ends within `patience`
statements. -/
def execute (session : Session) (patience : Nat) (source : Text) : Option (Run × Session) :=
  (Program.execute session.config patience source).map fun run =>
    (run, { session with scene := run.scene })

end Session

end Brushwork
