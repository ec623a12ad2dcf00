import Brushwork.Fault

/-!
# Settings

The side length of the canvas, which has to lie between two limits, and the
number of commands after which a run is stopped, if it is to be stopped at all.
-/

namespace Brushwork

structure Config where
  canvasSize : Nat := 86
  /-- How many commands may be run; without it a run may go on forever. -/
  maxSteps : Option Nat := none
  deriving DecidableEq

def leastCanvasSize : Nat := 10

def greatestCanvasSize : Nat := 500

def checkCanvasSize (size : Nat) : Except Fault Unit :=
  if leastCanvasSize ≤ size && size ≤ greatestCanvasSize then .ok ()
  else .error (.invalidCanvasSize size leastCanvasSize greatestCanvasSize)

def Config.validate (config : Config) : Except Fault Unit := checkCanvasSize config.canvasSize

theorem checkCanvasSize_eq_ok_iff (size : Nat) :
    checkCanvasSize size = .ok () ↔ leastCanvasSize ≤ size ∧ size ≤ greatestCanvasSize := by
  simp only [checkCanvasSize, Bool.and_eq_true, decide_eq_true_eq]
  split <;> simp_all

end Brushwork
