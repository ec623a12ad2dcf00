import Mathlib.Data.List.Basic
import Mathlib.Data.Nat.Basic
import Brushwork.Proofs.Expr.Acceptance

/-!
# The level of nesting and the two readings

A level of nesting decides whether a reading is cut off and nothing else: at a
deeper level an expression is worth the same, or it is nested too deeply. Hence the
two readings of an expression agree, although they go down by different levels: one
that is a number is, as a truth value, whether the number is not zero, unless that
is sought too deep.
-/

namespace Brushwork

variable {α β : Type}

/-- The first result is the second one, or it lies too deep. -/
def CutOff (x y : Except Fault α) : Prop := x = .error .nestedTooDeeply ∨ x = y

namespace CutOff

theorem refl (x : Except Fault α) : CutOff x x := .inr rfl

theorem bind {x y : Except Fault α} {f g : α → Except Fault β} (h : CutOff x y)
    (hfg : ∀ a, CutOff (f a) (g a)) : CutOff (x >>= f) (y >>= g) := by
  rcases h with rfl | rfl
  · exact .inl rfl
  · cases x with
    | error fault => exact .inr rfl
    | ok a => exact hfg a

theorem map {x y : Except Fault α} (h : CutOff x y) (f : α → β) :
    CutOff (x.map f) (y.map f) := by
  rcases h with rfl | rfl
  · exact .inl rfl
  · exact .refl _

/-- One more level may be checked. -/
theorem atLevel {x y : Except Fault α} (h : CutOff x y) (level : Nat) :
    CutOff (atLevel level x) y := by
  rw [Brushwork.atLevel]
  split
  · exact .inl rfl
  · exact h

theorem eq_of_ok {x y : Except Fault α} {a : α} (h : CutOff x y) (hx : x = .ok a) :
    y = .ok a := by
  rcases h with h | h
  · cases h.symm.trans hx
  · exact h.symm.trans hx

end CutOff

/-- A deeper level finds the same, or that it lies too deep. -/
def Settled (found : Nat → Except Fault α) : Prop :=
  ∀ ⦃level deeper⦄, level ≤ deeper → CutOff (found deeper) (found level)

namespace Settled

variable {found : Nat → Except Fault α}

theorem const (x : Except Fault α) : Settled fun _ => x := fun _ _ _ => .refl x

theorem shift (h : Settled found) (levels : Nat) :
    Settled fun level => found (level + levels) :=
  fun _ _ hle => h (Nat.add_le_add_right hle levels)

theorem bind {next : α → Nat → Except Fault β} (h : Settled found)
    (hnext : ∀ a, Settled (next a)) : Settled fun level => found level >>= fun a => next a level :=
  fun _ _ hle => (h hle).bind fun a => hnext a hle

theorem map (h : Settled found) (f : α → β) : Settled fun level => (found level).map f :=
  fun _ _ hle => (h hle).map f

theorem atLevel (h : Settled found) : Settled fun level => atLevel level (found level) := by
  intro level deeper hle
  by_cases hdeep : deepest < deeper
  · exact .inl (if_pos hdeep)
  · have hlevel : ¬ deepest < level := by omega
    simpa [Brushwork.atLevel, hdeep, hlevel] using h hle

/-- What one level finds, every other finds as well unless it lies too deep. -/
theorem cutOff_of_ok (h : Settled found) {level : Nat} {a : α} (ha : found level = .ok a)
    (other : Nat) : CutOff (found other) (.ok a) := by
  rcases le_total level other with hle | hle
  · rw [← ha]
    exact h hle
  · exact .inr ((h hle).eq_of_ok ha)

end Settled

namespace Reading

/-- Both readings are settled. -/
structure Settled (reading : Reading) : Prop where
  number : Brushwork.Settled reading.number
  truth : Brushwork.Settled reading.truth

theorem settled_ofNumber {found : Nat → Except Fault Int} (h : Brushwork.Settled found) :
    (ofNumber found).Settled where
  number := h.atLevel
  truth := ((h.map (· != 0)).atLevel.shift 1).atLevel

theorem settled_ofTruth {found : Nat → Except Fault Bool} (h : Brushwork.Settled found) :
    (ofTruth found).Settled where
  number := ((h.map truthNumber).atLevel.shift 1).atLevel
  truth := h.atLevel

theorem settled_ofEach (number : Except Fault Int) (truth : Except Fault Bool) :
    (ofEach number truth).Settled where
  number := (Brushwork.Settled.const number).atLevel
  truth := (Brushwork.Settled.const truth).atLevel

theorem Settled.deeper {inner : Reading} (h : inner.Settled) : inner.deeper.Settled where
  number := (h.number.shift 1).atLevel
  truth := (h.truth.shift 1).atLevel

end Reading

theorem Query.answer_of_length_ne {query : Query} {arguments : List Expr}
    (h : arguments.length ≠ query.arity) (agent : Agent) (numbers : List (Except Fault Int)) :
    query.answer agent arguments numbers =
      .error (.argumentCount query.name query.arity arguments.length) := by
  fun_cases Query.answer agent query arguments numbers with
  | case8 => rfl
  | _ => exact absurd rfl h

/-- A query with settled arguments has a settled answer. -/
theorem Query.settled_answer (scene : Scene) (query : Query) (arguments : List Expr)
    (h : ∀ r ∈ Expr.readings scene arguments, r.Settled) :
    Settled fun level => query.answer scene.agent arguments
      ((Expr.readings scene arguments).map fun r => r.number level) := by
  by_cases hcount : arguments.length = query.arity
  · cases query with
    | actualX | actualY | canvasSize =>
      obtain rfl := List.length_eq_zero_iff.1 hcount
      exact .const _
    | brushColor =>
      obtain ⟨color, rfl⟩ := List.length_eq_one_iff.1 hcount
      exact .const _
    | brushSize =>
      obtain ⟨size, rfl⟩ := List.length_eq_one_iff.1 hcount
      have hsize := (h (size.reading scene) (by simp [Expr.readings])).number
      exact hsize.bind fun n => .const _
    | canvasColor =>
      obtain ⟨color, vertical, horizontal, rfl⟩ := List.length_eq_three.1 hcount
      have hvertical := (h (vertical.reading scene) (by simp [Expr.readings])).number
      have hhorizontal := (h (horizontal.reading scene) (by simp [Expr.readings])).number
      exact (Settled.const _).bind fun name => hvertical.bind fun dy =>
        hhorizontal.bind fun dx => .const _
    | colorCount =>
      obtain ⟨color, corners, rfl⟩ := List.exists_cons_of_length_eq_add_one hcount
      obtain ⟨x₁, corners, rfl⟩ := List.exists_cons_of_length_eq_add_one (Nat.succ.inj hcount)
      obtain ⟨y₁, x₂, y₂, rfl⟩ := List.length_eq_three.1 (Nat.succ.inj (Nat.succ.inj hcount))
      have hx₁ := (h (x₁.reading scene) (by simp [Expr.readings])).number
      have hy₁ := (h (y₁.reading scene) (by simp [Expr.readings])).number
      have hx₂ := (h (x₂.reading scene) (by simp [Expr.readings])).number
      have hy₂ := (h (y₂.reading scene) (by simp [Expr.readings])).number
      exact (Settled.const _).bind fun name => hx₁.bind fun a => hy₁.bind fun b =>
        hx₂.bind fun c => hy₂.bind fun d => .const _
  · simp only [answer_of_length_ne hcount]
    exact .const _

namespace Expr

theorem settled_name (vars : Variables) (t : Text) : (nameReading vars t).Settled where
  number := (Settled.const _).atLevel
  truth := by
    apply Settled.atLevel
    cases vars.get? t with
    | none => exact (((Settled.const _).map _).atLevel.shift 1)
    | some value =>
      cases value with
      | int n => exact (((Settled.const _).map _).atLevel.shift 1)
      | bool b => exact .const _

/-- The readings of every expression are settled. -/
theorem settled_reading (scene : Scene) (e : Expr) : (e.reading scene).Settled := by
  cases e with
  | empty | truth => exact Reading.settled_ofEach ..
  | number | quotation | unread => exact Reading.settled_ofNumber (.const _)
  | name t => exact settled_name scene.vars t
  | group e => exact (settled_reading scene e).deeper
  | negate e =>
    have he := settled_reading scene e
    exact Reading.settled_ofNumber ((he.number.shift 1).bind fun n => .const _)
  | arith op left right =>
    have hleft := settled_reading scene left
    have hright := settled_reading scene right
    exact Reading.settled_ofNumber
      (hleft.number.bind fun a => hright.number.bind fun b => .const _)
  | compare op left right =>
    have hleft := settled_reading scene left
    have hright := settled_reading scene right
    exact Reading.settled_ofTruth
      ((hleft.number.shift 1).bind fun a => (hright.number.shift 1).bind fun b => .const _)
  | both left right =>
    have hleft := settled_reading scene left
    have hright := settled_reading scene right
    apply Reading.settled_ofTruth
    apply hleft.truth.bind
    intro value
    cases value with
    | false => exact .const _
    | true => exact hright.truth
  | either left right =>
    have hleft := settled_reading scene left
    have hright := settled_reading scene right
    apply Reading.settled_ofTruth
    apply hleft.truth.bind
    intro value
    cases value with
    | false => exact hright.truth
    | true => exact .const _
  | call f arguments =>
    have harguments : ∀ e ∈ arguments, (e.reading scene).Settled :=
      fun e _ => settled_reading scene e
    apply Reading.settled_ofNumber
    cases Query.ofName? f with
    | none => exact .const _
    | some query =>
      exact (query.settled_answer scene arguments (forall_readings harguments)).shift 2

end Expr

namespace Reading

/-- If one reading is a number, the other is whether that is not zero, whatever the levels, unless
it lies too deep. -/
def Agrees (reading : Reading) : Prop :=
  ∀ level n, reading.number level = .ok n →
    ∀ other, CutOff (reading.truth other) (.ok (n != 0))

theorem agrees_ofNumber {found : Nat → Except Fault Int} (h : (ofNumber found).Settled) :
    (ofNumber found).Agrees := by
  intro level n hn other
  have hother : CutOff (atLevel (other + 1) (found (other + 1))) (.ok n) :=
    h.number.cutOff_of_ok hn (other + 1)
  have hchanged := (hother.map (· != 0)).atLevel other
  rwa [← atLevel_mapped] at hchanged

theorem agrees_ofTruth {found : Nat → Except Fault Bool} (h : (ofTruth found).Settled) :
    (ofTruth found).Agrees := by
  intro level n hn other
  have hchanged := atLevel_eq_ok hn
  rw [atLevel_mapped] at hchanged
  cases hfound : atLevel (level + 1) (found (level + 1)) with
  | error fault =>
    rw [hfound] at hchanged
    cases hchanged
  | ok b =>
    rw [hfound] at hchanged
    obtain rfl : truthNumber b = n := Except.ok.inj hchanged
    have hnumber : (truthNumber b != 0) = b := by cases b <;> rfl
    rw [hnumber]
    exact h.truth.cutOff_of_ok hfound other

/-- What is no number agrees with any truth value. -/
theorem agrees_ofEach_error (fault : Fault) (truth : Except Fault Bool) :
    (ofEach (.error fault) truth).Agrees := by
  intro level n hn
  cases atLevel_eq_ok hn

theorem Agrees.deeper {inner : Reading} (h : inner.Agrees) : inner.deeper.Agrees := by
  intro level n hn other
  exact (h (level + 1) n (atLevel_eq_ok hn) (other + 1)).atLevel other

end Reading

namespace Expr

/-- A name that is a number is bound to that number, so it has no truth value of its own. -/
theorem agrees_name (vars : Variables) (t : Text) : (nameReading vars t).Agrees := by
  intro level n hn other
  have hint : vars.getInt t = .ok n := atLevel_eq_ok hn
  have hget : vars.get? t = some (.int n) := by
    rw [Variables.getInt, Variables.get] at hint
    cases hvalue : vars.get? t with
    | none => simp [hvalue] at hint
    | some value =>
      cases value with
      | int m =>
        rw [hvalue] at hint
        rw [← Except.ok.inj hint]
      | bool b => simp [hvalue] at hint
  have htruth : (nameReading vars t).truth other =
      atLevel other (atLevel (other + 1) (.ok (n != 0))) := by
    simp only [nameReading, hget, hint]
    rfl
  rw [htruth]
  exact ((CutOff.refl _).atLevel (other + 1)).atLevel other

/-- The two readings of every expression agree. -/
theorem agrees_reading (scene : Scene) (e : Expr) : (e.reading scene).Agrees := by
  have hsettled := settled_reading scene e
  cases e with
  | empty | truth => exact Reading.agrees_ofEach_error _ _
  | number | quotation | negate | arith | call | unread => exact Reading.agrees_ofNumber hsettled
  | compare | both | either => exact Reading.agrees_ofTruth hsettled
  | name t => exact agrees_name scene.vars t
  | group e => exact (agrees_reading scene e).deeper

end Expr

namespace Scene

/-- The truth value of a source that is a number is whether the number is not zero, and its value
is that number or that truth value, unless it is nested too deeply for one of them. -/
theorem readings_agree (scene : Scene) (source : Text) (n : Int)
    (h : scene.evaluateNumber source = .ok n) :
    (scene.evaluateTruth source = .ok (n != 0) ∨
      scene.evaluateTruth source = .error .nestedTooDeeply) ∧
    (scene.evaluate source = .ok (.int n) ∨ scene.evaluate source = .ok (.bool (n != 0)) ∨
      scene.evaluate source = .error .nestedTooDeeply) := by
  obtain ⟨tokens, htokens, hnumber⟩ := bind_eq_ok_iff.1 h
  have hagrees := Expr.agrees_reading scene (.ofTokens tokens) 0 n hnumber 0
  rw [evaluateTruth, evaluate, htokens, ok_bind, ok_bind]
  refine ⟨hagrees.symm, ?_⟩
  dsimp only
  split
  · rcases hagrees with hdeep | htruth
    · rw [hdeep]
      exact .inr (.inr rfl)
    · rw [htruth]
      exact .inr (.inl rfl)
  · rw [show ((Expr.ofTokens tokens).reading scene).number 0 = .ok n from hnumber]
    exact .inl rfl

theorem readings_agree_skipping :
    let scene : Scene := ⟨.fresh 10, .empty⟩
    let source := "((GetCanvasSize() > 3 || x))".toList
    scene.evaluateNumber source = .ok 1 ∧
      (scene.evaluateTruth source = .ok true ∨
        scene.evaluateTruth source = .error .nestedTooDeeply) ∧
      (scene.evaluate source = .ok (.int 1) ∨ scene.evaluate source = .ok (.bool true) ∨
        scene.evaluate source = .error .nestedTooDeeply) := by
  intro scene source
  have hnumber : scene.evaluateNumber source = .ok 1 := by decide +kernel
  exact ⟨hnumber, readings_agree scene source 1 hnumber⟩

end Scene

end Brushwork
