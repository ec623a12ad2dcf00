import Brushwork.Proofs.Expr.Grammar
import Brushwork.Proofs.Refusal

/-!
# What phrases mean

A phrase means a number and a truth value, each by recursion on the phrase and
without a look at its tokens. Beside its outcome a meaning records how many
levels down it was sought, so that the limit on nesting is applied once, from
outside: a meaning sought from a level too far down is a fault, and any other is
its outcome. The records of two steps combine to the deeper of both, and a step
that is never taken leaves none.
-/

namespace Brushwork

/-- An outcome, and how many levels down it was sought. -/
structure Sense (α : Type) where
  outcome : Except Fault α
  depth : Nat

namespace Sense

variable {α β : Type}

def of (outcome : Except Fault α) : Sense α := ⟨outcome, 0⟩

/-- The same outcome sought so many levels further down. -/
def down (levels : Nat) (s : Sense α) : Sense α := ⟨s.outcome, s.depth + levels⟩

instance : Monad Sense where
  pure a := of (.ok a)
  bind s f :=
    match s.outcome with
    | .ok a => ⟨(f a).outcome, max s.depth (f a).depth⟩
    | .error fault => ⟨.error fault, s.depth⟩

/-- What is found from a level of nesting on. -/
def fromLevel (s : Sense α) (level : Nat) : Except Fault α :=
  if level + s.depth ≤ deepest then s.outcome else .error .nestedTooDeeply

@[simp] theorem fromLevel_of (outcome : Except Fault α) (level : Nat) :
    (of outcome).fromLevel level = atLevel level outcome := by
  by_cases hlevel : level ≤ deepest
  · simp [fromLevel, atLevel, of, hlevel, Nat.not_lt.2 hlevel]
  · simp [fromLevel, atLevel, of, hlevel, Nat.lt_of_not_le hlevel]

@[simp] theorem fromLevel_pure (a : α) (level : Nat) :
    (pure a : Sense α).fromLevel level = atLevel level (.ok a) :=
  fromLevel_of (.ok a) level

@[simp] theorem fromLevel_down (levels : Nat) (s : Sense α) (level : Nat) :
    (s.down levels).fromLevel level = s.fromLevel (level + levels) := by
  have hdepth : level + (s.depth + levels) = level + levels + s.depth := by omega
  simp [fromLevel, down, hdepth]

/-- From one level on, a step after another is found exactly as the two are. -/
@[simp] theorem fromLevel_bind (s : Sense α) (f : α → Sense β) (level : Nat) :
    (s >>= f).fromLevel level = s.fromLevel level >>= fun a => (f a).fromLevel level := by
  obtain ⟨outcome, depth⟩ := s
  cases outcome with
  | error fault =>
    simp only [fromLevel, bind]
    split <;> rfl
  | ok a =>
    by_cases hdepth : level + depth ≤ deepest
    · have hmax : level + max depth (f a).depth ≤ deepest ↔ level + (f a).depth ≤ deepest := by
        omega
      simp only [fromLevel, bind, Except.bind, hdepth, hmax, if_true]
    · have hmax : ¬ level + max depth (f a).depth ≤ deepest := by omega
      simp only [fromLevel, bind, Except.bind, hdepth, hmax, if_false]

theorem fromLevel_map (s : Sense α) (f : α → β) (level : Nat) :
    (do return f (← s) : Sense β).fromLevel level = (s.fromLevel level).map f := by
  rw [fromLevel_bind]
  by_cases hdepth : level + s.depth ≤ deepest
  · have hlevel : ¬ deepest < level := by omega
    simp only [fromLevel_pure, atLevel, hlevel, if_false]
    rfl
  · simp [fromLevel, hdepth, Except.map]

/-- A level that is left downwards need not be checked. -/
@[simp] theorem atLevel_fromLevel_add (s : Sense α) (level levels : Nat) :
    atLevel level (s.fromLevel (level + levels)) = s.fromLevel (level + levels) := by
  unfold atLevel fromLevel
  split <;> split <;> first | rfl | omega

@[simp] theorem atLevel_fromLevel (s : Sense α) (level : Nat) :
    atLevel level (s.fromLevel level) = s.fromLevel level :=
  s.atLevel_fromLevel_add level 0

end Sense

/-- A level may be checked again before every step. -/
theorem atLevel_bind {α β : Type} (level : Nat) (x : Except Fault α) (f : α → Except Fault β) :
    atLevel level (x >>= f) = atLevel level x >>= fun a => atLevel level (f a) := by
  by_cases hlevel : deepest < level
  · simp [atLevel, hlevel]
  · simp [atLevel, hlevel]

theorem atLevel_map {α β : Type} (level : Nat) (f : α → β) (x : Except Fault α) :
    atLevel level (f <$> x) = atLevel level x >>= fun a => atLevel level (.ok (f a)) := by
  rw [← bind_pure_comp, atLevel_bind]
  rfl

theorem atLevel_mapped {α β : Type} (level : Nat) (f : α → β) (x : Except Fault α) :
    atLevel level (x.map f) = (atLevel level x).map f := by
  by_cases hlevel : deepest < level
  · simp [atLevel, hlevel, Except.map]
  · simp [atLevel, hlevel]

/-- The exact result of an operation, if it is a signed 64-bit word. -/
def exactly (n : Int) : Except Fault Int :=
  if -9223372036854775808 ≤ n ∧ n < 9223372036854775808 then .ok n else .error .overflow

theorem inWord_eq_exactly (n : Int) : inWord n = exactly n := by
  have hword : fitsWord n = true ↔ -9223372036854775808 ≤ n ∧ n < 9223372036854775808 := by
    rw [fitsWord_iff, leastWord, greatestWord]
    omega
  simp only [inWord, exactly, hword]

namespace Arith

/-- The value of an operator by exact arithmetic: a quotient is cut toward zero, and a remainder
is what its quotient leaves of the dividend. -/
def value : Arith → Int → Int → Except Fault Int
  | .add, a, b => exactly (a + b)
  | .sub, a, b => exactly (a - b)
  | .mul, a, b => exactly (a * b)
  | .div, a, b => if b = 0 then .error .divideByZero else exactly (a.tdiv b)
  | .rem, a, b =>
    if b = 0 then .error .divideByZero
    else do
      let quotient ← exactly (a.tdiv b)
      return a - b * quotient
  | .pow, a, b => .ok (power a b)

theorem apply_eq_value (op : Arith) (a b : Int) : op.apply a b = op.value a b := by
  cases op with
  | add | sub | mul | div => simp only [apply, value, inWord_eq_exactly]
  | pow => rfl
  | rem =>
    simp only [apply, value, inWord_eq_exactly]
    unfold exactly
    split
    · rfl
    · split
      · simp only [ok_bind, Int.tmod_def]
      · rfl

end Arith

/-- The number and the truth value that something means. -/
structure Meaning where
  number : Sense Int
  truth : Sense Bool

namespace Meaning

/-- What is a number first is true unless it is zero. -/
def ofNumber (number : Sense Int) : Meaning where
  number := number
  truth := .down 1 do return (← number) != 0

/-- What is a truth value first is the number one or zero. -/
def ofTruth (truth : Sense Bool) : Meaning where
  number := .down 1 do return truthNumber (← truth)
  truth := truth

def grouped (inner : Meaning) : Meaning := ⟨inner.number.down 1, inner.truth.down 1⟩

def arith (op : Arith) (left right : Meaning) : Meaning :=
  .ofNumber do
    let a ← left.number
    let b ← right.number
    .of (op.value a b)

def ofName (vars : Variables) (t : Text) : Meaning where
  number := .of (vars.getInt t)
  truth :=
    match vars.get? t with
    | some (.bool b) => pure b
    | _ => .down 1 do return (← Sense.of (vars.getInt t)) != 0

end Meaning

namespace Phrase

def meaning (scene : Scene) {t : Tier} : Phrase t → Meaning
  | number n => .ofNumber (pure n)
  | name t => .ofName scene.vars t
  | truth b => ⟨.of (.error (.notAnInteger (Token.truth b).text)), pure b⟩
  | group inner => (inner.meaning scene).grouped
  | actualX => .ofNumber (pure scene.agent.position.x)
  | actualY => .ofNumber (pure scene.agent.position.y)
  | canvasSize => .ofNumber (pure scene.agent.canvasSize)
  | brushColor color => .ofNumber (.of (scene.agent.isBrushColor color.text))
  | brushSize size => .ofNumber do
    let n ← (size.meaning scene).number.down 2
    return scene.agent.isBrushSize n
  | canvasColor color vertical horizontal => .ofNumber do
    let dy ← (vertical.meaning scene).number.down 2
    let dx ← (horizontal.meaning scene).number.down 2
    .of (scene.agent.isCanvasColor color.text dy dx)
  | colorCount color x₁ y₁ x₂ y₂ => .ofNumber do
    let a ← (x₁.meaning scene).number.down 2
    let b ← (y₁.meaning scene).number.down 2
    let c ← (x₂.meaning scene).number.down 2
    let d ← (y₂.meaning scene).number.down 2
    .of (scene.agent.colorCount color.text ⟨a, b⟩ ⟨c, d⟩)
  | negate inner => .ofNumber do
    let n ← (inner.meaning scene).number.down 1
    .of (exactly (-n))
  | power left right => .arith .pow (left.meaning scene) (right.meaning scene)
  | product op _ left right => .arith op (left.meaning scene) (right.meaning scene)
  | sum op _ left right => .arith op (left.meaning scene) (right.meaning scene)
  | compare op left right => .ofTruth do
    let a ← (left.meaning scene).number.down 1
    let b ← (right.meaning scene).number.down 1
    return op.holds a b
  | both left right => .ofTruth do
    if ← (left.meaning scene).truth then (right.meaning scene).truth else return false
  | either left right => .ofTruth do
    if ← (left.meaning scene).truth then return true else (right.meaning scene).truth
  | ofOperand inner => inner.meaning scene
  | ofPower inner => inner.meaning scene
  | ofProduct inner => inner.meaning scene
  | ofSum inner => inner.meaning scene
  | ofComparison inner => inner.meaning scene
  | ofBoth inner => inner.meaning scene

end Phrase

end Brushwork
