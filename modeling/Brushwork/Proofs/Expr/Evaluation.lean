import Brushwork.Proofs.Expr.Parsing
import Brushwork.Proofs.Expr.Sense

/-!
# Expressions are worth what their phrases mean

The two readings of a phrase's tree find, from every level of nesting on, what
the phrase means. Each form of tree needs one lemma: where a reading checks its
level, and where it goes a level down, the meaning records the same depth. With
what the reader makes of the tokens this settles the value of every list of
tokens that the grammar has.
-/

namespace Brushwork

/-- From every level on, the readings find what is meant. -/
structure Reading.Finds (reading : Reading) (meaning : Meaning) : Prop where
  number : ∀ level, reading.number level = meaning.number.fromLevel level
  truth : ∀ level, reading.truth level = meaning.truth.fromLevel level

namespace Reading

section Change

variable {α β : Type} {found : Nat → Except Fault α} {s : Sense α}

/-- The other reading of what is found one level further down. -/
theorem changed_eq (h : ∀ level, atLevel level (found level) = s.fromLevel level) (f : α → β)
    (level : Nat) :
    atLevel level (atLevel (level + 1) ((found (level + 1)).map f)) =
      (Sense.down 1 do return f (← s)).fromLevel level := by
  have hmap : atLevel (level + 1) ((found (level + 1)).map f) =
      (do return f (← s) : Sense β).fromLevel (level + 1) := by
    rw [atLevel_mapped, h, Sense.fromLevel_map]
  rw [hmap, Sense.fromLevel_down, Sense.atLevel_fromLevel_add]

end Change

theorem finds_ofNumber {found : Nat → Except Fault Int} {s : Sense Int}
    (h : ∀ level, atLevel level (found level) = s.fromLevel level) :
    (ofNumber found).Finds (.ofNumber s) where
  number := h
  truth := changed_eq h (· != 0)

theorem finds_ofTruth {found : Nat → Except Fault Bool} {s : Sense Bool}
    (h : ∀ level, atLevel level (found level) = s.fromLevel level) :
    (ofTruth found).Finds (.ofTruth s) where
  number := changed_eq h truthNumber
  truth := h

variable {left right : Reading} {a b : Meaning}

theorem Finds.deeper (h : left.Finds a) : left.deeper.Finds a.grouped where
  number level := by simp [Reading.deeper, Meaning.grouped, h.number]
  truth level := by simp [Reading.deeper, Meaning.grouped, h.truth]

theorem Finds.arith (op : Arith) (hleft : left.Finds a) (hright : right.Finds b) :
    (ofNumber fun level => do
      let n ← left.number level
      let m ← right.number level
      op.apply n m).Finds (.arith op a b) := by
  apply finds_ofNumber
  intro level
  simp [atLevel_bind, hleft.number, hright.number, Arith.apply_eq_value]

theorem Finds.compare (op : Comparison) (hleft : left.Finds a) (hright : right.Finds b) :
    (ofTruth fun level => do
      let n ← left.number (level + 1)
      let m ← right.number (level + 1)
      return op.holds n m).Finds
    (.ofTruth do
      let n ← a.number.down 1
      let m ← b.number.down 1
      return op.holds n m) := by
  apply finds_ofTruth
  intro level
  simp [hleft.number, hright.number, atLevel_bind, atLevel_map]

/-- Neither the reading nor the meaning looks at the right operand after a left one that is
false. -/
theorem Finds.both (hleft : left.Finds a) (hright : right.Finds b) :
    (ofTruth fun level => do
      if ← left.truth level then right.truth level else return false).Finds
    (.ofTruth do if ← a.truth then b.truth else return false) := by
  apply finds_ofTruth
  intro level
  rw [atLevel_bind, hleft.truth, hright.truth, Sense.fromLevel_bind, Sense.atLevel_fromLevel]
  congr 1
  funext value
  cases value with
  | false => exact (Sense.fromLevel_pure false level).symm
  | true => exact Sense.atLevel_fromLevel b.truth level

theorem Finds.either (hleft : left.Finds a) (hright : right.Finds b) :
    (ofTruth fun level => do
      if ← left.truth level then return true else right.truth level).Finds
    (.ofTruth do if ← a.truth then return true else b.truth) := by
  apply finds_ofTruth
  intro level
  rw [atLevel_bind, hleft.truth, hright.truth, Sense.fromLevel_bind, Sense.atLevel_fromLevel]
  congr 1
  funext value
  cases value with
  | false => exact Sense.atLevel_fromLevel b.truth level
  | true => exact (Sense.fromLevel_pure true level).symm

end Reading

theorem Query.ofName?_name (query : Query) : Query.ofName? query.name = some query := by
  cases query <;> decide

theorem colorArgument_expr (color : ColorWord) : colorArgument color.expr = .ok color.text := by
  cases color <;> rfl

theorem Expr.finds_name (vars : Variables) (t : Text) :
    (Expr.nameReading vars t).Finds (.ofName vars t) where
  number level := by simp [nameReading, Meaning.ofName]
  truth level := by
    unfold nameReading Meaning.ofName
    have hnumber := (Sense.fromLevel_of (vars.getInt t) · |>.symm)
    have hchanged := Reading.changed_eq hnumber (· != 0) level
    cases vars.get? t with
    | none => exact hchanged
    | some value =>
      cases value with
      | int n => exact hchanged
      | bool b => simp

namespace Phrase

/-- The readings of a phrase's tree find what the phrase means. -/
theorem finds_meaning (scene : Scene) {t : Tier} (p : Phrase t) :
    (p.expr.reading scene).Finds (p.meaning scene) := by
  induction p with
  | number n => exact Reading.finds_ofNumber fun level => by simp
  | name t => exact Expr.finds_name scene.vars t
  | truth b =>
    constructor
    · intro level
      exact (Sense.fromLevel_of _ level).symm
    · intro level
      exact (Sense.fromLevel_pure b level).symm
  | group inner ih => exact ih.deeper
  | actualX | actualY | canvasSize =>
    apply Reading.finds_ofNumber
    intro level
    simp [Query.ofName?_name, Query.answer]
  | brushColor color =>
    apply Reading.finds_ofNumber
    intro level
    simp [Query.ofName?_name, Query.answer, colorArgument_expr]
  | brushSize size ih =>
    apply Reading.finds_ofNumber
    intro level
    simp [Query.ofName?_name, Query.answer, Expr.readings, ih.number, atLevel_map]
  | canvasColor color vertical horizontal ihv ihh =>
    apply Reading.finds_ofNumber
    intro level
    simp [Query.ofName?_name, Query.answer, colorArgument_expr, Expr.readings, ihv.number,
      ihh.number, atLevel_bind]
  | colorCount color x₁ y₁ x₂ y₂ ihx₁ ihy₁ ihx₂ ihy₂ =>
    apply Reading.finds_ofNumber
    intro level
    simp [Query.ofName?_name, Query.answer, colorArgument_expr, Expr.readings, ihx₁.number,
      ihy₁.number, ihx₂.number, ihy₂.number, atLevel_bind]
  | negate inner ih =>
    apply Reading.finds_ofNumber
    intro level
    simp [ih.number, inWord_eq_exactly, atLevel_bind]
  | power left right ihl ihr => exact ihl.arith .pow ihr
  | product op hop left right ihl ihr | sum op hop left right ihl ihr => exact ihl.arith op ihr
  | compare op left right ihl ihr => exact ihl.compare op ihr
  | both left right ihl ihr => exact ihl.both ihr
  | either left right ihl ihr => exact ihl.either ihr
  | ofOperand inner ih | ofPower inner ih | ofProduct inner ih | ofSum inner ih
  | ofComparison inner ih | ofBoth inner ih => exact ih

end Phrase

/-- From every level of nesting on, the tokens of a phrase are worth what the phrase means, as a
number and as a truth value: the outcome of that meaning, or the fault of nesting too deeply if it
lies beyond the deepest level. -/
theorem Scene.evaluates_to_meaning (scene : Scene) (p : Phrase .either) (level : Nat) :
    scene.number p.tokens level = (p.meaning scene).number.fromLevel level ∧
      scene.truth p.tokens level = (p.meaning scene).truth.fromLevel level := by
  have hfinds := p.finds_meaning scene
  rw [Scene.number, Scene.truth, p.ofTokens_tokens]
  exact ⟨hfinds.number level, hfinds.truth level⟩

end Brushwork
