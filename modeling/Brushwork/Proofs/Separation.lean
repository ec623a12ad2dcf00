/-!
# Lists cut at separators

A list is walked over with a state, and a separator cuts it only where the state is the
top one. Texts are cut at commas in this way, and so are tokens; what the two have in
common is here. Every list is whole, or a whole front that leads back to the top, then a
separator and another list (`Separation.induct`). Whatever is claimed of the parts is
proved along these two cases.
-/

namespace Brushwork

/-- How lists are cut: how the state goes on, and at which mark the top state cuts. -/
structure Separation (σ α : Type) where
  after : σ → α → σ
  top : σ
  mark : α
  /-- A mark that cuts leaves the state at the top. -/
  after_mark : after top mark = top

namespace Separation

variable {σ α : Type} (sep : Separation σ α)

/-- No mark of the list cuts it, from a given state on. -/
def Whole : σ → List α → Prop
  | _, [] => True
  | s, a :: rest => ¬ (s = sep.top ∧ a = sep.mark) ∧ Whole (sep.after s a) rest

theorem whole_iff {s : σ} {l : List α} :
    sep.Whole s l ↔ ∀ front rest, l = front ++ sep.mark :: rest →
      front.foldl sep.after s ≠ sep.top := by
  induction l generalizing s with
  | nil => simp [Whole]
  | cons a l ih =>
    rw [Whole, ih]
    constructor
    · rintro ⟨hfirst, hlater⟩ front rest heq
      cases front with
      | nil =>
        cases heq
        exact fun htop => hfirst ⟨htop, rfl⟩
      | cons b front =>
        cases heq
        exact hlater front rest rfl
    · intro h
      refine ⟨?_, fun front rest heq => ?_⟩
      · rintro ⟨htop, rfl⟩
        exact h [] l rfl htop
      · exact h (a :: front) rest (by rw [heq]; rfl)

theorem whole_append {s : σ} {front rest : List α} :
    sep.Whole s (front ++ rest) ↔
      sep.Whole s front ∧ sep.Whole (front.foldl sep.after s) rest := by
  induction front generalizing s with
  | nil => exact (and_iff_right trivial).symm
  | cons a front ih => rw [List.cons_append, Whole, Whole, ih, List.foldl_cons, and_assoc]

/-- The front of a list ends where it is cut. -/
structure EndsAtTop (front : List α) : Prop where
  whole : sep.Whole sep.top front
  foldl_eq : front.foldl sep.after sep.top = sep.top

theorem whole_or_exists_front (s : σ) (l : List α) :
    sep.Whole s l ∨ ∃ front rest, l = front ++ sep.mark :: rest ∧ sep.Whole s front ∧
      front.foldl sep.after s = sep.top := by
  induction l generalizing s with
  | nil => exact .inl trivial
  | cons a l ih =>
    by_cases hcut : s = sep.top ∧ a = sep.mark
    · obtain ⟨htop, rfl⟩ := hcut
      exact .inr ⟨[], l, rfl, trivial, htop⟩
    · rcases ih (sep.after s a) with hwhole | ⟨front, rest, rfl, hwhole, htop⟩
      · exact .inl ⟨hcut, hwhole⟩
      · exact .inr ⟨a :: front, rest, rfl, ⟨hcut, hwhole⟩, htop⟩

/-- A list is whole, or it is cut for the first time after a front that ends at the top. -/
@[elab_as_elim]
theorem induct {motive : List α → Prop} (whole : ∀ l, sep.Whole sep.top l → motive l)
    (cut : ∀ front rest, sep.EndsAtTop front → motive rest →
      motive (front ++ sep.mark :: rest)) (l : List α) : motive l := by
  induction hlength : l.length using Nat.strongRecOn generalizing l with
  | _ n ih =>
    rcases sep.whole_or_exists_front sep.top l with hwhole | ⟨front, rest, rfl, hwhole, htop⟩
    · exact whole l hwhole
    · have hshorter : rest.length < n := by
        rw [← hlength, List.length_append, List.length_cons]
        omega
      exact cut front rest ⟨hwhole, htop⟩ (ih rest.length hshorter rest rfl)

variable [DecidableEq σ] [DecidableEq α]

instance decidableWhole : (s : σ) → (l : List α) → Decidable (sep.Whole s l)
  | _, [] => inferInstanceAs (Decidable True)
  | s, a :: rest =>
    have := decidableWhole (sep.after s a) rest
    inferInstanceAs (Decidable (¬ (s = sep.top ∧ a = sep.mark) ∧ sep.Whole (sep.after s a) rest))

/-- The parts of a list between its cuts, from a given state on. -/
def partsFrom : σ → List α → List (List α)
  | _, [] => [[]]
  | s, a :: rest =>
    if s = sep.top ∧ a = sep.mark then [] :: partsFrom (sep.after s a) rest
    else (partsFrom (sep.after s a) rest).modifyHead (a :: ·)

def parts (l : List α) : List (List α) := sep.partsFrom sep.top l

theorem partsFrom_of_whole {s : σ} {l : List α} (h : sep.Whole s l) : sep.partsFrom s l = [l] := by
  induction l generalizing s with
  | nil => rfl
  | cons a l ih =>
    rw [partsFrom, if_neg h.1, ih h.2]
    rfl

theorem partsFrom_append {s : σ} {front : List α} (hwhole : sep.Whole s front)
    (htop : front.foldl sep.after s = sep.top) (rest : List α) :
    sep.partsFrom s (front ++ sep.mark :: rest) = front :: sep.parts rest := by
  induction front generalizing s with
  | nil =>
    obtain rfl : s = sep.top := htop
    rw [List.nil_append, partsFrom, if_pos ⟨rfl, rfl⟩, sep.after_mark]
    rfl
  | cons a front ih =>
    rw [List.cons_append, partsFrom, if_neg hwhole.1, ih hwhole.2 htop]
    rfl

theorem parts_of_whole {l : List α} (h : sep.Whole sep.top l) : sep.parts l = [l] :=
  sep.partsFrom_of_whole h

theorem parts_append {front : List α} (h : sep.EndsAtTop front) (rest : List α) :
    sep.parts (front ++ sep.mark :: rest) = front :: sep.parts rest :=
  sep.partsFrom_append h.whole h.foldl_eq rest

theorem parts_ne_nil (l : List α) : sep.parts l ≠ [] := by
  induction l using sep.induct with
  | whole l h => simp [sep.parts_of_whole h]
  | cut front rest h _ => simp [sep.parts_append h]

/-- The parts with the mark between each two are the list. -/
theorem intercalate_parts (l : List α) : [sep.mark].intercalate (sep.parts l) = l := by
  induction l using sep.induct with
  | whole l h => simp [sep.parts_of_whole h]
  | cut front rest h ih =>
    obtain ⟨first, others, hparts⟩ := List.exists_cons_of_ne_nil (sep.parts_ne_nil rest)
    rw [sep.parts_append h, hparts, List.intercalate_cons_cons, ← hparts, ih]
    simp

end Separation

end Brushwork
