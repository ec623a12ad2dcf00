/-!
# Computations that may be refused

A computation in `Except` succeeds exactly when each of its steps does, and it is
refused for nothing but the reasons of its steps.
-/

namespace Brushwork

variable {ε α β : Type}

theorem bind_eq_ok_iff {x : Except ε α} {f : α → Except ε β} {b : β} :
    x >>= f = .ok b ↔ ∃ a, x = .ok a ∧ f a = .ok b := by
  cases x with
  | error e => simp [bind, Except.bind]
  | ok a => simp [bind, Except.bind]

@[simp] theorem ok_bind (a : α) (f : α → Except ε β) : (Except.ok a >>= f) = f a := rfl

@[simp] theorem error_bind (e : ε) (f : α → Except ε β) :
    (Except.error e >>= f) = Except.error e := rfl

theorem mapM_eq_ok_iff {f : α → Except ε β} {l : List α} {found : List β} :
    l.mapM f = .ok found ↔ l.map f = found.map .ok := by
  induction l generalizing found with
  | nil =>
    cases found with
    | nil => exact ⟨fun _ => rfl, fun _ => rfl⟩
    | cons b found => exact ⟨fun h => (nomatch h), fun h => (nomatch h)⟩
  | cons a l ih =>
    rw [List.mapM_cons, bind_eq_ok_iff, List.map_cons]
    constructor
    · rintro ⟨b, hb, h⟩
      obtain ⟨bs, hbs, heq⟩ := bind_eq_ok_iff.1 h
      cases heq
      rw [hb, ih.1 hbs]
      rfl
    · intro h
      cases found with
      | nil => cases h
      | cons b found =>
        obtain ⟨hb, hfound⟩ := List.cons_eq_cons.1 h
        exact ⟨b, hb, by rw [ih.2 hfound]; rfl⟩

theorem exists_mapM_eq_ok_iff {f : α → Except ε β} {l : List α} :
    (∃ found, l.mapM f = .ok found) ↔ ∀ a ∈ l, ∃ b, f a = .ok b := by
  induction l with
  | nil => exact ⟨fun _ _ h => (nomatch h), fun _ => ⟨[], rfl⟩⟩
  | cons a l ih =>
    rw [List.forall_mem_cons, ← ih]
    constructor
    · rintro ⟨found, h⟩
      rw [List.mapM_cons] at h
      obtain ⟨b, hb, h⟩ := bind_eq_ok_iff.1 h
      obtain ⟨bs, hbs, -⟩ := bind_eq_ok_iff.1 h
      exact ⟨⟨b, hb⟩, bs, hbs⟩
    · rintro ⟨⟨b, hb⟩, bs, hbs⟩
      exact ⟨b :: bs, by rw [List.mapM_cons, hb, ok_bind, hbs]; rfl⟩

/-- If the computation is refused, its reason has the property. -/
def RefusedFor (P : ε → Prop) (x : Except ε α) : Prop := ∀ e, x = .error e → P e

variable {P Q : ε → Prop}

theorem refusedFor_ok (a : α) : RefusedFor P (.ok a : Except ε α) := by
  intro e h
  cases h

theorem refusedFor_error {e : ε} (h : P e) : RefusedFor P (.error e : Except ε α) := by
  intro e' he
  cases he
  exact h

theorem RefusedFor.bind {x : Except ε α} {f : α → Except ε β} (hx : RefusedFor P x)
    (hf : ∀ a, RefusedFor P (f a)) : RefusedFor P (x >>= f) := by
  cases x with
  | error e => exact refusedFor_error (hx e rfl)
  | ok a => exact hf a

theorem RefusedFor.map {x : Except ε α} (hx : RefusedFor P x) (f : α → β) :
    RefusedFor P (x.map f) := by
  cases x with
  | error e => exact refusedFor_error (hx e rfl)
  | ok a => exact refusedFor_ok (f a)

theorem RefusedFor.mono {x : Except ε α} (hx : RefusedFor P x) (h : ∀ e, P e → Q e) :
    RefusedFor Q x :=
  fun e he => h e (hx e he)

end Brushwork
