import Mathlib.Order.Lattice
import Brushwork.Canvas.Search

/-!
# What the searches find

`turningPoint` separates the numbers at which a predicate holds from those at
which it fails. `stretchWithin` therefore finds exactly the numbers at which a
monotone function stays between two bounds, whether the function rises or falls.
-/

namespace Brushwork

/-- A function that never falls, or never rises, on the numbers from `first` to `last`. -/
def MonotoneWithin (f : Int → Int) (first last : Int) : Prop :=
  (∀ a b, first ≤ a → a ≤ b → b ≤ last → f a ≤ f b) ∨
    ∀ a b, first ≤ a → a ≤ b → b ≤ last → f b ≤ f a

namespace MonotoneWithin

variable {f : Int → Int} {first last : Int}

theorem subinterval (h : MonotoneWithin f first last) {first' last' : Int}
    (hfirst : first ≤ first') (hlast : last' ≤ last) : MonotoneWithin f first' last' := by
  rcases h with h | h
  · exact .inl fun a b ha hab hb => h a b (hfirst.trans ha) hab (hb.trans hlast)
  · exact .inr fun a b ha hab hb => h a b (hfirst.trans ha) hab (hb.trans hlast)

theorem rising (h : MonotoneWithin f first last) (hends : f first ≤ f last) :
    ∀ a b, first ≤ a → a ≤ b → b ≤ last → f a ≤ f b := by
  rcases h with h | h
  · exact h
  · intro a b ha hab hb
    calc f a ≤ f first := h first a le_rfl ha (hab.trans hb)
      _ ≤ f last := hends
      _ ≤ f b := h b last (ha.trans hab) hb le_rfl

theorem falling (h : MonotoneWithin f first last) (hends : f last < f first) :
    ∀ a b, first ≤ a → a ≤ b → b ≤ last → f b ≤ f a := by
  rcases h with h | h
  · intro a b ha hab hb
    exact absurd (h first last le_rfl (by omega) le_rfl) (not_le.2 hends)
  · exact h

theorem between (h : MonotoneWithin f first last) {k : Int} (hk : first ≤ k) (hk' : k ≤ last) :
    min (f first) (f last) ≤ f k ∧ f k ≤ max (f first) (f last) := by
  rcases h with h | h
  · have hleft := h first k le_rfl hk hk'
    have hright := h k last hk hk' le_rfl
    omega
  · have hleft := h first k le_rfl hk hk'
    have hright := h k last hk hk' le_rfl
    omega

theorem affine (h : MonotoneWithin f first last) (c d : Int) :
    MonotoneWithin (fun k => c + d * f k) first last := by
  have hup : 0 ≤ d → ∀ {m n : Int}, m ≤ n → c + d * m ≤ c + d * n := fun hd _ _ hmn =>
    Int.add_le_add_left (Int.mul_le_mul_of_nonneg_left hmn hd) c
  have hdown : d ≤ 0 → ∀ {m n : Int}, m ≤ n → c + d * n ≤ c + d * m := fun hd _ _ hmn =>
    Int.add_le_add_left (Int.mul_le_mul_of_nonpos_left hd hmn) c
  rcases le_total 0 d with hd | hd
  · rcases h with h | h
    · exact .inl fun a b ha hab hb => hup hd (h a b ha hab hb)
    · exact .inr fun a b ha hab hb => hup hd (h a b ha hab hb)
  · rcases h with h | h
    · exact .inr fun a b ha hab hb => hdown hd (h a b ha hab hb)
    · exact .inl fun a b ha hab hb => hdown hd (h a b ha hab hb)

end MonotoneWithin

theorem monotoneWithin_id (first last : Int) : MonotoneWithin (fun k => k) first last :=
  .inl fun _ _ _ hab _ => hab

/-- A predicate that never holds again once it has failed holds exactly below its turning point. -/
theorem turningPoint_spec (p : Int → Bool) (lo hi : Int) (hle : lo ≤ hi)
    (hp : ∀ a b, lo ≤ a → a ≤ b → b < hi → p b = true → p a = true) :
    lo ≤ turningPoint p lo hi ∧ turningPoint p lo hi ≤ hi ∧
      ∀ k, lo ≤ k → k < hi → (p k = true ↔ k < turningPoint p lo hi) := by
  fun_induction turningPoint p lo hi with
  | case1 lo hi hlt mid hmid ih =>
    obtain ⟨hlow, hhigh, hturn⟩ := ih (by omega) fun a b ha => hp a b (by omega)
    refine ⟨by omega, hhigh, fun k hk hk' => ?_⟩
    by_cases h : k ≤ mid
    · have hpk := hp k mid hk h (by omega) hmid
      exact ⟨fun _ => by omega, fun _ => hpk⟩
    · exact hturn k (by omega) hk'
  | case2 lo hi hlt mid hmid ih =>
    obtain ⟨hlow, hhigh, hturn⟩ := ih (by omega) fun a b ha hab hb => hp a b ha hab (by omega)
    refine ⟨hlow, by omega, fun k hk hk' => ?_⟩
    by_cases h : k < mid
    · exact hturn k hk h
    · have hpk : ¬ p k = true := fun hpk => hmid (hp mid k (by omega) (by omega) hk' hpk)
      exact ⟨fun h => absurd h hpk, fun _ => by omega⟩
  | case3 lo hi hlt =>
    exact ⟨le_refl lo, hle, fun k hk hk' => by omega⟩

/-- `start` and `stop` enclose exactly those of the numbers `first, …, last` at which a function
lies between two bounds. -/
structure IsStretch (f : Int → Int) (first last low high start stop : Int) : Prop where
  first_le_start : first ≤ start
  start_le : start ≤ last + 1
  first_le_stop : first ≤ stop
  stop_le : stop ≤ last + 1
  /-- The bounds may cross by one, as those of an empty grid do. -/
  start_le_stop : low ≤ high + 1 → start ≤ stop
  mem_iff : ∀ k, first ≤ k → k ≤ last → (low ≤ f k ∧ f k ≤ high ↔ start ≤ k ∧ k < stop)

/-- The turning points of two predicates enclose the numbers at which the first fails and the
second holds. -/
private theorem isStretch_turningPoints {f : Int → Int} {first last low high : Int}
    {p q : Int → Bool} (hle : first ≤ last)
    (hp : ∀ a b, first ≤ a → a ≤ b → b ≤ last → p b = true → p a = true)
    (hq : ∀ a b, first ≤ a → a ≤ b → b ≤ last → q b = true → q a = true)
    (hpq : low ≤ high + 1 → ∀ k, p k = true → q k = true)
    (hmem : ∀ k, low ≤ f k ∧ f k ≤ high ↔ ¬ p k = true ∧ q k = true) :
    IsStretch f first last low high (turningPoint p first (last + 1))
      (turningPoint q first (last + 1)) := by
  obtain ⟨hp₁, hp₂, hturn⟩ := turningPoint_spec p first (last + 1) (by omega)
    fun a b ha hab hb => hp a b ha hab (by omega)
  obtain ⟨hq₁, hq₂, hturn'⟩ := turningPoint_spec q first (last + 1) (by omega)
    fun a b ha hab hb => hq a b ha hab (by omega)
  refine ⟨hp₁, hp₂, hq₁, hq₂, fun hbounds => ?_, fun k hk hk' => ?_⟩
  · by_contra hlt
    have hpk := (hturn _ hq₁ (by omega)).2 (not_le.1 hlt)
    exact lt_irrefl _ ((hturn' _ hq₁ (by omega)).1 (hpq hbounds _ hpk))
  · rw [hmem, hturn k hk (by omega), hturn' k hk (by omega), not_lt]

/-- The stretch of a monotone function between two bounds, however it runs. -/
theorem isStretch_stretchWithin {f : Int → Int} {first last : Int} (low high : Int)
    (hle : first ≤ last) (h : MonotoneWithin f first last) :
    IsStretch f first last low high (stretchWithin f first last low high).1
      (stretchWithin f first last low high).2 := by
  rcases le_or_gt (f first) (f last) with hends | hends
  · have hmono := h.rising hends
    rw [stretchWithin, if_pos hends]
    apply isStretch_turningPoints hle
    · intro a b ha hab hb
      have := hmono a b ha hab hb
      simp only [decide_eq_true_eq]
      omega
    · intro a b ha hab hb
      have := hmono a b ha hab hb
      simp only [decide_eq_true_eq]
      omega
    · intro hbounds k
      simp only [decide_eq_true_eq]
      omega
    · intro k
      simp only [decide_eq_true_eq]
      omega
  · have hanti := h.falling hends
    rw [stretchWithin, if_neg (not_le.2 hends)]
    apply isStretch_turningPoints hle
    · intro a b ha hab hb
      have := hanti a b ha hab hb
      simp only [decide_eq_true_eq]
      omega
    · intro a b ha hab hb
      have := hanti a b ha hab hb
      simp only [decide_eq_true_eq]
      omega
    · intro hbounds k
      simp only [decide_eq_true_eq]
      omega
    · intro k
      simp only [decide_eq_true_eq]
      omega

end Brushwork
