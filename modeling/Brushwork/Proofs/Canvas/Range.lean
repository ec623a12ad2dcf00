import Brushwork.Canvas.Wide
import Brushwork.Proofs.Canvas.Search
import Brushwork.Proofs.Refusal

/-!
# Searching for a range in numbers of 128 bits

`rangeWithin` gives the first and the last number at which a monotone function lies
between two bounds, or nothing if there is none. In numbers of 128 bits the search
gives the same or it is trapped: at the number behind the interval, at the length of
the interval or at the number before it, if one of these is too great for a word. It
asks for nothing outside the interval.
-/

namespace Brushwork

/-- A computation gives one value and no other, and it gives it where it is safe. -/
structure Wide.Computes {α : Type} (x : Wide α) (a : α) (safe : Prop) : Prop where
  sound : ∀ b, x = .ok b → b = a
  total : safe → x = .ok a

namespace Wide

variable {α β : Type} {x : Wide α} {a : α} {b : β} {f : α → Wide β} {safe safe' : Prop} {n : Int}

theorem signed_eq_ok (h : leastWide ≤ n ∧ n ≤ greatestWide) : signed n = .ok n := if_pos h

theorem signed_eq_error (h : ¬ (leastWide ≤ n ∧ n ≤ greatestWide)) :
    signed n = .error (.signed n) := if_neg h

theorem computes_ok (a : α) (safe : Prop) : Computes (.ok a) a safe where
  sound _ h := (Except.ok.inj h).symm
  total _ := rfl

theorem computes_signed (h : safe → leastWide ≤ n ∧ n ≤ greatestWide) :
    Computes (signed n) n safe where
  sound m hm := by
    by_cases hn : leastWide ≤ n ∧ n ≤ greatestWide
    · rw [signed_eq_ok hn] at hm
      exact (Except.ok.inj hm).symm
    · rw [signed_eq_error hn] at hm
      cases hm
  total hsafe := signed_eq_ok (h hsafe)

theorem Computes.bind (hx : Computes x a safe) (hf : Computes (f a) b safe) :
    Computes (x >>= f) b safe where
  sound c hc := by
    obtain ⟨a', ha', hc⟩ := bind_eq_ok_iff.1 hc
    rw [hx.sound a' ha'] at hc
    exact hf.sound c hc
  total hsafe := by rw [hx.total hsafe, ok_bind, hf.total hsafe]

theorem Computes.mono (hx : Computes x a safe) (h : safe' → safe) : Computes x a safe' where
  sound := hx.sound
  total hsafe := hx.total (h hsafe)

end Wide

open Wide

/-- The numbers between two others and the distance of these fit words of 128 bits. -/
structure RoomBetween (lo hi : Int) : Prop where
  le_lo : leastWide ≤ lo
  hi_le : hi ≤ greatestWide
  distance_le : hi - lo ≤ greatestWide

namespace RoomBetween

variable {lo hi : Int}

theorem mono (h : RoomBetween lo hi) {lo' hi' : Int} (hlo : lo ≤ lo') (hhi : hi' ≤ hi) :
    RoomBetween lo' hi' where
  le_lo := h.le_lo.trans hlo
  hi_le := hhi.trans h.hi_le
  distance_le := by
    have := h.distance_le
    omega

theorem fits (h : RoomBetween lo hi) {n : Int} (hlo : lo ≤ n) (hhi : n ≤ hi) :
    leastWide ≤ n ∧ n ≤ greatestWide :=
  ⟨h.le_lo.trans hlo, hhi.trans h.hi_le⟩

theorem distance_fits (h : RoomBetween lo hi) (hlt : lo < hi) :
    leastWide ≤ hi - lo ∧ hi - lo ≤ greatestWide := by
  have hzero : leastWide ≤ 0 := by decide
  exact ⟨by omega, h.distance_le⟩

end RoomBetween

section Searching

variable {f : Int → Wide Int} {g : Int → Int} {first last : Int}

/-- Only the answers between the ends matter. -/
theorem computes_turningPointWide {p : Int → Wide Bool} {q : Int → Bool} {lo hi : Int}
    (hp : ∀ k, lo ≤ k → k < hi → p k = .ok (q k)) :
    Computes (turningPointWide p lo hi) (turningPoint q lo hi) (RoomBetween lo hi) := by
  fun_induction turningPoint q lo hi with
  | case1 lo hi hlt mid hmid ih =>
    rw [turningPointWide, if_pos hlt]
    apply (computes_signed fun hroom => hroom.distance_fits hlt).bind
    dsimp only
    apply (computes_signed fun hroom => hroom.fits (by omega) (by omega)).bind
    rw [hp mid (by omega) (by omega), ok_bind, if_pos hmid]
    apply (computes_signed fun hroom => hroom.fits (by omega) (by omega)).bind
    have hrest := ih fun k hk => hp k (by omega)
    exact hrest.mono fun hroom => hroom.mono (by omega) le_rfl
  | case2 lo hi hlt mid hmid ih =>
    rw [turningPointWide, if_pos hlt]
    apply (computes_signed fun hroom => hroom.distance_fits hlt).bind
    dsimp only
    apply (computes_signed fun hroom => hroom.fits (by omega) (by omega)).bind
    rw [hp mid (by omega) (by omega), ok_bind, if_neg hmid]
    have hrest := ih fun k hk hk' => hp k hk (by omega)
    exact hrest.mono fun hroom => hroom.mono le_rfl (by omega)
  | case3 lo hi hlt =>
    rw [turningPointWide, if_neg hlt]
    exact computes_ok lo _

theorem computes_searchWide (h : first ≤ last)
    (hf : ∀ k, first ≤ k → k ≤ last → f k = .ok (g k)) (p : Int → Bool) :
    Computes (searchWide f first last p) (turningPoint (fun k => p (g k)) first (last + 1))
      (RoomBetween first (last + 1)) := by
  rw [searchWide]
  apply (computes_signed fun hroom => hroom.fits (by omega) le_rfl).bind
  apply computes_turningPointWide
  intro k hk hk'
  rw [hf k hk (by omega)]
  rfl

theorem turningPoint_bounds (p : Int → Bool) {lo hi : Int} (h : lo ≤ hi) :
    lo ≤ turningPoint p lo hi ∧ turningPoint p lo hi ≤ hi := by
  fun_induction turningPoint p lo hi with
  | case1 lo hi hlt mid hmid ih =>
    have hrest := ih (by omega)
    omega
  | case2 lo hi hlt mid hmid ih =>
    have hrest := ih (by omega)
    omega
  | case3 lo hi hlt => exact ⟨le_rfl, h⟩

theorem stretchWithin_bounds (f : Int → Int) (low high : Int) (h : first ≤ last) :
    (first ≤ (stretchWithin f first last low high).1 ∧
        (stretchWithin f first last low high).1 ≤ last + 1) ∧
      first ≤ (stretchWithin f first last low high).2 ∧
        (stretchWithin f first last low high).2 ≤ last + 1 := by
  have hbeyond : first ≤ last + 1 := by omega
  rw [stretchWithin]
  split
  · exact ⟨turningPoint_bounds _ hbeyond, turningPoint_bounds _ hbeyond⟩
  · exact ⟨turningPoint_bounds _ hbeyond, turningPoint_bounds _ hbeyond⟩

theorem rangeWithin_eq (f : Int → Int) (first last low high : Int) :
    rangeWithin f first last low high =
      if (stretchWithin f first last low high).1 < (stretchWithin f first last low high).2 then
        some ((stretchWithin f first last low high).1, (stretchWithin f first last low high).2 - 1)
      else none := rfl

theorem rangeWithin_bounds {f : Int → Int} {low high start stop : Int} (h : first ≤ last)
    (hrange : rangeWithin f first last low high = some (start, stop)) :
    first ≤ start ∧ start ≤ stop ∧ stop ≤ last := by
  obtain ⟨⟨hstart, -⟩, -, hstop⟩ := stretchWithin_bounds f low high h
  rw [rangeWithin_eq] at hrange
  generalize stretchWithin f first last low high = s at hrange hstart hstop
  split at hrange
  · obtain ⟨rfl, rfl⟩ := Prod.mk.inj (Option.some.inj hrange)
    omega
  · cases hrange

/-- The two ends of the stretch are found by two searches. -/
theorem stretchWithin_eq (g : Int → Int) (first last low high : Int) :
    stretchWithin g first last low high =
      (turningPoint (fun k => if g first ≤ g last then g k < low else high < g k) first (last + 1),
        turningPoint (fun k => if g first ≤ g last then g k ≤ high else low ≤ g k) first
          (last + 1)) := by
  rw [stretchWithin]
  split
  · simp only [*]
  · simp only [*]

/-- The number before the interval is computed as well, so it has to fit. -/
theorem computes_rangeWithinWide (low high : Int) (h : first ≤ last)
    (hf : ∀ k, first ≤ k → k ≤ last → f k = .ok (g k)) :
    Computes (rangeWithinWide f first last low high) (rangeWithin g first last low high)
      (leastWide < first ∧ RoomBetween first (last + 1)) := by
  obtain ⟨-, hstop, hstop'⟩ := stretchWithin_bounds g low high h
  rw [rangeWithinWide, rangeWithin_eq]
  rw [stretchWithin_eq] at hstop hstop' ⊢
  rw [hf first le_rfl h, ok_bind, hf last h le_rfl, ok_bind]
  apply ((computes_searchWide h hf _).mono And.right).bind
  apply ((computes_searchWide h hf _).mono And.right).bind
  refine (computes_signed fun hsafe => ?_).bind ?_
  · obtain ⟨hfirst, hroom⟩ := hsafe
    have hlast := hroom.hi_le
    dsimp only at hstop hstop'
    omega
  · rw [← if_congr Int.le_sub_one_iff rfl rfl]
    exact computes_ok _ _

theorem turningPointWide_congr {p q : Int → Wide Bool} {lo hi : Int}
    (h : ∀ k, lo ≤ k → k < hi → p k = q k) :
    turningPointWide p lo hi = turningPointWide q lo hi := by
  induction hn : (hi - lo).toNat using Nat.strongRecOn generalizing lo hi with
  | ind n ih =>
    by_cases hlt : lo < hi
    · have hbelow : turningPointWide p lo (lo + (hi - lo) / 2) =
          turningPointWide q lo (lo + (hi - lo) / 2) :=
        ih _ (by omega) (fun k hk hk' => h k hk (by omega)) rfl
      have habove : turningPointWide p (lo + (hi - lo) / 2 + 1) hi =
          turningPointWide q (lo + (hi - lo) / 2 + 1) hi :=
        ih _ (by omega) (fun k hk hk' => h k (by omega) hk') rfl
      rw [turningPointWide, if_pos hlt, turningPointWide, if_pos hlt]
      dsimp only
      rw [h (lo + (hi - lo) / 2) (by omega) (by omega), hbelow, habove]
    · rw [turningPointWide, if_neg hlt, turningPointWide, if_neg hlt]

/-- The search calls the function within its interval only: whatever calls elsewhere would do is
not done. -/
theorem rangeWithinWide_congr {f' : Int → Wide Int} (low high : Int) (h : first ≤ last)
    (hf : ∀ k, first ≤ k → k ≤ last → f' k = f k) :
    rangeWithinWide f' first last low high = rangeWithinWide f first last low high := by
  have hsearch : searchWide f' first last = searchWide f first last := by
    funext p
    have hcalls : turningPointWide (fun k => do return p (← f' k)) first (last + 1) =
        turningPointWide (fun k => do return p (← f k)) first (last + 1) := by
      apply turningPointWide_congr
      intro k hk hk'
      rw [hf k hk (by omega)]
    by_cases hfits : leastWide ≤ last + 1 ∧ last + 1 ≤ greatestWide
    · rw [searchWide, searchWide, signed_eq_ok hfits, ok_bind, ok_bind, hcalls]
    · rw [searchWide, searchWide, signed_eq_error hfits, error_bind, error_bind]
  rw [rangeWithinWide, rangeWithinWide, hf first le_rfl h, hf last h le_rfl, hsearch]

theorem rangeWithin_spec (g : Int → Int) (low high : Int) (hle : first ≤ last)
    (h : MonotoneWithin g first last) :
    (∀ start stop, rangeWithin g first last low high = some (start, stop) →
      (first ≤ start ∧ start ≤ stop ∧ stop ≤ last) ∧
        ∀ k, first ≤ k → k ≤ last → (low ≤ g k ∧ g k ≤ high ↔ start ≤ k ∧ k ≤ stop)) ∧
    (rangeWithin g first last low high = none ↔
      ∀ k, first ≤ k → k ≤ last → ¬ (low ≤ g k ∧ g k ≤ high)) := by
  have hs := isStretch_stretchWithin low high hle h
  have hfirst := hs.first_le_start
  have hlast := hs.stop_le
  rw [rangeWithin_eq]
  generalize stretchWithin g first last low high = s at hs hfirst hlast ⊢
  by_cases hlt : s.1 < s.2
  · have hmem := (hs.mem_iff s.1 hfirst (by omega)).2 ⟨le_rfl, hlt⟩
    rw [if_pos hlt]
    refine ⟨fun start stop hrange => ?_, iff_of_false (Option.some_ne_none _) fun hnone =>
      hnone s.1 hfirst (by omega) hmem⟩
    obtain ⟨rfl, rfl⟩ := Prod.mk.inj (Option.some.inj hrange)
    refine ⟨by omega, fun k hk hk' => ?_⟩
    rw [hs.mem_iff k hk hk', Int.le_sub_one_iff]
  · rw [if_neg hlt]
    refine ⟨fun start stop hrange => (nomatch hrange), iff_of_true rfl fun k hk hk' hmem => ?_⟩
    have hbetween := (hs.mem_iff k hk hk').1 hmem
    omega

/-- A search is trapped at the number behind its interval, if that fits no word, and else at the
length of the interval, if that does not. -/
theorem rangeWithinWide_trapped (low high : Int) (h : first ≤ last) (hfirst : leastWide ≤ first)
    (hf : ∀ k, first ≤ k → k ≤ last → f k = .ok (g k)) :
    (greatestWide < last + 1 →
      rangeWithinWide f first last low high = .error (.signed (last + 1))) ∧
    (last + 1 ≤ greatestWide → greatestWide < last + 1 - first →
      rangeWithinWide f first last low high = .error (.signed (last + 1 - first))) := by
  have hsearch : ∀ trap, (∀ p, searchWide f first last p = .error trap) →
      rangeWithinWide f first last low high = .error trap := by
    intro trap htrap
    rw [rangeWithinWide, hf first le_rfl h, ok_bind, hf last h le_rfl, ok_bind, htrap, error_bind]
  refine ⟨fun hafter => hsearch _ fun p => ?_, fun hafter hlength => hsearch _ fun p => ?_⟩
  · rw [searchWide, signed_eq_error (by omega), error_bind]
  · rw [searchWide, signed_eq_ok (by omega), ok_bind, turningPointWide, if_pos (by omega),
      signed_eq_error (by omega), error_bind]

end Searching

/-- In numbers of 128 bits the search ends with the range of those numbers of an interval at which a
monotone function lies between two bounds, and with nothing exactly when there are none, unless it
is trapped. It is trapped if the number behind the interval or the length of the interval fits no
word, and not if these fit and there is a number before the interval. It calls the function within
the interval only. -/
theorem rangeWithinWide_finds_range {f : Int → Wide Int} {g : Int → Int} {first last : Int}
    (low high : Int) (hfirst : leastWide ≤ first) (hle : first ≤ last)
    (h : MonotoneWithin g first last) (hf : ∀ k, first ≤ k → k ≤ last → f k = .ok (g k)) :
    let search := rangeWithinWide f first last low high
    (∀ start stop, search = .ok (some (start, stop)) →
      (first ≤ start ∧ start ≤ stop ∧ stop ≤ last) ∧
        ∀ k, first ≤ k → k ≤ last → (low ≤ g k ∧ g k ≤ high ↔ start ≤ k ∧ k ≤ stop)) ∧
    (∀ found, search = .ok found →
      (found = none ↔ ∀ k, first ≤ k → k ≤ last → ¬ (low ≤ g k ∧ g k ≤ high))) ∧
    (leastWide < first → last + 1 ≤ greatestWide → last + 1 - first ≤ greatestWide →
      ∃ found, search = .ok found) ∧
    (greatestWide < last + 1 → search = .error (.signed (last + 1))) ∧
    (last + 1 ≤ greatestWide → greatestWide < last + 1 - first →
      search = .error (.signed (last + 1 - first))) ∧
    ∀ f' : Int → Wide Int, (∀ k, first ≤ k → k ≤ last → f' k = f k) →
      rangeWithinWide f' first last low high = search := by
  intro search
  obtain ⟨hsome, hnone⟩ := rangeWithin_spec g low high hle h
  have hcomputes := computes_rangeWithinWide low high hle hf
  have htrapped := rangeWithinWide_trapped low high hle hfirst hf
  refine ⟨fun start stop hsearch => ?_, fun found hsearch => ?_, fun hbefore hafter hlength => ?_,
    htrapped.1, htrapped.2, fun f' hf' => rangeWithinWide_congr low high hle hf'⟩
  · exact hsome start stop (hcomputes.sound _ hsearch).symm
  · rw [hcomputes.sound _ hsearch]
    exact hnone
  · exact ⟨_, hcomputes.total ⟨hbefore, hfirst, hafter, hlength⟩⟩

/-- A falling function on the last numbers but one, whose calls elsewhere would be trapped. -/
theorem rangeWithinWide_finds_range_falling :
    let g : Int → Int := fun k => greatestWide - 10 - k
    let f : Int → Wide Int := fun k =>
      if greatestWide - 20 ≤ k ∧ k ≤ greatestWide - 1 then .ok (g k) else .error (.signed k)
    rangeWithinWide f (greatestWide - 20) (greatestWide - 1) (-3) 3 =
        .ok (some (greatestWide - 13, greatestWide - 7)) ∧
      ∀ k, greatestWide - 20 ≤ k → k ≤ greatestWide - 1 →
        (-3 ≤ g k ∧ g k ≤ 3 ↔ greatestWide - 13 ≤ k ∧ k ≤ greatestWide - 7) := by
  intro g f
  have hfalling : MonotoneWithin g (greatestWide - 20) (greatestWide - 1) := by
    refine .inr fun a b ha hab hb => ?_
    simp only [g]
    omega
  obtain ⟨hsome, -⟩ := rangeWithinWide_finds_range (f := f) (-3) 3
    (by decide) (by decide) hfalling fun k hk hk' => if_pos ⟨hk, hk'⟩
  have hrange : rangeWithinWide f (greatestWide - 20) (greatestWide - 1) (-3) 3 =
      .ok (some (greatestWide - 13, greatestWide - 7)) := by
    decide +kernel
  exact ⟨hrange, (hsome _ _ hrange).2⟩

end Brushwork
