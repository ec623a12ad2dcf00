import Mathlib.Logic.Relation
import Brushwork.Agent.Basic
import Brushwork.Proofs.Canvas.Cells

/-!
# Filling recolors one region

Two neighboring places of a canvas adjoin when they have the same color, and a
region is what chains of adjoining places join. While a fill spreads, every
recolored cell belongs to the region of the seed, and its neighbors of the old
color are waiting unless the cell itself is on the worklist. When the worklist is
empty, the recolored cells are therefore the whole region.
-/

namespace Brushwork

theorem Point.mem_neighbors_comm {p q : Point} : q ∈ p.neighbors ↔ p ∈ q.neighbors := by
  obtain ⟨px, py⟩ := p
  obtain ⟨qx, qy⟩ := q
  simp only [neighbors, List.mem_cons, Point.mk.injEq, List.not_mem_nil, or_false]
  omega

namespace Canvas

/-- Neighboring places of the canvas that have the same color. -/
def Adjoins (canvas : Canvas) (p q : Point) : Prop :=
  q ∈ p.neighbors ∧ ∃ color, canvas.pixel? p = some color ∧ canvas.pixel? q = some color

/-- Places joined by a chain of adjoining places. -/
def Joined (canvas : Canvas) : Point → Point → Prop := Relation.ReflTransGen canvas.Adjoins

theorem Adjoins.symm {canvas : Canvas} {p q : Point} (h : canvas.Adjoins p q) :
    canvas.Adjoins q p := by
  obtain ⟨hmem, color, hp, hq⟩ := h
  exact ⟨Point.mem_neighbors_comm.1 hmem, color, hq, hp⟩

theorem Joined.symm {canvas : Canvas} {p q : Point} (h : canvas.Joined p q) :
    canvas.Joined q p := by
  induction h with
  | refl => exact .refl
  | tail _ hstep ih => exact .head hstep.symm ih

theorem Joined.pixel?_eq {canvas : Canvas} {p q : Point} (h : canvas.Joined p q) :
    canvas.pixel? q = canvas.pixel? p := by
  induction h with
  | refl => rfl
  | tail _ hstep ih =>
    obtain ⟨_, color, hb, hc⟩ := hstep
    rw [hc, ← hb, ih]

/-- A neighbor of a place of the region that has the color of the region belongs to it. -/
theorem Joined.extend {canvas : Canvas} {seed p q : Point} {color : Color}
    (h : canvas.Joined seed p) (hseed : canvas.pixel? seed = some color)
    (hmem : q ∈ p.neighbors) (hq : canvas.pixel? q = some color) : canvas.Joined seed q :=
  h.tail ⟨hmem, color, h.pixel?_eq.trans hseed, hq⟩

section Reach

variable {old new : Color}

theorem pixel?_reach (state : Canvas × List Point) (p q : Point) :
    (reach old new state p).1.pixel? q =
      if q = p ∧ state.1.pixel? p = some old then some new else state.1.pixel? q := by
  simp only [reach, isColor_iff]
  by_cases hp : state.1.pixel? p = some old
  · simp [hp, pixel?_recolor (inBounds_of_pixel?_eq_some hp)]
  · simp [hp]

theorem mem_reach (state : Canvas × List Point) (p q : Point) :
    q ∈ (reach old new state p).2 ↔ q = p ∧ state.1.pixel? p = some old ∨ q ∈ state.2 := by
  simp only [reach, isColor_iff]
  by_cases hp : state.1.pixel? p = some old <;> simp [hp]

theorem frame_reach (old new : Color) (state : Canvas × List Point) (p : Point) :
    (reach old new state p).1.size = state.1.size ∧
      (reach old new state p).1.background = state.1.background := by
  simp only [reach]
  split <;> exact ⟨rfl, rfl⟩

theorem pixel?_foldl_reach (h : new ≠ old) (ps : List Point) (state : Canvas × List Point)
    (q : Point) :
    (ps.foldl (reach old new) state).1.pixel? q =
      if q ∈ ps ∧ state.1.pixel? q = some old then some new else state.1.pixel? q := by
  induction ps generalizing state with
  | nil => simp
  | cons p ps ih =>
    rw [List.foldl_cons, ih, pixel?_reach]
    by_cases hq : q = p
    · subst hq
      by_cases hold : state.1.pixel? q = some old <;> simp [hold, h]
    · simp [hq]

theorem mem_foldl_reach (h : new ≠ old) (ps : List Point) (state : Canvas × List Point)
    (q : Point) :
    q ∈ (ps.foldl (reach old new) state).2 ↔
      q ∈ ps ∧ state.1.pixel? q = some old ∨ q ∈ state.2 := by
  induction ps generalizing state with
  | nil => simp
  | cons p ps ih =>
    rw [List.foldl_cons, ih, mem_reach, pixel?_reach]
    by_cases hq : q = p
    · subst hq
      by_cases hold : state.1.pixel? q = some old <;> simp [hold, h]
    · simp [hq]

theorem frame_foldl_reach (old new : Color) (ps : List Point) (state : Canvas × List Point) :
    (ps.foldl (reach old new) state).1.size = state.1.size ∧
      (ps.foldl (reach old new) state).1.background = state.1.background := by
  induction ps generalizing state with
  | nil => exact ⟨rfl, rfl⟩
  | cons p ps ih =>
    obtain ⟨hsize, hbackground⟩ := frame_reach old new state p
    rw [List.foldl_cons, (ih _).1, (ih _).2]
    exact ⟨hsize, hbackground⟩

end Reach

/-- What holds while a fill spreads from a seed, of the canvas before it, the canvas so far and the
worklist. -/
structure Spreading (before : Canvas) (seed : Point) (old new : Color)
    (state : Canvas × List Point) : Prop where
  size : state.1.size = before.size
  background : state.1.background = before.background
  seed_pixel : state.1.pixel? seed = some new
  pixel : ∀ p, state.1.pixel? p = before.pixel? p ∨
    before.Joined seed p ∧ state.1.pixel? p = some new
  work : ∀ p ∈ state.2, before.Joined seed p
  /-- A recolored cell is waiting, or it has no neighbor of the old color. -/
  settled : ∀ p, before.Joined seed p → state.1.pixel? p = some new →
    p ∈ state.2 ∨ ∀ q ∈ p.neighbors, state.1.pixel? q ≠ some old

namespace Spreading

variable {before : Canvas} {seed : Point} {old new : Color}

theorem initial (hold : before.pixel? seed = some old) (h : new ≠ old) :
    Spreading before seed old new (before.recolor (before.index seed) new, [seed]) := by
  have hseed := inBounds_of_pixel?_eq_some hold
  refine ⟨rfl, rfl, ?_, fun p => ?_, fun p hp => ?_, fun p hp hnew => ?_⟩
  · rw [pixel?_recolor hseed, if_pos rfl]
  · rw [pixel?_recolor hseed]
    by_cases hp : p = seed
    · exact .inr ⟨hp ▸ .refl, if_pos hp⟩
    · exact .inl (if_neg hp)
  · rw [List.mem_singleton.1 hp]
    exact .refl
  · rw [pixel?_recolor hseed, hp.pixel?_eq, hold] at hnew
    by_cases heq : p = seed
    · exact .inl (List.mem_singleton.2 heq)
    · rw [if_neg heq] at hnew
      exact absurd (Option.some.inj hnew).symm h

/-- Taking a place off the worklist and reaching for its neighbors keeps what holds. -/
theorem step (hold : before.pixel? seed = some old) (h : new ≠ old) {canvas : Canvas}
    {p : Point} {work : List Point} (hs : Spreading before seed old new (canvas, p :: work)) :
    Spreading before seed old new (p.neighbors.foldl (reach old new) (canvas, work)) := by
  have hpixel := pixel?_foldl_reach h p.neighbors (canvas, work)
  have hmem := mem_foldl_reach h p.neighbors (canvas, work)
  obtain ⟨hsize, hbackground⟩ :=
    frame_foldl_reach old new p.neighbors (canvas, work)
  have hjoined : ∀ q ∈ p.neighbors, canvas.pixel? q = some old → before.Joined seed q := by
    intro q hq hcolor
    rcases hs.pixel q with hkept | ⟨hq', -⟩
    · exact (hs.work p List.mem_cons_self).extend hold hq (hkept.symm.trans hcolor)
    · exact hq'
  refine ⟨hsize.trans hs.size, hbackground.trans hs.background, ?_, fun q => ?_, fun q hq => ?_,
    fun q hq hnew => ?_⟩
  · rw [hpixel, hs.seed_pixel]
    simp [h]
  · rw [hpixel]
    split
    · rename_i hq
      exact .inr ⟨hjoined q hq.1 hq.2, rfl⟩
    · exact hs.pixel q
  · rcases (hmem q).1 hq with ⟨hq, hcolor⟩ | hq
    · exact hjoined q hq hcolor
    · exact hs.work q (List.mem_cons_of_mem _ hq)
  · have hkeeps : ∀ r, canvas.pixel? r ≠ some old →
        (p.neighbors.foldl (reach old new) (canvas, work)).1.pixel? r ≠ some old := by
      intro r hr
      rw [hpixel, if_neg fun hr' => hr hr'.2]
      exact hr
    by_cases hcolor : canvas.pixel? q = some new
    · rcases hs.settled q hq hcolor with hwork | hdone
      · rcases List.mem_cons.1 hwork with rfl | hwork
        · refine .inr fun r hr => ?_
          by_cases hr' : canvas.pixel? r = some old
          · rw [hpixel, if_pos ⟨hr, hr'⟩]
            exact fun heq => h (Option.some.inj heq)
          · exact hkeeps r hr'
        · exact .inl ((hmem q).2 (.inr hwork))
      · exact .inr fun r hr => hkeeps r (hdone r hr)
    · rw [hpixel] at hnew
      split at hnew
      · rename_i hfresh
        exact .inl ((hmem q).2 (.inl hfresh))
      · exact absurd hnew hcolor

theorem spread (hold : before.pixel? seed = some old) (h : new ≠ old) {canvas : Canvas}
    {work : List Point} (hs : Spreading before seed old new (canvas, work)) :
    Spreading before seed old new (Canvas.spread old new h canvas work, []) := by
  fun_induction Canvas.spread old new h canvas work with
  | case1 canvas => exact hs
  | case2 canvas p work state ih => exact ih (hs.step hold h)

/-- With an empty worklist the whole region has been recolored. -/
theorem pixel?_of_joined (hold : before.pixel? seed = some old) {canvas : Canvas}
    (hs : Spreading before seed old new (canvas, [])) {p : Point} (hp : before.Joined seed p) :
    canvas.pixel? p = some new := by
  induction hp with
  | refl => exact hs.seed_pixel
  | @tail q r hq hstep ih =>
    have hr : before.Joined seed r := hq.tail hstep
    rcases hs.settled q hq ih with hwork | hdone
    · exact absurd hwork List.not_mem_nil
    · rcases hs.pixel r with hkept | ⟨-, hnew⟩
      · exact absurd (hkept.trans (hr.pixel?_eq.trans hold)) (hdone r hstep.1)
      · exact hnew

end Spreading

/-- The canvas after a fill: the region of the seed has the new color, and every other place has
the color it had. -/
structure IsFilled (before : Canvas) (seed : Point) (new : Color) (after : Canvas) : Prop where
  size : after.size = before.size
  background : after.background = before.background
  region : ∀ p, before.Joined seed p → after.pixel? p = some new
  outside : ∀ p, ¬ before.Joined seed p → after.pixel? p = before.pixel? p

/-- What a fill leaves is determined by the region. -/
theorem IsFilled.unique {before after after' : Canvas} {seed seed' : Point} {new : Color}
    (h : IsFilled before seed new after) (h' : IsFilled before seed' new after')
    (hjoined : before.Joined seed seed') : after = after' := by
  apply ext_pixel? (h.size.trans h'.size.symm) (h.background.trans h'.background.symm)
  intro p _
  by_cases hp : before.Joined seed p
  · rw [h.region p hp, h'.region p (hjoined.symm.trans hp)]
  · rw [h.outside p hp, h'.outside p fun hp' => hp (hjoined.trans hp')]

theorem pixel_of_pixel? {canvas : Canvas} {p : Point} {color : Color}
    (h : canvas.pixel? p = some color) : canvas.pixel p = .ok color := by
  rw [pixel, h]

theorem pixel_of_not_inBounds {canvas : Canvas} {p : Point} (h : ¬ canvas.inBounds p = true) :
    canvas.pixel p = .error (.outOfBounds p.x p.y) := by
  rw [pixel, pixel?_eq_none h]

theorem fill_same {canvas : Canvas} {seed : Point} {color : Color}
    (h : canvas.pixel? seed = some color) : canvas.fill seed color = .ok canvas := by
  simp [fill, pixel_of_pixel? h, bind, Except.bind, pure, Except.pure]

theorem fill_of_ne {canvas : Canvas} {seed : Point} {old new : Color}
    (hold : canvas.pixel? seed = some old) (h : new ≠ old) :
    canvas.fill seed new =
      .ok (spread old new h (canvas.recolor (canvas.index seed) new) [seed]) := by
  simp [fill, pixel_of_pixel? hold, h, bind, Except.bind, pure, Except.pure]

theorem exists_fill_eq_ok {canvas : Canvas} {seed : Point} (hseed : canvas.inBounds seed = true)
    (new : Color) : ∃ after, canvas.fill seed new = .ok after ∧ IsFilled canvas seed new after := by
  obtain ⟨old, hold⟩ := exists_pixel?_eq_some hseed
  by_cases h : new = old
  · subst h
    refine ⟨canvas, fill_same hold, rfl, rfl, fun p hp => ?_, fun p _ => rfl⟩
    rw [hp.pixel?_eq, hold]
  · have hs := (Spreading.initial hold h).spread hold h
    refine ⟨_, fill_of_ne hold h, hs.size, hs.background, fun p hp => hs.pixel?_of_joined hold hp,
      fun p hp => ?_⟩
    rcases hs.pixel p with hkept | ⟨hp', -⟩
    · exact hkept
    · exact absurd hp' hp

theorem isFilled_of_fill {canvas after : Canvas} {seed : Point} {new : Color}
    (h : canvas.fill seed new = .ok after) : IsFilled canvas seed new after := by
  by_cases hseed : canvas.inBounds seed = true
  · obtain ⟨after', hfill, hafter⟩ := exists_fill_eq_ok hseed new
    obtain rfl : after' = after := Except.ok.inj (hfill.symm.trans h)
    exact hafter
  · simp [fill, pixel_of_not_inBounds hseed, bind, Except.bind] at h

end Canvas

theorem Agent.fill_eq_ok_iff {agent after : Agent} :
    agent.fill = .ok after ↔ agent.color ≠ .transparent ∧ ∃ canvas,
      agent.canvas.fill agent.position agent.color = .ok canvas ∧
        after = { agent with canvas } := by
  by_cases hcolor : agent.color = .transparent
  · simp [fill, hcolor, throw, throwThe, MonadExceptOf.throw, bind, Except.bind]
  · cases hfill : agent.canvas.fill agent.position agent.color with
    | error fault => simp [fill, hcolor, hfill, bind, Except.bind]
    | ok canvas => simp [fill, hcolor, hfill, bind, Except.bind, pure, Except.pure, eq_comm]

namespace Canvas

/-- A fill from outside the canvas is refused. From a place of the canvas it ends, recolors the
region of the place and nothing else, gives the same from every place of the region, and changes
nothing when it is done again; so does the agent's fill. -/
theorem fill_recolors_region (canvas : Canvas) (seed : Point) (new : Color) :
    (¬ canvas.inBounds seed = true →
      canvas.fill seed new = .error (.outOfBounds seed.x seed.y)) ∧
    (canvas.inBounds seed = true → ∃ after, canvas.fill seed new = .ok after ∧
      after.size = canvas.size ∧ after.background = canvas.background ∧
      (∀ p, canvas.inBounds p = true →
        (canvas.Joined seed p → after.pixel? p = some new) ∧
        (¬ canvas.Joined seed p → after.pixel? p = canvas.pixel? p)) ∧
      (∀ other, canvas.Joined seed other → canvas.fill other new = .ok after) ∧
      after.fill seed new = .ok after) ∧
    (∀ agent after : Agent, agent.fill = .ok after → after.fill = .ok after) := by
  refine ⟨fun hseed => ?_, fun hseed => ?_, fun agent after hfill => ?_⟩
  · simp [fill, pixel_of_not_inBounds hseed, bind, Except.bind]
  · obtain ⟨after, hfill, hafter⟩ := exists_fill_eq_ok hseed new
    refine ⟨after, hfill, hafter.size, hafter.background,
      fun p _ => ⟨hafter.region p, hafter.outside p⟩, fun other hother => ?_,
      fill_same (hafter.region seed .refl)⟩
    obtain ⟨color, hcolor⟩ := exists_pixel?_eq_some hseed
    have hbounds := inBounds_of_pixel?_eq_some (hother.pixel?_eq.trans hcolor)
    obtain ⟨after', hfill', hafter'⟩ := exists_fill_eq_ok hbounds new
    rw [hfill', hafter.unique hafter' hother]
  · obtain ⟨hcolor, canvas, hcanvas, rfl⟩ := Agent.fill_eq_ok_iff.1 hfill
    have hseed := (isFilled_of_fill hcanvas).region agent.position .refl
    exact Agent.fill_eq_ok_iff.2 ⟨hcolor, canvas, fill_same hseed, rfl⟩

end Canvas

end Brushwork
