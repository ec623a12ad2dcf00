import Brushwork.Picture.Framed
import Brushwork.Picture.Ppm
import Brushwork.Proofs.Canvas.Cells
import Brushwork.Proofs.Session.Invariant
import Brushwork.Proofs.Text.Lines
import Brushwork.Proofs.Text.Numerals

/-!
# Reading pictures back

A picture is lines, each ended by a line feed, so its lines can be told from its text.
The lines of a pixmap are told apart at their blanks into numerals, three for each cell;
those of a framed text hold one symbol for each cell. The symbols of all colors differ,
and so do the values of all colors but the transparent one, which no session leaves on
its canvas.
-/

namespace Brushwork

namespace Color

def ofSymbol? (c : Char) : Option Color := palette.find? fun color => color.symbol = c

/-- The color with a given value, which is not the transparent one. -/
def ofRgb? (value : Nat) : Option Color :=
  palette.find? fun color => color ≠ .transparent && color.rgb = value

theorem ofSymbol?_symbol (color : Color) : ofSymbol? color.symbol = some color := by
  cases color <;> decide

theorem ofRgb?_rgb {color : Color} (h : color ≠ .transparent) :
    ofRgb? color.rgb = some color := by
  cases color with
  | transparent => exact absurd rfl h
  | _ => decide

theorem rgb_lt (color : Color) : color.rgb < 0x1000000 := by
  cases color <;> decide

end Color

namespace Picture

section Words

def words (t : Text) : List Text := (t.splitOnP isBlank).filter (· ≠ [])

theorem words_append_blank {c : Char} (hc : isBlank c = true) (t rest : Text) :
    words (t ++ c :: rest) = words t ++ words rest := by
  rw [words, List.splitOnP_append_cons _ _ hc, List.filter_append, ← words, ← words]

theorem words_of_not_isBlank {t : Text} (ht : t ≠ []) (h : ∀ c ∈ t, isBlank c = false) :
    words t = [t] := by
  rw [words, List.splitOnP_eq_singleton h]
  simp [ht]

theorem words_decimal (n : Nat) : words (decimal n) = [decimal n] :=
  words_of_not_isBlank (digits_ne_nil n) fun _ hc =>
    isBlank_of_isNameChar (isNameChar_of_mem_decimal hc)

theorem spaced_singleton (n : Nat) : spaced [n] = decimal n := by
  simp [spaced]

theorem spaced_cons_cons (n m : Nat) (numbers : List Nat) :
    spaced (n :: m :: numbers) = decimal n ++ ' ' :: spaced (m :: numbers) := by
  simp [spaced]

theorem words_spaced (numbers : List Nat) :
    words (spaced numbers) = numbers.map fun (n : Nat) => decimal n := by
  induction numbers with
  | nil => rfl
  | cons n numbers ih =>
    cases numbers with
    | nil => rw [spaced_singleton, words_decimal, List.map_singleton]
    | cons m numbers =>
      rw [spaced_cons_cons, words_append_blank (by decide), words_decimal, ih]
      rfl

theorem lineFeed_notMem_decimal (n : Nat) : '\n' ∉ decimal n := fun h =>
  absurd (isNameChar_of_mem_decimal h) (by decide)

theorem lineFeed_notMem_spaced (numbers : List Nat) : '\n' ∉ spaced numbers := by
  induction numbers with
  | nil => exact List.not_mem_nil
  | cons n numbers ih =>
    cases numbers with
    | nil =>
      rw [spaced_singleton]
      exact lineFeed_notMem_decimal n
    | cons m numbers =>
      rw [spaced_cons_cons]
      simp [lineFeed_notMem_decimal n, ih]

end Words

section Pixmap

def bytes (value : Nat) : List Nat :=
  [value / 0x10000 % 0x100, value / 0x100 % 0x100, value % 0x100]

/-- The values that bytes come from, three to a value. -/
def valuesOf : List Nat → List Nat
  | red :: green :: blue :: rest => (red * 0x10000 + green * 0x100 + blue) :: valuesOf rest
  | _ => []

theorem valuesOf_bytes {values : List Nat} (h : ∀ value ∈ values, value < 0x1000000) :
    valuesOf (values.flatMap bytes) = values := by
  induction values with
  | nil => rfl
  | cons value values ih =>
    rw [List.forall_mem_cons] at h
    have hvalue : value / 0x10000 % 0x100 * 0x10000 + value / 0x100 % 0x100 * 0x100 +
        value % 0x100 = value := by omega
    rw [List.flatMap_cons]
    change (_ :: valuesOf (values.flatMap bytes)) = _
    rw [hvalue, ih h.2]

def cellBytes (canvas : Canvas) : List Nat := canvas.values.flatMap bytes

theorem length_cellBytes (canvas : Canvas) :
    (cellBytes canvas).length = 3 * canvas.size * canvas.size := by
  have hbytes : ∀ values : List Nat, (values.flatMap bytes).length = 3 * values.length := by
    intro values
    simp [List.length_flatMap, bytes, Nat.mul_comm]
  rw [cellBytes, hbytes, Canvas.values, List.length_map, Array.length_toList, canvas.size_pixels,
    Nat.mul_assoc]

theorem le_of_mem_cellBytes {canvas : Canvas} {byte : Nat} (h : byte ∈ cellBytes canvas) :
    byte ≤ 255 := by
  obtain ⟨value, -, hbyte⟩ := List.mem_flatMap.1 h
  have hcases : byte = value / 0x10000 % 0x100 ∨ byte = value / 0x100 % 0x100 ∨
      byte = value % 0x100 := by simpa [bytes] using hbyte
  omega

theorem valuesOf_cellBytes (canvas : Canvas) : valuesOf (cellBytes canvas) = canvas.values := by
  apply valuesOf_bytes
  intro value hvalue
  obtain ⟨color, -, rfl⟩ := List.mem_map.1 hvalue
  exact color.rgb_lt

/-- The numerals of the rows are those of the bytes of the cells. -/
theorem words_rows (canvas : Canvas) :
    (canvas.rows.map ppmRow).flatMap words =
      (cellBytes canvas).map fun (byte : Nat) => decimal byte := by
  have hrow : ∀ row : List Color, words (ppmRow row) =
      ((row.map Color.rgb).flatMap bytes).map fun (byte : Nat) => decimal byte := by
    intro row
    rw [ppmRow, words_spaced, List.flatMap_map]
    rfl
  rw [List.flatMap_map, cellBytes, Canvas.values, ← canvas.flatten_rows]
  simp only [hrow]
  induction canvas.rows with
  | nil => rfl
  | cons row rows ih => simp [ih]

theorem splitLines_ppm (canvas : Canvas) : splitLines (ppm canvas) = ppmLines canvas ++ [[]] := by
  apply splitLines_ended
  intro line hline
  rw [ppmLines, List.mem_cons, List.mem_cons, List.mem_cons] at hline
  rcases hline with rfl | rfl | rfl | hline
  · decide
  · exact lineFeed_notMem_spaced _
  · exact lineFeed_notMem_spaced _
  · obtain ⟨row, -, rfl⟩ := List.mem_map.1 hline
    exact lineFeed_notMem_spaced _

/-- The text of a pixmap tells the side length and the values of the cells. -/
theorem values_eq_of_ppm {a b : Canvas} (h : ppm a = ppm b) :
    a.size = b.size ∧ a.values = b.values := by
  have hlines := congrArg splitLines h
  rw [splitLines_ppm, splitLines_ppm, List.append_cancel_right_eq, ppmLines, ppmLines] at hlines
  have hrows := (List.cons.inj (List.cons.inj (List.cons.inj hlines).2).2).2
  constructor
  · have hlength := congrArg List.length hrows
    rwa [List.length_map, List.length_map, a.length_rows, b.length_rows] at hlength
  · have hwords := congrArg (fun body => (body.flatMap words).map digitsValue) hrows
    simp only [words_rows, List.map_map, Function.comp_def, digitsValue_digits,
      List.map_id'] at hwords
    rw [← valuesOf_cellBytes a, hwords, valuesOf_cellBytes]

end Pixmap

section Framed

theorem splitLines_framed (canvas : Canvas) :
    splitLines (framed canvas) = framedLines canvas ++ [[]] := by
  have hsymbol : ∀ color : Color, color.symbol ≠ '\n' := fun color => by cases color <;> decide
  apply splitLines_ended
  intro line hline
  rw [framedLines, List.mem_append, List.mem_cons, List.mem_singleton] at hline
  rcases hline with (rfl | hline) | rfl
  · simp [frameEdge]
  · obtain ⟨row, -, rfl⟩ := List.mem_map.1 hline
    simp [framedRow, hsymbol]
  · simp [frameEdge]

theorem framedRow_injective : Function.Injective framedRow := by
  intro row row' h
  have hsymbols : row.map Color.symbol = row'.map Color.symbol :=
    List.append_cancel_right (List.cons.inj h).2
  have hcolors := congrArg (List.map Color.ofSymbol?) hsymbols
  simp only [List.map_map, Function.comp_def, Color.ofSymbol?_symbol] at hcolors
  exact List.map_injective_iff.2 (Option.some_injective Color) hcolors

/-- A framed text tells the side length and the cells. -/
theorem cells_eq_of_framed {a b : Canvas} (h : framed a = framed b) :
    a.size = b.size ∧ a.pixels = b.pixels := by
  have hlines := congrArg splitLines h
  rw [splitLines_framed, splitLines_framed, List.append_cancel_right_eq, framedLines,
    framedLines] at hlines
  have hrows := (List.cons.inj (List.append_inj_left' hlines rfl)).2
  have hcells := List.map_injective_iff.2 framedRow_injective hrows
  constructor
  · rw [← a.length_rows, hcells, b.length_rows]
  · apply Array.toList_inj.1
    rw [← a.flatten_rows, hcells, b.flatten_rows]

end Framed

/-- Canvases without transparent cells have the same cells if they have the same values. -/
theorem pixels_eq_of_values {a b : Canvas} (ha : Color.transparent ∉ a.pixels)
    (hb : Color.transparent ∉ b.pixels) (h : a.values = b.values) : a.pixels = b.pixels := by
  have hread : ∀ canvas : Canvas, Color.transparent ∉ canvas.pixels →
      canvas.values.map Color.ofRgb? = canvas.pixels.toList.map some := by
    intro canvas hcanvas
    rw [Canvas.values, List.map_map]
    refine List.map_congr_left fun color hcolor => Color.ofRgb?_rgb ?_
    rintro rfl
    exact hcanvas (Array.mem_toList_iff.1 hcolor)
  apply Array.toList_inj.1
  apply List.map_injective_iff.2 (Option.some_injective Color)
  rw [← hread a ha, h, hread b hb]

/-- A pixmap is its three lines of header and a line for each row, in which the numerals between the
blanks are those of the bytes of the cells, row by row. No session has a transparent cell, so two
sessions with the same pixmap have the same cells; and so have any two canvases with the same framed
text. -/
theorem pictures_lose_nothing :
    (∀ canvas : Canvas, ∃ body,
      splitLines (ppm canvas) = ["P3".toList, decimal canvas.size ++ ' ' :: decimal canvas.size,
        "255".toList] ++ body ++ [[]] ∧
      body.length = canvas.size ∧
      body.flatMap words = (cellBytes canvas).map (fun (byte : Nat) => decimal byte) ∧
      (cellBytes canvas).length = 3 * canvas.size * canvas.size ∧
      ∀ byte ∈ cellBytes canvas, byte ≤ 255) ∧
    (∀ session : Session, session.Reached →
      Color.transparent ∉ session.scene.agent.canvas.pixels) ∧
    (∀ a b : Session, a.Reached → b.Reached →
      ppm a.scene.agent.canvas = ppm b.scene.agent.canvas →
        a.scene.agent.canvas.size = b.scene.agent.canvas.size ∧
          a.scene.agent.canvas.pixels = b.scene.agent.canvas.pixels) ∧
    ∀ a b : Canvas, framed a = framed b → a.size = b.size ∧ a.pixels = b.pixels := by
  refine ⟨fun canvas => ⟨canvas.rows.map ppmRow, ?_, ?_, words_rows canvas,
    length_cellBytes canvas, fun _ => le_of_mem_cellBytes⟩,
    fun session h => h.valid.scene.canvas.colored, fun a b ha hb h => ?_,
    fun a b => cells_eq_of_framed⟩
  · rw [splitLines_ppm, ppmLines, spaced_cons_cons, spaced_singleton, spaced_singleton]
    rfl
  · rw [List.length_map, canvas.length_rows]
  · obtain ⟨hsize, hvalues⟩ := values_eq_of_ppm h
    exact ⟨hsize, pixels_eq_of_values ha.valid.scene.canvas.colored
      hb.valid.scene.canvas.colored hvalues⟩

end Picture

end Brushwork
