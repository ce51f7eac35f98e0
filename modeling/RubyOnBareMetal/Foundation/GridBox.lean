import Mathlib.Algebra.Order.Floor.Ring
import Mathlib.Tactic.Linarith
import Mathlib.Tactic.Ring

namespace Foundation

/-!
# Boxes on a grid

A box whose sides are at most as long as those of a cell meets only the cells
of its corners.  A point that moves less than half a side stays in the box.
-/

variable {K : Type} [Field K] [LinearOrder K] [IsStrictOrderedRing K]

/-- The points that are at most so far away in both coordinates. -/
def InBox (centreX centreY reach x y : K) : Prop :=
  |x - centreX| ≤ reach ∧ |y - centreY| ≤ reach

/-- What is near a point that has moved is in the box around the start. -/
theorem InBox.moved
    {centreX centreY stepX stepY part way near reach x y : K}
    (begun : 0 ≤ part)
    (unfinished : part ≤ 1)
    (shortX : |stepX| ≤ way)
    (shortY : |stepY| ≤ way)
    (fits : way + near ≤ reach)
    (inside :
      InBox (centreX + part * stepX) (centreY + part * stepY) near x y) :
    InBox centreX centreY reach x y := by
  have partly {step : K} (short : |step| ≤ way) :
      |part * step| ≤ way := by
    rw [abs_mul, abs_of_nonneg begun]
    exact (mul_le_of_le_one_left (abs_nonneg step) unfinished).trans short
  have along
      {centre step z : K}
      (short : |step| ≤ way)
      (close : |z - (centre + part * step)| ≤ near) :
      |z - centre| ≤ reach := by
    have split : z - centre = z - (centre + part * step) + part * step := by
      ring
    rw [split]
    exact (abs_add_le _ _).trans
      ((add_le_add close (partly short)).trans (by linarith))
  exact ⟨along shortX inside.1, along shortY inside.2⟩

section Cells

variable [FloorRing K]

/-- A short interval meets the cells of its ends. -/
theorem floor_eq_end
    {first last x : K}
    (short : last ≤ first + 1)
    (least : first ≤ x)
    (most : x ≤ last) :
    ⌊x⌋ = ⌊first⌋ ∨ ⌊x⌋ = ⌊last⌋ := by
  have fromFirst : ⌊first⌋ ≤ ⌊x⌋ := Int.floor_mono least
  have toLast : ⌊x⌋ ≤ ⌊last⌋ := Int.floor_mono most
  have next : ⌊last⌋ ≤ ⌊first⌋ + 1 := by
    rw [← Int.floor_add_one]
    exact Int.floor_mono short
  omega

/-- A box in whose corners a property of cells holds. -/
structure Corners
    (property : ℤ → ℤ → Prop)
    (centreX centreY reach : K) : Prop where
  lowLow : property ⌊centreX - reach⌋ ⌊centreY - reach⌋
  lowHigh : property ⌊centreX - reach⌋ ⌊centreY + reach⌋
  highLow : property ⌊centreX + reach⌋ ⌊centreY - reach⌋
  highHigh : property ⌊centreX + reach⌋ ⌊centreY + reach⌋

/-- The property holds in the whole box. -/
theorem Corners.inBox
    {property : ℤ → ℤ → Prop}
    {centreX centreY reach x y : K}
    (corners : Corners property centreX centreY reach)
    (small : 2 * reach ≤ 1)
    (inside : InBox centreX centreY reach x y) :
    property ⌊x⌋ ⌊y⌋ := by
  obtain ⟨leastX, mostX⟩ := abs_le.mp inside.1
  obtain ⟨leastY, mostY⟩ := abs_le.mp inside.2
  have endX : ⌊x⌋ = ⌊centreX - reach⌋ ∨ ⌊x⌋ = ⌊centreX + reach⌋ :=
    floor_eq_end (by linarith) (by linarith) (by linarith)
  have endY : ⌊y⌋ = ⌊centreY - reach⌋ ∨ ⌊y⌋ = ⌊centreY + reach⌋ :=
    floor_eq_end (by linarith) (by linarith) (by linarith)
  rcases endX with lowX | highX
  · rcases endY with lowY | highY
    · rw [lowX, lowY]
      exact corners.lowLow
    · rw [lowX, highY]
      exact corners.lowHigh
  · rcases endY with lowY | highY
    · rw [highX, lowY]
      exact corners.highLow
    · rw [highX, highY]
      exact corners.highHigh

end Cells

end Foundation
