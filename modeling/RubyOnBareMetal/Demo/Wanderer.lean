import RubyOnBareMetal.Foundation.GridBox
import RubyOnBareMetal.RayCaster

namespace RubyOnBareMetal.Demo

open Foundation RayCaster

/-!
# The wanderer of `ruby/scripts/autodemo.rb`

`step_ai` moves the wanderer a step ahead unless a corner of the box around it
would be in a wall, and turns it otherwise.  Floats are read as rational
numbers, and `Math` is a parameter.
-/

/-- What `Math` promises: bounded functions and a number above three. -/
structure Trigonometry where
  cos : ℚ → ℚ
  sin : ℚ → ℚ
  tan : ℚ → ℚ
  pi : ℚ
  cosAtMost : ∀ angle, |cos angle| ≤ 1
  sinAtMost : ∀ angle, |sin angle| ≤ 1
  piMoreThan : 3 < pi

/-- The first terms of the series of `Math.cos`. -/
def cosSeries (x : ℚ) : ℚ :=
  1 - x ^ 2 / 2 + x ^ 4 / 24 - x ^ 6 / 720 + x ^ 8 / 40320 -
    x ^ 10 / 3628800 + x ^ 12 / 479001600 - x ^ 14 / 87178291200

/-- The first terms of the series of `Math.sin`. -/
def sinSeries (x : ℚ) : ℚ :=
  x - x ^ 3 / 6 + x ^ 5 / 120 - x ^ 7 / 5040 + x ^ 9 / 362880 -
    x ^ 11 / 39916800 + x ^ 13 / 6227020800 - x ^ 15 / 1307674368000

/-- A value kept between -1 and 1. -/
def withinOne (y : ℚ) : ℚ :=
  max (-1) (min 1 y)

theorem abs_withinOne_le (y : ℚ) : |withinOne y| ≤ 1 :=
  abs_le.mpr ⟨le_max_left _ _,
    max_le (by norm_num) (min_le_left _ _)⟩

/--
`Math` on small angles.  At those of the first frame, 0.3 and a sixth of `pi`,
the error is below 1e-17, which is less than the error of a float.
-/
def Trigonometry.series : Trigonometry where
  cos x := withinOne (cosSeries x)
  sin x := withinOne (sinSeries x)
  tan x := sinSeries x / cosSeries x
  pi := 884279719003555 / 281474976710656
  cosAtMost _ := abs_withinOne_le _
  sinAtMost _ := abs_withinOne_le _
  piMoreThan := by norm_num

/-- `wall?`. -/
abbrev Wall (x y : ℚ) : Prop :=
  Outside ⌊x⌋ ⌊y⌋ ∨ cell? ⌊x⌋ ⌊y⌋ = some '#'

/-- `$px`, `$py` and `$pa`. -/
structure Wanderer where
  px : ℚ
  py : ℚ
  pa : ℚ
  deriving Repr, DecidableEq

/-- The values before the loop. -/
def Wanderer.start : Wanderer where
  px := 5 / 2
  py := 5 / 2
  pa := 3 / 10

/-- `speed` and `r`. -/
def speed : ℚ := 12 / 100
def reach : ℚ := 1 / 4

/-- `$pa -= twopi while $pa >= twopi`, for some passes. -/
def wrapDown (twopi : ℚ) : Nat → ℚ → ℚ
  | 0, pa => pa
  | passes + 1, pa =>
      if twopi ≤ pa then wrapDown twopi passes (pa - twopi) else pa

/-- `$pa += twopi while $pa < 0`, for some passes. -/
def wrapUp (twopi : ℚ) : Nat → ℚ → ℚ
  | 0, pa => pa
  | passes + 1, pa =>
      if pa < 0 then wrapUp twopi passes (pa + twopi) else pa

/-- Both loops, with more passes than they make. -/
def normalise (twopi pa : ℚ) : ℚ :=
  let passes := ⌊|pa| / twopi⌋.toNat + 1
  wrapUp twopi passes (wrapDown twopi passes pa)

namespace Wanderer

variable (trig : Trigonometry)
variable (frame : Nat)
variable (wanderer : Wanderer)

/-- `nx` and `ny`. -/
def nx : ℚ :=
  wanderer.px + trig.cos wanderer.pa * speed

def ny : ℚ :=
  wanderer.py + trig.sin wanderer.pa * speed

/-- `blocked`. -/
abbrev Blocked : Prop :=
  Wall (wanderer.nx trig + reach) (wanderer.ny trig + reach) ∨
    Wall (wanderer.nx trig - reach) (wanderer.ny trig - reach) ∨
      Wall (wanderer.nx trig + reach) (wanderer.ny trig - reach) ∨
        Wall (wanderer.nx trig - reach) (wanderer.ny trig + reach)

/-- The wanderer turned or a step ahead. -/
def turnOrMove : Wanderer :=
  if wanderer.Blocked trig then
    { wanderer with
      pa :=
        wanderer.pa +
          (if frame % 2 = 1 then 1 else -1) * trig.pi / (5 / 2) }
  else
    { wanderer with px := wanderer.nx trig, py := wanderer.ny trig }

/-- `step_ai`. -/
def stepAi : Wanderer :=
  let moved := wanderer.turnOrMove trig frame
  let pa := if frame % 30 = 0 then moved.pa + 5 / 100 else moved.pa
  { moved with pa := normalise (trig.pi * 2) pa }

/-- The wanderer at a frame. -/
def atFrame : Nat → Wanderer
  | 0 => start
  | frame + 1 => (atFrame frame).stepAi trig frame

end Wanderer

/-! ## Angles -/

/-- The first loop ends below a whole turn. -/
theorem wrapDown_lt
    {twopi : ℚ}
    (passes : Nat)
    {pa : ℚ}
    (enough : pa < twopi * (passes + 1)) :
    wrapDown twopi passes pa < twopi := by
  induction passes generalizing pa with
  | zero =>
      rw [Nat.cast_zero, zero_add, mul_one] at enough
      exact enough
  | succ passes inductionHypothesis =>
      rw [wrapDown]
      split
      · refine inductionHypothesis ?_
        push_cast at enough
        linarith
      · exact lt_of_not_ge ‹_›

/-- It leaves an angle that is not negative so, and a negative one alone. -/
theorem wrapDown_bounds
    (twopi : ℚ)
    (passes : Nat)
    (pa : ℚ) :
    min 0 pa ≤ wrapDown twopi passes pa := by
  induction passes generalizing pa with
  | zero =>
      exact min_le_right 0 pa
  | succ passes inductionHypothesis =>
      rw [wrapDown]
      split
      · next large =>
          have notNegative : 0 ≤ pa - twopi := sub_nonneg.mpr large
          have later := inductionHypothesis (pa - twopi)
          rw [min_eq_left notNegative] at later
          exact (min_le_left 0 pa).trans later
      · exact min_le_right 0 pa

/-- The second loop ends inside a whole turn. -/
theorem wrapUp_range
    {twopi : ℚ}
    (passes : Nat)
    {pa : ℚ}
    (below : pa < twopi)
    (enough : 0 ≤ pa + twopi * passes) :
    0 ≤ wrapUp twopi passes pa ∧ wrapUp twopi passes pa < twopi := by
  induction passes generalizing pa with
  | zero =>
      rw [Nat.cast_zero, mul_zero, add_zero] at enough
      exact ⟨enough, below⟩
  | succ passes inductionHypothesis =>
      rw [wrapUp]
      split
      · refine inductionHypothesis (by linarith) ?_
        push_cast at enough
        linarith
      · exact ⟨le_of_not_gt ‹_›, below⟩

/-- Every angle is brought into a whole turn. -/
theorem normalise_range
    {twopi : ℚ}
    (positive : 0 < twopi)
    (pa : ℚ) :
    0 ≤ normalise twopi pa ∧ normalise twopi pa < twopi := by
  have turns : |pa| < twopi * (⌊|pa| / twopi⌋.toNat + 1) := by
    have notNegative : 0 ≤ ⌊|pa| / twopi⌋ :=
      Int.floor_nonneg.mpr (div_nonneg (abs_nonneg pa) positive.le)
    have cast : ((⌊|pa| / twopi⌋.toNat : ℚ)) = ⌊|pa| / twopi⌋ := by
      exact_mod_cast Int.toNat_of_nonneg notNegative
    rw [cast, ← div_lt_iff₀' positive]
    exact Int.lt_floor_add_one _
  have above := (le_abs_self pa).trans_lt turns
  have belowAll := (neg_le_abs pa).trans_lt turns
  have lower := wrapDown_bounds twopi (⌊|pa| / twopi⌋.toNat + 1) pa
  refine wrapUp_range _ (wrapDown_lt _ ?_) ?_
  · push_cast
    linarith
  · push_cast
    have notNegative := abs_nonneg pa
    rcases min_le_iff.mp lower with atLeastZero | atLeastOld
    · linarith
    · linarith

/-! ## Walls -/

/-- What is no wall is an open cell. -/
theorem isOpen_of_not_wall
    {x y : ℚ}
    (noWall : ¬Wall x y) :
    IsOpen ⌊x⌋ ⌊y⌋ := by
  obtain ⟨inside, notHash⟩ := not_or.mp noWall
  exact ⟨inside, notHash⟩

namespace Wanderer

variable (trig : Trigonometry)

/-- The box around a wanderer. -/
abbrev Free (wanderer : Wanderer) : Prop :=
  Corners IsOpen wanderer.px wanderer.py reach

/-- A wanderer that is not blocked has a free box a step ahead. -/
theorem corners_of_not_blocked
    {trig : Trigonometry}
    {wanderer : Wanderer}
    (unblocked : ¬wanderer.Blocked trig) :
    Corners IsOpen (wanderer.nx trig) (wanderer.ny trig) reach := by
  obtain ⟨highHigh, unblocked⟩ := not_or.mp unblocked
  obtain ⟨lowLow, unblocked⟩ := not_or.mp unblocked
  obtain ⟨highLow, lowHigh⟩ := not_or.mp unblocked
  exact ⟨isOpen_of_not_wall lowLow, isOpen_of_not_wall lowHigh,
    isOpen_of_not_wall highLow, isOpen_of_not_wall highHigh⟩

/-- A frame changes the position or not; then the box there is free. -/
theorem stepAi_position
    (frame : Nat)
    (wanderer : Wanderer) :
    (wanderer.stepAi trig frame).px = wanderer.px ∧
        (wanderer.stepAi trig frame).py = wanderer.py ∨
      Corners IsOpen (wanderer.nx trig) (wanderer.ny trig) reach ∧
        (wanderer.stepAi trig frame).px = wanderer.nx trig ∧
          (wanderer.stepAi trig frame).py = wanderer.ny trig := by
  by_cases blocked : wanderer.Blocked trig
  · refine .inl ?_
    simp only [stepAi, turnOrMove, if_pos blocked, and_self]
  · refine .inr ⟨corners_of_not_blocked blocked, ?_⟩
    simp only [stepAi, turnOrMove, if_neg blocked, and_self]

/-- A frame leaves the box free. -/
theorem stepAi_free
    (frame : Nat)
    {wanderer : Wanderer}
    (free : wanderer.Free) :
    (wanderer.stepAi trig frame).Free := by
  rcases stepAi_position trig frame wanderer with
    ⟨sameX, sameY⟩ | ⟨corners, movedX, movedY⟩
  · rw [Free, sameX, sameY]
    exact free
  · rw [Free, movedX, movedY]
    exact corners

/-- A frame moves the wanderer at most a step along each axis. -/
theorem stepAi_near
    (frame : Nat)
    (wanderer : Wanderer) :
    |(wanderer.stepAi trig frame).px - wanderer.px| ≤ speed ∧
      |(wanderer.stepAi trig frame).py - wanderer.py| ≤ speed := by
  have fast : (0 : ℚ) ≤ speed := by decide +kernel
  have short {factor : ℚ} (atMost : |factor| ≤ 1) :
      |factor * speed| ≤ speed := by
    rw [abs_mul, abs_of_nonneg fast]
    exact mul_le_of_le_one_left fast atMost
  rcases stepAi_position trig frame wanderer with
    ⟨sameX, sameY⟩ | ⟨-, movedX, movedY⟩
  · rw [sameX, sameY, sub_self, sub_self, abs_zero]
    exact ⟨fast, fast⟩
  · rw [movedX, movedY, nx, ny, add_sub_cancel_left, add_sub_cancel_left]
    exact ⟨short (trig.cosAtMost _), short (trig.sinAtMost _)⟩

/-- A frame leaves the heading inside a whole turn. -/
theorem stepAi_heading
    (frame : Nat)
    (wanderer : Wanderer) :
    0 ≤ (wanderer.stepAi trig frame).pa ∧
      (wanderer.stepAi trig frame).pa < trig.pi * 2 := by
  have positive : 0 < trig.pi * 2 := by
    have := trig.piMoreThan
    linarith
  exact normalise_range positive _

/-- The box is free at the beginning. -/
theorem start_free : start.Free := by
  constructor
  · decide +kernel
  · decide +kernel
  · decide +kernel
  · decide +kernel

/-- And at every frame. -/
theorem atFrame_free (frame : Nat) : (atFrame trig frame).Free := by
  induction frame with
  | zero => exact start_free
  | succ frame inductionHypothesis =>
      exact stepAi_free trig frame inductionHypothesis

/--
At every frame the heading is inside a whole turn and there is no wall in the
whole box around the wanderer, not only at its corners; and all the way to the
next frame no wall comes near.
-/
theorem never_in_wall (trig : Trigonometry) (frame : Nat) :
    let wanderer := atFrame trig frame
    let next := atFrame trig (frame + 1)
    (0 ≤ wanderer.pa ∧ wanderer.pa < trig.pi * 2) ∧
      (∀ x y,
        InBox wanderer.px wanderer.py reach x y → IsOpen ⌊x⌋ ⌊y⌋) ∧
      ∀ part x y,
        0 ≤ part →
        part ≤ 1 →
        InBox (wanderer.px + part * (next.px - wanderer.px))
          (wanderer.py + part * (next.py - wanderer.py))
          (reach - speed) x y →
        IsOpen ⌊x⌋ ⌊y⌋ := by
  have free := atFrame_free trig frame
  have small : 2 * reach ≤ 1 := by decide +kernel
  refine ⟨?_, fun x y inside => free.inBox small inside, ?_⟩
  · cases frame with
    | zero =>
        have := trig.piMoreThan
        change (0 : ℚ) ≤ 3 / 10 ∧ (3 / 10 : ℚ) < trig.pi * 2
        constructor
        · norm_num
        · linarith
    | succ frame =>
        exact stepAi_heading trig frame _
  · intro part x y begun unfinished inside
    obtain ⟨nearX, nearY⟩ := stepAi_near trig frame
      (atFrame trig frame)
    refine free.inBox small (inside.moved begun unfinished nearX nearY ?_)
    rw [add_sub_cancel]

end Wanderer

end RubyOnBareMetal.Demo
