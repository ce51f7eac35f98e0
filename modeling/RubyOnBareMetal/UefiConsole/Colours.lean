import Mathlib.Tactic.IntervalCases
import RubyOnBareMetal.Foundation.Nibbles
import RubyOnBareMetal.UefiConsole.Absorption

namespace RubyOnBareMetal.UefiConsole

open Foundation Foundation.Word

/-!
# The attribute an SGR sequence computes

Each parameter sets one nibble of the attribute, both, or none, so after a
list of parameters each nibble is the one set last.  The two palettes number
their colours differently, the bright backgrounds do not fit into the three
bits that the firmware has for them, and the parameters of an indexed colour
are taken one by one.
-/

/-! ## The parameters of a sequence -/

/-- The parameters as the loop takes them; none is negative. -/
def sgrParams (console : Console) : List Nat :=
  let pushed := (ansiPushParam console).console
  (loopIndices pushed).map fun i => (sgrParam pushed i).2.toInt.toNat

/-- A parameter is the number it is taken for. -/
theorem ofNat_sgrParam (console : Console) (i : Int32) :
    (sgrParam console i).2.toInt.toNat < 2 ^ 31 ∧
      Int32.ofNat (sgrParam console i).2.toInt.toNat =
        (sgrParam console i).2 := by
  have notNegative : 0 ≤ (sgrParam console i).2.toInt := by
    unfold sgrParam
    split
    · exact Int.le_refl 0
    · next atLeast =>
        rw [Int32.lt_iff_toInt_lt, Int32.toInt_zero] at atLeast
        exact Int.not_lt.mp atLeast
  have bounded := (sgrParam console i).2.toInt_lt
  have small : (sgrParam console i).2.toInt.toNat < 2 ^ 31 := by omega
  refine ⟨small, ?_⟩
  rw [← Int32.toInt_inj, toInt_ofNat small, Int.toNat_of_nonneg notNegative]

/-- The parameters are small. -/
theorem sgrParams_small
    {console : Console}
    {p : Nat}
    (member : p ∈ sgrParams console) :
    p < 2 ^ 31 := by
  obtain ⟨i, -, rfl⟩ := List.mem_map.mp member
  exact (ofNat_sgrParam _ i).1

/-- The attribute that an SGR sequence passes to the firmware. -/
def sgrResult (console : Console) (out : TextOutput) : UInt64 :=
  (sgrParams console).foldl sgr out.currentAttribute

/-- An SGR sequence passes the interpretation of its parameters. -/
theorem ansiExec_sgr
    {console : Console}
    {out : TextOutput}
    (present : console.conOut? = some out) :
    (ansiExec console finalSgr).calls =
        [.setAttribute (sgrResult console out)] ∧
      (ansiExec console finalSgr).console.conOut? =
        some (out.storeAttribute (sgrResult console out)) := by
  have loop :
      (loopIndices (ansiPushParam console).console).foldl
          (fun attr i =>
            sgrAttribute attr
              (sgrParam (ansiPushParam console).console i).2)
          out.currentAttribute =
        sgrResult console out := by
    unfold sgrResult sgrParams
    rw [List.foldl_map]
    apply List.foldl_ext
    intro attr i _
    obtain ⟨small, value⟩ :=
      ofNat_sgrParam (ansiPushParam console).console i
    rw [← sgrAttribute_ofNat attr small, value]
  have notPosition : ¬(finalSgr = finalCup ∨ finalSgr = finalHvp) := by
    decide
  have notErase : finalSgr ≠ finalEd := by decide
  have stillPresent :
      (ansiPushParam console).console.conOut? = some out :=
    (ansiPushParam_counts console).2.trans present
  unfold ansiExec
  simp only [stillPresent, if_neg notPosition, if_neg notErase, if_true,
    loop]
  exact ⟨trivial, rfl⟩

/-! ## What one parameter does -/

/-- The parameters that set the foreground. -/
abbrev SetsForeground (p : Nat) : Prop :=
  p = 0 ∨ (30 ≤ p ∧ p ≤ 37) ∨ (90 ≤ p ∧ p ≤ 97)

/-- The parameters that set the background. -/
abbrev SetsBackground (p : Nat) : Prop :=
  p = 0 ∨ (40 ≤ p ∧ p ≤ 47) ∨ (100 ≤ p ∧ p ≤ 107)

/-- The low nibble after a parameter that sets it. -/
def foregroundDigit (p : Nat) : Nat :=
  if p = 0 then 7 else if p < 90 then p - 30 else p - 90 + 8

/-- The high nibble after a parameter that sets it. -/
def backgroundDigit (p : Nat) : Nat :=
  if p = 0 then 0 else if p < 100 then p - 40 else p - 100 + 8

/-- The low nibble after a parameter. -/
def nextLow (attr : UInt64) (p : Nat) : Nat :=
  if SetsForeground p then foregroundDigit p else lowNibble attr

/-- The high nibble after a parameter. -/
def nextHigh (attr : UInt64) (p : Nat) : Nat :=
  if SetsBackground p then backgroundDigit p else highNibble attr

theorem nextLow_lt (attr : UInt64) (p : Nat) : nextLow attr p < 16 := by
  have old : lowNibble attr < 16 := Nat.mod_lt _ (by omega)
  unfold nextLow foregroundDigit
  split
  · split
    · omega
    · split <;> omega
  · exact old

theorem nextHigh_lt (attr : UInt64) (p : Nat) : nextHigh attr p < 16 := by
  have old : highNibble attr < 16 := Nat.mod_lt _ (by omega)
  unfold nextHigh backgroundDigit
  split
  · split
    · omega
    · split <;> omega
  · exact old

/-- The parameters for a foreground leave the background. -/
theorem sets_foreground
    {p : Nat}
    (range : (30 ≤ p ∧ p ≤ 37) ∨ (90 ≤ p ∧ p ≤ 97)) :
    SetsForeground p ∧ ¬SetsBackground p := by
  omega

/-- The parameters for a background leave the foreground. -/
theorem sets_background
    {p : Nat}
    (range : (40 ≤ p ∧ p ≤ 47) ∨ (100 ≤ p ∧ p ≤ 107)) :
    SetsBackground p ∧ ¬SetsForeground p := by
  omega

/-- A parameter for a nibble sets it and clears all bits beyond the two. -/
theorem toNat_sgr (attr : UInt64) (p : Nat) :
    (sgr attr p).toNat =
      if SetsForeground p ∨ SetsBackground p then
        16 * nextHigh attr p + nextLow attr p
      else
        attr.toNat := by
  unfold sgr nextHigh nextLow backgroundDigit foregroundDigit
  split
  · next reset =>
      have both : SetsForeground p ∧ SetsBackground p :=
        ⟨.inl reset, .inl reset⟩
      rw [if_pos (.inl both.1), if_pos both.1, if_pos both.2]
      rfl
  · split
    · next range =>
        obtain ⟨sets, leaves⟩ := sets_foreground (.inl range)
        rw [toNat_setLow attr (by omega), if_pos (.inl sets),
          if_neg leaves, if_pos sets, if_pos (by omega)]
    · split
      · next range =>
          obtain ⟨sets, leaves⟩ := sets_foreground (.inr range)
          rw [toNat_setLow attr (by omega), if_pos (.inl sets),
            if_neg leaves, if_pos sets, if_neg (by omega)]
      · split
        · next range =>
            obtain ⟨sets, leaves⟩ := sets_background (.inl range)
            rw [toNat_setHigh attr (by omega), if_pos (.inr sets),
              if_pos sets, if_neg leaves, if_pos (by omega)]
        · split
          · next range =>
              obtain ⟨sets, leaves⟩ := sets_background (.inr range)
              rw [toNat_setHigh attr (by omega), if_pos (.inr sets),
                if_pos sets, if_neg leaves, if_neg (by omega)]
          · rw [if_neg (by omega)]

theorem lowNibble_sgr (attr : UInt64) (p : Nat) :
    lowNibble (sgr attr p) = nextLow attr p := by
  have low := nextLow_lt attr p
  rw [lowNibble, toNat_sgr]
  split
  · omega
  · next sets =>
      rw [nextLow, if_neg (fun foreground => sets (.inl foreground))]
      rfl

theorem highNibble_sgr (attr : UInt64) (p : Nat) :
    highNibble (sgr attr p) = nextHigh attr p := by
  have low := nextLow_lt attr p
  have high := nextHigh_lt attr p
  rw [highNibble, toNat_sgr]
  split
  · omega
  · next sets =>
      rw [nextHigh, if_neg (fun background => sets (.inr background))]
      rfl

/-- An attribute of one byte stays one. -/
theorem sgr_lt
    {attr : UInt64}
    (byte : attr.toNat < 256)
    (p : Nat) :
    (sgr attr p).toNat < 256 := by
  have low := nextLow_lt attr p
  have high := nextHigh_lt attr p
  rw [toNat_sgr]
  split
  · omega
  · exact byte

/-! ## What a list of parameters does -/

/-- The last parameter that sets the foreground. -/
def lastForeground (params : List Nat) : Option Nat :=
  (params.filter SetsForeground).getLast?

/-- The last parameter that sets the background. -/
def lastBackground (params : List Nat) : Option Nat :=
  (params.filter SetsBackground).getLast?

/-- What each element sets or keeps is after a list what was set last. -/
theorem foldl_last
    {State Item Value : Type}
    {step : State → Item → State}
    {view : State → Value}
    {sets : Item → Prop}
    [DecidablePred sets]
    {value : Item → Value}
    (stepView :
      ∀ state item,
        view (step state item) =
          if sets item then value item else view state)
    (start : State)
    (items : List Item) :
    view (items.foldl step start) =
      (((items.filter sets).getLast?).map value).getD (view start) := by
  induction items using List.reverseRecOn with
  | nil =>
      rfl
  | append_singleton items item inductionHypothesis =>
      rw [List.foldl_append, List.foldl_cons, List.foldl_nil, stepView,
        List.filter_append]
      by_cases set : sets item
      · simp [set]
      · simpa [set] using inductionHypothesis

/-- The low nibble is the one set last. -/
theorem lowNibble_foldl (attr : UInt64) (params : List Nat) :
    lowNibble (params.foldl sgr attr) =
      ((lastForeground params).map foregroundDigit).getD
        (lowNibble attr) :=
  foldl_last lowNibble_sgr attr params

/-- The high nibble is the one set last. -/
theorem highNibble_foldl (attr : UInt64) (params : List Nat) :
    highNibble (params.foldl sgr attr) =
      ((lastBackground params).map backgroundDigit).getD
        (highNibble attr) :=
  foldl_last highNibble_sgr attr params

/-- An attribute of one byte stays one. -/
theorem foldl_sgr_lt
    {attr : UInt64}
    (byte : attr.toNat < 256)
    (params : List Nat) :
    (params.foldl sgr attr).toNat < 256 := by
  induction params generalizing attr with
  | nil =>
      exact byte
  | cons p rest inductionHypothesis =>
      exact inductionHypothesis (sgr_lt byte p)

/-! ## Hues -/

/-- A colour by its primaries. -/
@[ext]
structure Colour where
  red : Bool
  green : Bool
  blue : Bool
  bright : Bool
  deriving Repr, DecidableEq

/-- The firmware counts blue as the first primary of a digit. -/
def uefiColour (digit : Nat) : Colour where
  red := digit.testBit 2
  green := digit.testBit 1
  blue := digit.testBit 0
  bright := digit.testBit 3

/-- The foreground that an attribute denotes. -/
def uefiForeground (attr : UInt64) : Colour :=
  uefiColour (lowNibble attr)

/-- The background, which has no bright bit. -/
def uefiBackground (attr : UInt64) : Colour :=
  uefiColour (highNibble attr % 8)

/-- Terminals count red as the first primary. -/
def ansiColour (digit : Nat) (bright : Bool) : Colour where
  red := digit.testBit 0
  green := digit.testBit 1
  blue := digit.testBit 2
  bright := bright

/-- The foreground that a code denotes; 0 restores light gray. -/
def codeForeground (code : Nat) : Colour :=
  if code = 0 then
    ansiColour 7 false
  else if code < 90 then
    ansiColour (code - 30) false
  else
    ansiColour (code - 90) true

/-- The background that a code denotes; 0 restores black. -/
def codeBackground (code : Nat) : Colour :=
  if code = 0 then
    ansiColour 0 false
  else
    ansiColour (code - 40) false

/-- The codes that terminals and firmware both have colours for. -/
abbrev PlainCode (code : Nat) : Prop :=
  code = 0 ∨ (30 ≤ code ∧ code ≤ 37) ∨ (90 ≤ code ∧ code ≤ 97) ∨
    (40 ≤ code ∧ code ≤ 47)

/-- Both halves are the colours of the last codes for them, or untouched. -/
def KeepsHue (console : Console) (out : TextOutput) : Prop :=
  ∃ attr,
    (ansiExec console finalSgr).calls = [.setAttribute attr] ∧
      uefiForeground attr =
        ((lastForeground (sgrParams console)).map codeForeground).getD
          (uefiForeground out.currentAttribute) ∧
      uefiBackground attr =
        ((lastBackground (sgrParams console)).map codeBackground).getD
          (uefiBackground out.currentAttribute)

/-- Black, green, magenta and white: red and blue are both in or both out. -/
abbrev SameInBothPalettes (code : Nat) : Prop :=
  code = 0 ∨ code % 10 = 0 ∨ code % 10 = 2 ∨ code % 10 = 5 ∨
    code % 10 = 7

/-- A foreground digit is read as the colour of its code. -/
theorem uefiColour_foregroundDigit_iff
    {code : Nat}
    (foreground : SetsForeground code) :
    uefiColour (foregroundDigit code) = codeForeground code ↔
      SameInBothPalettes code := by
  rcases foreground with rfl | ⟨atLeast, atMost⟩ | ⟨atLeast, atMost⟩
  · decide
  · interval_cases code <;> decide
  · interval_cases code <;> decide

/-- A background digit is read as the colour of its code. -/
theorem uefiColour_backgroundDigit_iff
    {code : Nat}
    (background : code = 0 ∨ (40 ≤ code ∧ code ≤ 47)) :
    uefiColour (backgroundDigit code % 8) = codeBackground code ↔
      SameInBothPalettes code := by
  rcases background with rfl | ⟨atLeast, atMost⟩
  · decide
  · interval_cases code <;> decide

/-- What was set last is one of the elements, and sets. -/
theorem mem_of_getLast?_filter
    {Item : Type}
    {sets : Item → Prop}
    [DecidablePred sets]
    {items : List Item}
    {item : Item}
    (last : (items.filter sets).getLast? = some item) :
    item ∈ items ∧ sets item := by
  have member := List.mem_of_getLast? last
  rw [List.mem_filter, decide_eq_true_eq] at member
  exact member

/--
A list of plain codes, from any attribute, gives the colours of its last
codes for the foreground and for the background if and only if each of the
two is missing or looks the same in both palettes.
-/
theorem hue_kept_iff
    (console : Console)
    (out : TextOutput)
    (present : console.conOut? = some out)
    (plain : ∀ code ∈ sgrParams console, PlainCode code) :
    KeepsHue console out ↔
      (∀ code,
        lastForeground (sgrParams console) = some code →
        SameInBothPalettes code) ∧
        ∀ code,
          lastBackground (sgrParams console) = some code →
          SameInBothPalettes code := by
  have onlyAttribute :
      KeepsHue console out ↔
        uefiForeground (sgrResult console out) =
            ((lastForeground (sgrParams console)).map
              codeForeground).getD
              (uefiForeground out.currentAttribute) ∧
          uefiBackground (sgrResult console out) =
            ((lastBackground (sgrParams console)).map
              codeBackground).getD
              (uefiBackground out.currentAttribute) := by
    simp [KeepsHue, (ansiExec_sgr present).1]
  rw [onlyAttribute, uefiForeground, uefiBackground, sgrResult,
    lowNibble_foldl, highNibble_foldl]
  apply and_congr
  · cases last : lastForeground (sgrParams console) with
    | none =>
        simp [uefiForeground]
    | some code =>
        obtain ⟨-, foreground⟩ := mem_of_getLast?_filter last
        simpa using uefiColour_foregroundDigit_iff foreground
  · cases last : lastBackground (sgrParams console) with
    | none =>
        simp [uefiBackground]
    | some code =>
        obtain ⟨member, background⟩ := mem_of_getLast?_filter last
        have isPlain := plain code member
        have inRange : code = 0 ∨ (40 ≤ code ∧ code ≤ 47) := by omega
        simpa using uefiColour_backgroundDigit_iff inRange

/-- The console after `ESC [` and some parameters, from white on blue. -/
def opened (params : List UInt8) : Console :=
  parser.run (.boot (some ⟨some ⟨some 0x17⟩⟩) fun _ => 0xCC)
    (escapeByte :: bracket :: params)

/-- `ESC [ 0 ; 3 5 m` gives magenta on black. -/
theorem hue_kept_magenta :
    KeepsHue (opened [0x30, 0x3B, 0x33, 0x35]) ⟨some 0x17⟩ :=
  (hue_kept_iff (opened [0x30, 0x3B, 0x33, 0x35]) ⟨some 0x17⟩
    rfl (by decide +kernel)).mpr
    ⟨by decide +kernel, by decide +kernel⟩

/-- `ESC [ 3 1 m`, red, comes out blue. -/
theorem hue_lost_red :
    ¬KeepsHue (opened [0x33, 0x31]) ⟨some 0x17⟩ := by
  rintro ⟨attr, calls, foreground, -⟩
  have blue :
      (ansiExec (opened [0x33, 0x31]) finalSgr).calls =
        [.setAttribute 0x11] := by
    decide +kernel
  rw [blue] at calls
  cases calls
  exact absurd foreground (by decide +kernel)

end RubyOnBareMetal.UefiConsole
