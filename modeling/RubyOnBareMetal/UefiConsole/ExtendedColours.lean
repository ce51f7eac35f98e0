import RubyOnBareMetal.UefiConsole.Colours

namespace RubyOnBareMetal.UefiConsole

open Foundation Foundation.Word

/-!
# Indexed colours

`with_color` of the terminal adapter selects every colour by `38;5;n` or
`48;5;n`.  The loop of `ansi_exec` ignores 38, 48 and 5 and then takes `n` for
a code of its own, which it is for some colours.
-/

/-- A code, or a group that selects an indexed colour. -/
inductive SgrItem where
  | code (p : Nat)
  | foreground (n : Nat)
  | background (n : Nat)
  deriving Repr, DecidableEq

/-- A parameter list read from left to right. -/
def sgrItems : List Nat → List SgrItem
  | first :: second :: n :: rest =>
      if first = 38 ∧ second = 5 then
        .foreground n :: sgrItems rest
      else if first = 48 ∧ second = 5 then
        .background n :: sgrItems rest
      else
        .code first :: sgrItems (second :: n :: rest)
  | first :: rest => .code first :: sgrItems rest
  | [] => []

/-- The colour number of a group. -/
def SgrItem.index? : SgrItem → Option Nat
  | .code _ => none
  | .foreground n => some n
  | .background n => some n

/-- What groups may do: each leaves the other half of the attribute alone. -/
structure Palette where
  foreground : Nat → UInt64 → UInt64
  background : Nat → UInt64 → UInt64
  keepsBackground :
    ∀ n attr, highNibble (foreground n attr) = highNibble attr
  keepsForeground :
    ∀ n attr, lowNibble (background n attr) = lowNibble attr

/-- The attribute after an item. -/
def Palette.apply (palette : Palette) (attr : UInt64) :
    SgrItem → UInt64
  | .code p => sgrAttribute attr (Int32.ofNat p)
  | .foreground n => palette.foreground n attr
  | .background n => palette.background n attr

/-- The body of the loop acts on a parameter. -/
def TakenAsCode (p : Nat) : Prop :=
  ∃ attr, sgrAttribute attr (Int32.ofNat p) ≠ attr

/--
The attribute that is passed is that of the items of the list, and neither
the 5 nor the number of a group is taken as a code.
-/
def ReadAsUnits (console : Console) (out : TextOutput) : Prop :=
  (∃ palette : Palette,
    (ansiExec console finalSgr).calls =
      [.setAttribute
        ((sgrItems (sgrParams console)).foldl palette.apply
          out.currentAttribute)]) ∧
    ∀ item ∈ sgrItems (sgrParams console),
      ∀ n ∈ item.index?, ¬TakenAsCode 5 ∧ ¬TakenAsCode n

/-! ## The codes -/

/-- The codes that the loop knows. -/
abbrev SgrCode (p : Nat) : Prop :=
  SetsForeground p ∨ SetsBackground p

/-- Other parameters are ignored. -/
theorem sgr_of_not_code
    {p : Nat}
    (notCode : ¬SgrCode p)
    (attr : UInt64) :
    sgr attr p = attr := by
  rw [← UInt64.toNat_inj, toNat_sgr, if_neg notCode]

/-- The parameters that are taken as codes. -/
theorem takenAsCode_iff {p : Nat} (small : p < 2 ^ 31) :
    TakenAsCode p ↔ SgrCode p := by
  simp only [TakenAsCode, sgrAttribute_ofNat _ small]
  constructor
  · rintro ⟨attr, changed⟩
    by_contra notCode
    exact changed (sgr_of_not_code notCode attr)
  · intro code
    -- a code clears the bits above the two nibbles
    refine ⟨0x100, fun same => ?_⟩
    have value := toNat_sgr 0x100 p
    have low := nextLow_lt 0x100 p
    have high := nextHigh_lt 0x100 p
    rw [same, if_pos code] at value
    change 256 = _ at value
    omega

/-! ## Groups without codes -/

/-- A list is read as its first group or code and the items of the rest. -/
inductive Reads : List Nat → List SgrItem → Prop where
  | nil :
      Reads [] []
  | foreground
      {params : List Nat}
      {items : List SgrItem}
      (n : Nat)
      (rest : Reads params items) :
      Reads (38 :: 5 :: n :: params) (.foreground n :: items)
  | background
      {params : List Nat}
      {items : List SgrItem}
      (n : Nat)
      (rest : Reads params items) :
      Reads (48 :: 5 :: n :: params) (.background n :: items)
  | code
      {params : List Nat}
      {items : List SgrItem}
      (p : Nat)
      (rest : Reads params items) :
      Reads (p :: params) (.code p :: items)

/-- Every list is read so. -/
theorem reads_sgrItems (params : List Nat) :
    Reads params (sgrItems params) := by
  induction params using sgrItems.induct with
  | case1 first second n rest group inductionHypothesis =>
      rw [sgrItems, if_pos group, group.1, group.2]
      exact .foreground n inductionHypothesis
  | case2 first second n rest notForeground group inductionHypothesis =>
      rw [sgrItems, if_neg notForeground, if_pos group, group.1, group.2]
      exact .background n inductionHypothesis
  | case3 first second n rest notForeground notBackground
      inductionHypothesis =>
      rw [sgrItems, if_neg notForeground, if_neg notBackground]
      exact .code first inductionHypothesis
  | case4 first rest short inductionHypothesis =>
      rw [sgrItems.eq_2 first rest short]
      exact .code first inductionHypothesis
  | case5 =>
      exact .nil

/-- The numbers of groups are parameters. -/
theorem index_mem_params
    {params : List Nat}
    {items : List SgrItem}
    (reads : Reads params items)
    {item : SgrItem}
    {n : Nat}
    (member : item ∈ items)
    (index : n ∈ item.index?) :
    n ∈ params := by
  induction reads with
  | nil =>
      cases member
  | foreground number rest inductionHypothesis =>
      rcases List.mem_cons.mp member with rfl | member
      · cases index
        simp
      · simp [inductionHypothesis member]
  | background number rest inductionHypothesis =>
      rcases List.mem_cons.mp member with rfl | member
      · cases index
        simp
      · simp [inductionHypothesis member]
  | code p rest inductionHypothesis =>
      rcases List.mem_cons.mp member with rfl | member
      · cases index
      · exact List.mem_cons_of_mem p (inductionHypothesis member)

/-- Groups that change nothing. -/
def ignoring : Palette where
  foreground _ attr := attr
  background _ attr := attr
  keepsBackground _ _ := rfl
  keepsForeground _ _ := rfl

/-- Without codes for colour numbers the loop ignores the groups. -/
theorem foldl_items
    {params : List Nat}
    {items : List SgrItem}
    (reads : Reads params items)
    (small : ∀ p ∈ params, p < 2 ^ 31)
    (noCode : ∀ item ∈ items, ∀ n ∈ item.index?, ¬SgrCode n)
    (attr : UInt64) :
    items.foldl ignoring.apply attr = params.foldl sgr attr := by
  have notCodes : ¬SgrCode 38 ∧ ¬SgrCode 48 ∧ ¬SgrCode 5 := by decide
  induction reads generalizing attr with
  | nil =>
      rfl
  | foreground n rest inductionHypothesis =>
      obtain ⟨groupNumber, restNoCode⟩ := List.forall_mem_cons.mp noCode
      have numberIgnored := groupNumber n rfl
      simp only [List.foldl_cons, sgr_of_not_code notCodes.1,
        sgr_of_not_code notCodes.2.2, sgr_of_not_code numberIgnored]
      exact inductionHypothesis (fun p member => small p (by simp [member]))
        restNoCode attr
  | background n rest inductionHypothesis =>
      obtain ⟨groupNumber, restNoCode⟩ := List.forall_mem_cons.mp noCode
      have numberIgnored := groupNumber n rfl
      simp only [List.foldl_cons, sgr_of_not_code notCodes.2.1,
        sgr_of_not_code notCodes.2.2, sgr_of_not_code numberIgnored]
      exact inductionHypothesis (fun p member => small p (by simp [member]))
        restNoCode attr
  | code p rest inductionHypothesis =>
      obtain ⟨-, restNoCode⟩ := List.forall_mem_cons.mp noCode
      obtain ⟨pSmall, restSmall⟩ := List.forall_mem_cons.mp small
      rw [List.foldl_cons, List.foldl_cons, Palette.apply,
        sgrAttribute_ofNat _ pSmall]
      exact inductionHypothesis restSmall restNoCode (sgr attr p)

/--
A parameter list, from any attribute, is read with its indexed colours as
units if and only if the number of no group is a code that the loop knows:
0, 30 to 37, 90 to 97, 40 to 47 or 100 to 107.
-/
theorem extended_colours_read_as_units_iff
    (console : Console)
    (out : TextOutput)
    (present : console.conOut? = some out) :
    ReadAsUnits console out ↔
      ∀ item ∈ sgrItems (sgrParams console),
        ∀ n ∈ item.index?, ¬SgrCode n := by
  have numberSmall
      (item : SgrItem)
      (member : item ∈ sgrItems (sgrParams console))
      (n : Nat)
      (index : n ∈ item.index?) :
      n < 2 ^ 31 :=
    sgrParams_small
      (index_mem_params (reads_sgrItems _) member index)
  have fiveIgnored : ¬TakenAsCode 5 := by
    rw [takenAsCode_iff (by omega)]
    decide
  constructor
  · rintro ⟨-, notTaken⟩ item member n index
    rw [← takenAsCode_iff (numberSmall item member n index)]
    exact (notTaken item member n index).2
  · intro noCode
    constructor
    · refine ⟨ignoring, ?_⟩
      rw [(ansiExec_sgr present).1,
        foldl_items (reads_sgrItems _)
          (fun p member => sgrParams_small member) noCode]
      rfl
    · intro item member n index
      rw [takenAsCode_iff (numberSmall item member n index)]
      exact ⟨fiveIgnored, noCode item member n index⟩

/-- `ESC [ 1 ; 3 8 ; 5 ; 1 9 6 ; 4 4 m` is read as three items. -/
theorem extended_colours_read_as_units_bright :
    ReadAsUnits
      (opened
        [0x31, 0x3B, 0x33, 0x38, 0x3B, 0x35, 0x3B, 0x31, 0x39, 0x36, 0x3B,
          0x34, 0x34])
      ⟨some 0x17⟩ :=
  (extended_colours_read_as_units_iff
    (opened
      [0x31, 0x3B, 0x33, 0x38, 0x3B, 0x35, 0x3B, 0x31, 0x39, 0x36, 0x3B,
        0x34, 0x34])
    ⟨some 0x17⟩ rfl).mpr (by decide +kernel)

/-- `ESC [ 3 8 ; 5 ; 4 2 m`, a foreground, changes the background. -/
theorem extended_colour_changes_background :
    ¬ReadAsUnits
      (opened [0x33, 0x38, 0x3B, 0x35, 0x3B, 0x34, 0x32]) ⟨some 0x17⟩ := by
  rintro ⟨⟨palette, calls⟩, -⟩
  have green :
      (ansiExec (opened [0x33, 0x38, 0x3B, 0x35, 0x3B, 0x34, 0x32])
          finalSgr).calls =
        [.setAttribute 0x27] := by
    decide +kernel
  have items :
      sgrItems
          (sgrParams (opened [0x33, 0x38, 0x3B, 0x35, 0x3B, 0x34, 0x32])) =
        [.foreground 42] := by
    decide +kernel
  have kept := palette.keepsBackground 42 0x17
  rw [green, items] at calls
  obtain ⟨sameCall, -⟩ := List.cons.inj calls
  have changed : (0x27 : UInt64) = palette.foreground 42 0x17 :=
    FirmwareCall.setAttribute.inj sameCall
  rw [← changed] at kept
  exact absurd kept (by decide)

end RubyOnBareMetal.UefiConsole
