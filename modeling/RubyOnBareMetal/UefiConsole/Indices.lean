import RubyOnBareMetal.UefiConsole.Simulation

namespace RubyOnBareMetal.UefiConsole

open Foundation

/-!
# Accesses to `csi_params`

`ansi_push_param` stops storing at the eighth parameter but goes on counting,
and the loop of an SGR sequence runs to the count.  So an access leaves the
array exactly where such a loop meets more than eight parameters, or where
the count itself has overflowed.
-/

/-- An index of one of the eight elements. -/
abbrev InBounds (index : Int32) : Prop :=
  0 ≤ index ∧ index < maxParams

/--
What keeps the next byte in bounds: a parameter is pushed only while the
count is not negative, and an SGR sequence is executed on a protocol only if
no more than eight parameters were pushed, the last one included.
-/
def Guarded (console : Console) (c : UInt8) : Prop :=
  console.ansiState = .csi →
    c = semicolon ∨ isFinal c →
      0 ≤ console.csiN ∧
        (c = finalSgr →
          console.conOut?.isSome →
          console.csiN + 1 ≤ maxParams)

instance (console : Console) (c : UInt8) :
    Decidable (Guarded console c) :=
  inferInstanceAs
    (Decidable
      (console.ansiState = .csi →
        c = semicolon ∨ isFinal c →
          0 ≤ console.csiN ∧
            (c = finalSgr →
              console.conOut?.isSome →
              console.csiN + 1 ≤ maxParams)))

/-- The accesses of the parser, byte by byte. -/
def accessLog : Machine Console UInt8 (List Int32) where
  step console c :=
    ((parseByte console c).indices, (parseByte console c).console)
  admits := Guarded

/-! ## Accesses of single functions -/

/-- A push stores at the count if that is below the length. -/
theorem ansiPushParam_indices (console : Console) :
    (ansiPushParam console).indices =
      if console.csiN < maxParams then [console.csiN] else [] := by
  by_cases below : console.csiN < maxParams
  · simp only [ansiPushParam, if_pos below]
  · simp only [ansiPushParam, if_neg below]

/-- A push is in bounds as long as the count is not negative. -/
theorem ansiPushParam_inBounds_iff (console : Console) :
    (∀ index ∈ (ansiPushParam console).indices, InBounds index) ↔
      0 ≤ console.csiN := by
  rw [ansiPushParam_indices]
  split
  · next below =>
      simp [InBounds, below]
  · next above =>
      have notNegative : 0 ≤ console.csiN := by
        rw [Int32.lt_iff_toInt_lt] at above
        change ¬console.csiN.toInt < 8 at above
        rw [Int32.le_iff_toInt_le]
        change 0 ≤ console.csiN.toInt
        omega
      simp [notNegative]

/-- A push counts one more parameter and keeps the protocol. -/
theorem ansiPushParam_counts (console : Console) :
    (ansiPushParam console).console.csiN = console.csiN + 1 ∧
      (ansiPushParam console).console.conOut? = console.conOut? := by
  unfold ansiPushParam
  dsimp only
  split <;> exact ⟨rfl, rfl⟩

/-- A coordinate is read at its own index. -/
theorem positionParam_indices
    {console : Console}
    {index accessed : Int32}
    (member : accessed ∈ (positionParam console index).1) :
    accessed = index := by
  unfold positionParam at member
  split at member
  · split at member
    · simpa using member
    · simpa using member
  · simp at member

/-- The parameter of `J` is read at index 0. -/
theorem eraseParam_indices
    {console : Console}
    {accessed : Int32}
    (member : accessed ∈ (eraseParam console).1) :
    accessed = 0 := by
  unfold eraseParam at member
  split at member
  · split at member
    · simpa using member
    · simpa using member
  · simp at member

/-- An SGR parameter is read at the index of the loop. -/
theorem mem_sgrParam_indices
    {console : Console}
    {index accessed : Int32} :
    accessed ∈ (sgrParam console index).1 ↔ accessed = index := by
  unfold sgrParam
  split <;> simp

/-- The SGR loop is in bounds exactly up to eight parameters. -/
theorem loop_inBounds_iff (console : Console) :
    (∀ index ∈
        (loopIndices console).flatMap fun i => (sgrParam console i).1,
      InBounds index) ↔
      console.csiN ≤ maxParams := by
  have count : console.csiN.toInt < 2 ^ 31 := console.csiN.toInt_lt
  rw [Int32.le_iff_toInt_le]
  change _ ↔ console.csiN.toInt ≤ 8
  simp only [List.mem_flatMap, mem_sgrParam_indices, loopIndices,
    List.mem_map, List.mem_range]
  constructor
  · intro inBounds
    by_contra tooMany
    -- the ninth parameter is read
    obtain ⟨-, below⟩ :=
      inBounds 8 ⟨8, ⟨8, by omega, rfl⟩, rfl⟩
    exact absurd below (by decide)
  · rintro few index ⟨i, ⟨k, inLoop, rfl⟩, rfl⟩
    have small : k < 8 := by omega
    constructor
    · exact (ofNat_le_ofNat_iff (Nat.two_pow_pos 31) (by omega)).mpr
        (Nat.zero_le k)
    · have below : Int32.ofNat k < Int32.ofNat 8 :=
        (ofNat_lt_ofNat_iff (by omega) (by omega)).mpr small
      exact below

/-- The accesses of `ansi_exec` after its push. -/
def execReads (pushed : Console) (final : UInt8) : List Int32 :=
  match pushed.conOut? with
  | none => []
  | some _ =>
      if final = finalCup ∨ final = finalHvp then
        (positionParam pushed 0).1 ++ (positionParam pushed 1).1
      else if final = finalEd then
        (eraseParam pushed).1
      else if final = finalSgr then
        (loopIndices pushed).flatMap fun i => (sgrParam pushed i).1
      else
        []

/-- `ansi_exec` pushes and then reads. -/
theorem ansiExec_indices (console : Console) (final : UInt8) :
    (ansiExec console final).indices =
      (ansiPushParam console).indices ++
        execReads (ansiPushParam console).console final := by
  unfold ansiExec execReads
  dsimp only
  cases (ansiPushParam console).console.conOut? with
  | none =>
      simp
  | some out =>
      dsimp only
      split
      · simp
      · split
        · rfl
        · split
          · rfl
          · simp

/-- After the push only the loop of an SGR sequence can leave the array. -/
theorem execReads_inBounds_iff (pushed : Console) (final : UInt8) :
    (∀ index ∈ execReads pushed final, InBounds index) ↔
      (final = finalSgr →
        pushed.conOut?.isSome →
        pushed.csiN ≤ maxParams) := by
  have zeroAndOne : InBounds 0 ∧ InBounds 1 := by decide
  unfold execReads
  cases pushed.conOut? with
  | none =>
      simp
  | some out =>
      dsimp only
      split
      · next position =>
          have notSgr : final ≠ finalSgr := by
            rcases position with rfl | rfl <;> decide
          refine iff_of_true ?_ fun sgr => absurd sgr notSgr
          intro index member
          rcases List.mem_append.mp member with row | col
          · rw [positionParam_indices row]
            exact zeroAndOne.1
          · rw [positionParam_indices col]
            exact zeroAndOne.2
      · split
        · next erase =>
            have notSgr : final ≠ finalSgr := by
              rw [erase]
              decide
            refine iff_of_true ?_ fun sgr => absurd sgr notSgr
            intro index member
            rw [eraseParam_indices member]
            exact zeroAndOne.1
        · split
          · next sgr =>
              rw [loop_inBounds_iff]
              simp [sgr]
          · next notSgr =>
              simp [notSgr]

/-- Executing a sequence is in bounds under the two conditions. -/
theorem ansiExec_inBounds_iff (console : Console) (final : UInt8) :
    (∀ index ∈ (ansiExec console final).indices, InBounds index) ↔
      0 ≤ console.csiN ∧
        (final = finalSgr →
          console.conOut?.isSome →
          console.csiN + 1 ≤ maxParams) := by
  obtain ⟨counted, sameOutput⟩ := ansiPushParam_counts console
  rw [ansiExec_indices, List.forall_mem_append,
    ansiPushParam_inBounds_iff, execReads_inBounds_iff, counted,
    sameOutput]

/-! ## The parser -/

/-- A byte is processed in bounds exactly if it is guarded. -/
theorem parseByte_inBounds_iff {console : Console} {c : UInt8} :
    (∀ index ∈ (accessLog.step console c).1, InBounds index) ↔
      accessLog.admits console c := by
  change (∀ index ∈ (parseByte console c).indices, InBounds index) ↔
    Guarded console c
  unfold parseByte Guarded
  cases state : console.ansiState with
  | normal =>
      dsimp only
      split <;> simp
  | esc =>
      dsimp only
      split <;> simp
  | csi =>
      dsimp only
      by_cases digit : isDigit c
      · obtain ⟨notSeparator, notSkipped, -⟩ := isDigit_ne digit
        have notFinal : ¬isFinal c := fun final =>
          (isFinal_ne final).1 digit
        simp [digit, notSeparator, notFinal]
      · rw [if_neg digit]
        by_cases separator : c = semicolon
        · have notSgr : semicolon ≠ finalSgr := by decide
          subst separator
          rw [if_pos rfl, ansiPushParam_inBounds_iff]
          simp [notSgr]
        · rw [if_neg separator]
          by_cases skipped : isSkipped c
          · have notFinal : ¬isFinal c := fun final =>
              (isFinal_ne final).2.2 skipped
            simp [skipped, separator, notFinal]
          · rw [if_neg skipped]
            by_cases final : isFinal c
            · rw [if_pos final]
              dsimp only
              rw [ansiExec_inBounds_iff]
              simp [final]
            · simp [final, separator]

/--
The accesses to `csi_params` while any calls print any bytes, from any state
of the parser, all use an index from 0 to 7 exactly if every byte is guarded
in the state it meets.
-/
theorem accesses_in_bounds_iff
    (console : Console)
    (calls : List Call) :
    (∀ index ∈ (accessLog.fed Call.bytes).output console calls,
      InBounds index) ↔
      accessLog.Admissible console (calls.flatMap Call.bytes) := by
  rw [accessLog.output_fed]
  exact accessLog.output_good_iff parseByte_inBounds_iff

/-- The ninth parameter of an SGR sequence is read beyond the array. -/
theorem accesses_out_of_bounds :
    ¬∀ (calls : List Call),
      ∀ index ∈
          (accessLog.fed Call.bytes).output
            (.boot (some ⟨some ⟨some 7⟩⟩) fun _ => 0) calls,
        0 ≤ index ∧ index < 8 := by
  intro inBounds
  obtain ⟨-, below⟩ :=
    inBounds
      [.write [0x1B, 0x5B, 0x3B, 0x3B, 0x3B, 0x3B, 0x3B, 0x3B, 0x3B,
        0x3B, 0x6D]]
      8 (by decide +kernel)
  exact absurd below (by decide)

end RubyOnBareMetal.UefiConsole
