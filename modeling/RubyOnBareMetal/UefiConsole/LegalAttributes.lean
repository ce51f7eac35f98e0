import RubyOnBareMetal.UefiConsole.Colours

namespace RubyOnBareMetal.UefiConsole

open Foundation Foundation.Word

/-!
# Attributes the firmware has

An attribute has four bits for the foreground and three for the background.
The mode feeds the attribute of one sequence into the next, so that being
legal is an invariant of the stream; a bright background breaks it.
-/

/-- Four bits of foreground and three of background. -/
abbrev Legal (attr : UInt64) : Prop :=
  attr ≤ 0x7F

/-- The firmware holds a legal attribute, if it has a mode. -/
def LegalMode (console : Console) : Prop :=
  ∀ out attr,
    console.conOut? = some out →
    out.modeAttribute = some attr →
    0 ≤ attr ∧ attr ≤ 0x7F

/-- The background set last is not a bright one. -/
abbrev LegalParams (params : List Nat) : Prop :=
  ∀ p ∈ lastBackground params, ¬(100 ≤ p ∧ p ≤ 107)

/-- An SGR sequence with a protocol to set its attribute is harmless. -/
def HarmlessSgr (console : Console) (c : UInt8) : Prop :=
  console.ansiState = .csi →
    c = finalSgr →
    console.conOut?.isSome →
    LegalParams (sgrParams console)

/-- The parser, for streams whose SGR sequences are harmless. -/
def harmlessParser : Machine Console UInt8 (List FirmwareCall) where
  step := parser.step
  admits := HarmlessSgr

instance (console : Console) (c : UInt8) :
    Decidable (harmlessParser.admits console c) :=
  inferInstanceAs
    (Decidable
      (console.ansiState = .csi →
        c = finalSgr →
        console.conOut?.isSome →
        LegalParams (sgrParams console)))

/-- A call that sets an attribute sets a legal one. -/
def LegalCall (call : FirmwareCall) : Prop :=
  ∀ attr, call = .setAttribute attr → Legal attr

/-- Every attribute that the calls pass to the firmware is legal. -/
def PassesLegal (console : Console) (calls : List Call) : Prop :=
  ∀ attr,
    .setAttribute attr ∈ outputFunctions.output console calls →
    Legal attr

/-! ## Legal results -/

/-- An attribute is legal if it is a byte whose top bit is clear. -/
theorem legal_iff (attr : UInt64) :
    Legal attr ↔ attr.toNat < 256 ∧ highNibble attr < 8 := by
  rw [Legal, UInt64.le_iff_toNat_le, highNibble]
  change attr.toNat ≤ 127 ↔ _
  omega

/-- From a legal attribute the result is legal for exactly such lists. -/
theorem legal_foldl_iff
    {attr : UInt64}
    (legal : Legal attr)
    (params : List Nat) :
    Legal (params.foldl sgr attr) ↔ LegalParams params := by
  obtain ⟨byte, high⟩ := (legal_iff attr).mp legal
  rw [legal_iff, highNibble_foldl, LegalParams]
  refine (and_iff_right (foldl_sgr_lt byte params)).trans ?_
  cases last : lastBackground params with
  | none =>
      simpa using high
  | some p =>
      obtain ⟨-, sets⟩ := mem_of_getLast?_filter last
      simp only [Option.map_some, Option.getD_some, Option.mem_def,
        Option.some.injEq, forall_eq']
      unfold backgroundDigit
      rcases sets with rfl | range | bright
      · simp
      · rw [if_neg (by omega), if_pos (by omega)]
        omega
      · rw [if_neg (by omega), if_neg (by omega)]
        omega

/-- In a legal mode the current attribute is legal. -/
theorem LegalMode.currentAttribute
    {console : Console}
    {out : TextOutput}
    (legalMode : LegalMode console)
    (present : console.conOut? = some out) :
    Legal out.currentAttribute := by
  unfold TextOutput.currentAttribute
  cases mode : out.modeAttribute with
  | none =>
      exact by decide
  | some attr =>
      obtain ⟨notNegative, small⟩ := legalMode out attr present mode
      rw [Int32.le_iff_toInt_le, Int32.toInt_zero] at notNegative
      rw [Int32.le_iff_toInt_le] at small
      change attr.toInt ≤ 127 at small
      obtain ⟨number, value⟩ := Int.eq_ofNat_of_zero_le notNegative
      have numberSmall : number < 2 ^ 31 := by omega
      have sameAttr : attr = Int32.ofNat number := by
        rw [← Int32.toInt_inj, toInt_ofNat numberSmall, value]
      change Legal (uintn attr)
      rw [sameAttr, uintn_ofNat numberSmall, Legal, UInt64.le_iff_toNat_le,
        UInt64.toNat_ofNat_of_lt' (numberSmall.trans (by decide))]
      change number ≤ 127
      omega

/-- A legal attribute that is stored is legal when it is read. -/
theorem storeAttribute_legal
    {out : TextOutput}
    {attr : UInt64}
    (legal : Legal attr)
    {stored : Int32}
    (mode : (out.storeAttribute attr).modeAttribute = some stored) :
    0 ≤ stored ∧ stored ≤ 0x7F := by
  have small : attr.toNat ≤ 127 := UInt64.le_iff_toNat_le.mp legal
  have value : attr.toUInt32.toInt32 = Int32.ofNat attr.toNat := by
    rw [← Int32.toInt_inj, toInt_ofNat (by omega)]
    change attr.toUInt32.toBitVec.toInt = _
    rw [BitVec.toInt_eq_toNat_of_lt]
    · change ((attr.toNat % 2 ^ 32 : Nat) : Int) = _
      omega
    · change 2 * (attr.toNat % 2 ^ 32) < 2 ^ 32
      omega
  obtain ⟨_, -, rfl⟩ := Option.map_eq_some_iff.mp mode
  rw [value, Int32.le_iff_toInt_le, Int32.le_iff_toInt_le,
    toInt_ofNat (by omega)]
  change 0 ≤ (attr.toNat : Int) ∧ (attr.toNat : Int) ≤ 127
  omega

/-! ## Sequences -/

/-- Without an SGR sequence no attribute is set and the protocol stays. -/
theorem ansiExec_other
    (console : Console)
    {final : UInt8}
    (other : final ≠ finalSgr) :
    (∀ attr, .setAttribute attr ∉ (ansiExec console final).calls) ∧
      (ansiExec console final).console.conOut? = console.conOut? := by
  have noPush := ansiPushParam_calls console
  have sameOutput := (ansiPushParam_counts console).2
  rw [← sameOutput]
  unfold ansiExec
  dsimp only
  cases present : (ansiPushParam console).console.conOut? with
  | none =>
      simp [noPush, present]
  | some out =>
      dsimp only
      split
      · simp [present]
      · split
        · refine ⟨fun attr => ?_, present⟩
          split <;> simp
        · simp [noPush, present]

/-- A byte that executes no SGR sequence sets no attribute. -/
theorem step_other
    {console : Console}
    {c : UInt8}
    (other : console.ansiState = .csi → c ≠ finalSgr) :
    (∀ attr, .setAttribute attr ∉ (parser.step console c).1) ∧
      (parser.step console c).2.conOut? = console.conOut? := by
  cases step_cases console c with
  | text _ _ stepped =>
      rw [stepped]
      refine ⟨fun attr => ?_, rfl⟩
      unfold rawPutc
      split
      · simp
      · split <;> simp
  | silent _ _ noCalls sameOutput =>
      simp [noCalls, sameOutput]
  | executed state _ stepped =>
      rw [stepped]
      exact ansiExec_other console (other state)

/-- An SGR sequence sets its result. -/
theorem step_sgr
    {console : Console}
    {out : TextOutput}
    (state : console.ansiState = .csi)
    (present : console.conOut? = some out) :
    (parser.step console finalSgr).1 =
        [.setAttribute (sgrResult console out)] ∧
      (parser.step console finalSgr).2.conOut? =
        some (out.storeAttribute (sgrResult console out)) := by
  rw [step_final state (by decide)]
  exact ansiExec_sgr present

/-- A byte sets legal attributes only exactly if it is harmless. -/
theorem step_legal_iff
    {console : Console}
    {c : UInt8}
    (legalMode : LegalMode console) :
    (∀ call ∈ (parser.step console c).1, LegalCall call) ↔
      HarmlessSgr console c := by
  by_cases sgr : console.ansiState = .csi ∧ c = finalSgr
  · obtain ⟨state, rfl⟩ := sgr
    cases present : console.conOut? with
    | none =>
        rw [step_silent present]
        simp [HarmlessSgr, present]
    | some out =>
        have legal :
            Legal (sgrResult console out) ↔
              LegalParams (sgrParams console) :=
          legal_foldl_iff (legalMode.currentAttribute present)
            (sgrParams console)
        rw [(step_sgr state present).1]
        simpa [HarmlessSgr, LegalCall, state, present] using legal
  · have other : console.ansiState = .csi → c ≠ finalSgr :=
      fun state isSgr => sgr ⟨state, isSgr⟩
    refine iff_of_true ?_ fun state isSgr => absurd isSgr (other state)
    rintro call member attr rfl
    exact absurd member ((step_other other).1 attr)

/-- A harmless byte keeps the mode legal. -/
theorem step_legalMode
    {console : Console}
    {c : UInt8}
    (legalMode : LegalMode console)
    (harmless : HarmlessSgr console c) :
    LegalMode (parser.step console c).2 := by
  by_cases sgr : console.ansiState = .csi ∧ c = finalSgr
  · obtain ⟨state, rfl⟩ := sgr
    cases present : console.conOut? with
    | none =>
        have stillMissing := (step_conOut_none console finalSgr).mpr present
        intro out attr found
        rw [stillMissing] at found
        cases found
    | some out =>
        have legal : Legal (sgrResult console out) :=
          (legal_foldl_iff (legalMode.currentAttribute present)
            (sgrParams console)).mpr
            (harmless state rfl (by simp [present]))
        intro out' attr found mode
        rw [(step_sgr state present).2] at found
        cases found
        exact storeAttribute_legal legal mode
  · have other : console.ansiState = .csi → c ≠ finalSgr :=
      fun state isSgr => sgr ⟨state, isSgr⟩
    intro out attr found
    rw [(step_other other).2] at found
    exact legalMode out attr found

/--
From a legal attribute, any calls that print any bytes pass only legal
attributes to the firmware if and only if no SGR sequence that is executed
sets a bright background last.
-/
theorem attributes_legal_iff
    (console : Console)
    (calls : List Call)
    (legalMode : LegalMode console) :
    PassesLegal console calls ↔
      harmlessParser.Admissible console (calls.flatMap Call.bytes) := by
  have legalCalls :
      (∀ call ∈ parser.output console (calls.flatMap Call.bytes),
          LegalCall call) ↔
        harmlessParser.Admissible console (calls.flatMap Call.bytes) :=
    parser.output_good_iff_of_invariant
      step_legal_iff step_legalMode legalMode
  unfold PassesLegal outputFunctions
  rw [parser.output_fed, ← legalCalls]
  constructor
  · rintro legal call member attr rfl
    exact legal attr member
  · intro legal attr member
    exact legal (.setAttribute attr) member attr rfl

/-- A bright background that another one hides is harmless. -/
theorem attributes_legal_hidden :
    PassesLegal (.boot (some ⟨some ⟨some 7⟩⟩) fun _ => 0xCC)
      [.write [0x1B, 0x5B, 0x31, 0x30, 0x31, 0x3B, 0x34, 0x32, 0x6D, 0x41]] := by
  have legalMode :
      LegalMode (.boot (some ⟨some ⟨some 7⟩⟩) fun _ => 0xCC) := by
    rintro out attr found mode
    cases found
    cases mode
    decide
  exact (attributes_legal_iff (.boot (some ⟨some ⟨some 7⟩⟩) fun _ => 0xCC)
    [.write [0x1B, 0x5B, 0x31, 0x30, 0x31, 0x3B, 0x34, 0x32, 0x6D, 0x41]]
    legalMode).mpr (by decide +kernel)

/-- `ESC [ 1 0 1 m` passes an attribute with eight bits. -/
theorem attributes_illegal :
    ¬PassesLegal (.boot (some ⟨some ⟨some 7⟩⟩) fun _ => 0xCC)
      [.write [0x1B, 0x5B, 0x31, 0x30, 0x31, 0x6D]] := by
  intro legal
  exact absurd (legal 0x97 (by decide +kernel)) (by decide)

end RubyOnBareMetal.UefiConsole
