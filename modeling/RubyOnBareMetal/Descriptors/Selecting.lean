import RubyOnBareMetal.Descriptors.Polling
import RubyOnBareMetal.Foundation.WordSet

namespace RubyOnBareMetal.Descriptors

open Foundation

/-!
# `pselect6`

Three sets of descriptors, of which the call changes only first words: of the
read set if descriptor 0 is in it, of the write set if more than two
descriptors are asked about.  It counts each of the two as at most one.
-/

/-- The sets of a call; each may be null. -/
structure FdSets where
  readfds : Option WordSet
  writefds : Option WordSet
  exceptfds : Option WordSet

/-- Whether a descriptor is in a set that may be null. -/
def inSet (set : Option WordSet) (fd : Nat) : Bool :=
  set.any (·.has fd)

/-- The number of descriptors below `nfds` in a set that may be null. -/
def sizeBelow (set : Option WordSet) (nfds : Nat) : Nat :=
  set.elim 0 (·.countBelow nfds)

/-- What a call leaves: its result, the sets and the console. -/
structure Selected (Input : Type) where
  ret : Int64
  sets : FdSets
  input : Input

section Select

variable {Input : Type}
variable (serialDataReady : Input → Bool × Input)

/-- The block of `pselect6` for the read set, with the count. -/
def selectRead
    (input : Input)
    (nfds : Int32)
    (readfds : Option WordSet) :
    Option WordSet × Int32 × Input :=
  match readfds with
  | none => (none, 0, input)
  | some set =>
      if 0 < nfds ∧ set 0 &&& 1 ≠ 0 then
        let (dataReady, input) := serialDataReady input
        if dataReady then
          (some (set.withFirst 1), 0 + 1, input)
        else
          (some (set.withFirst 0), 0, input)
      else
        (some set, 0, input)

/-- The block of `pselect6` for the write set. -/
def selectWrite
    (ready : Int32)
    (nfds : Int32)
    (writefds : Option WordSet) :
    Option WordSet × Int32 :=
  match writefds with
  | none => (none, ready)
  | some set =>
      if 2 < nfds then
        let set := set.withFirst (set 0 &&& 6)
        (some set, if set 0 ≠ 0 then ready + 1 else ready)
      else
        (some set, ready)

/-- `pselect6`. -/
def pselect6 (input : Input) (nfds : Int32) (sets : FdSets) :
    Selected Input :=
  let (readfds, ready, input) :=
    selectRead serialDataReady input nfds sets.readfds
  let (writefds, ready) := selectWrite ready nfds sets.writefds
  {
    ret := ready.toInt64
    sets := { sets with readfds := readfds, writefds := writefds }
    input := input
  }

/-! ## What it should do -/

/-- The events that three sets ask for, or report, for a descriptor. -/
def FdSets.events (sets : FdSets) (fd : Nat) : Int16 :=
  (if inSet sets.readfds fd then pollIn else 0) |||
    (if inSet sets.exceptfds fd then pollPri else 0) |||
    (if inSet sets.writefds fd then pollOut else 0)

/-- The number of descriptors below `nfds` in the three sets. -/
def FdSets.size (sets : FdSets) (nfds : Nat) : Nat :=
  sizeBelow sets.readfds nfds + sizeBelow sets.writefds nfds +
    sizeBelow sets.exceptfds nfds

/-- What is promised of the sets and of the result. -/
structure Selects
    (input : Input)
    (nfds : Int32)
    (sets : FdSets) : Prop where
  subset :
    let after := (pselect6 serialDataReady input nfds sets).sets
    ∀ fd,
      (inSet after.readfds fd → inSet sets.readfds fd) ∧
        (inSet after.writefds fd → inSet sets.writefds fd) ∧
        (inSet after.exceptfds fd → inSet sets.exceptfds fd)
  counted :
    let result := pselect6 serialDataReady input nfds sets
    result.ret.toInt = (result.sets.size nfds.toInt.toNat : Nat)
  writable :
    let after := (pselect6 serialDataReady input nfds sets).sets
    ∀ fd,
      fd = 1 ∨ fd = 2 →
      fd < nfds.toInt.toNat →
      inSet sets.writefds fd →
      inSet after.writefds fd
  agrees :
    let after := (pselect6 serialDataReady input nfds sets).sets
    ∀ fd,
      fd ≤ 2 →
      fd < nfds.toInt.toNat →
      (ppoll serialDataReady input
            [⟨Int32.ofNat fd, sets.events fd, 0⟩] 1).fds.map
          PollFd.revents =
        [after.events fd]

/-- No descriptor from one number up to another is in a set. -/
def NoneFrom (low high : Nat) (set : Option WordSet) : Prop :=
  ∀ fd, low ≤ fd → fd < high → inSet set fd = false

/--
The sets ask only about what the call looks at: for reading about descriptor
0, together with others of the first word, or about none; for writing about
one of the descriptors 1 and 2 together with others of the first word, or
about none if `nfds` is at most 2; and for exceptions about none.
-/
structure Narrow (nfds : Nat) (sets : FdSets) : Prop where
  read :
    NoneFrom (if inSet sets.readfds 0 then 64 else 0) nfds sets.readfds
  write :
    NoneFrom (if 2 < nfds then 64 else 0) nfds sets.writefds
  oneOutput :
    2 < nfds →
    ¬(inSet sets.writefds 1 = true ∧ inSet sets.writefds 2 = true)
  except : NoneFrom 0 nfds sets.exceptfds

/-! ## Words -/

/-- The test of a single bit. -/
theorem and_one_ne_zero_iff (word : UInt64) :
    word &&& 1 ≠ 0 ↔ word.toNat.testBit 0 = true := by
  rw [Ne, ← UInt64.toNat_inj, UInt64.toNat_and, Nat.testBit_zero,
    decide_eq_true_eq]
  change ¬word.toNat &&& 1 = 0 ↔ _
  rw [Nat.and_one_is_mod]
  omega

/-- The bits of the mask for the output. -/
theorem testBit_six :
    ∀ fd < 64, Nat.testBit 6 fd = decide (fd = 1 ∨ fd = 2) := by
  decide

/-- The bits of a word under the mask for the output. -/
theorem testBit_and_six
    (word : UInt64)
    {fd : Nat}
    (first : fd < 64) :
    (word &&& 6).toNat.testBit fd =
      (word.toNat.testBit fd && decide (fd = 1 ∨ fd = 2)) := by
  rw [UInt64.toNat_and, Nat.testBit_and, ← testBit_six fd first]
  rfl

/-- A word under the mask is zero only if neither bit is set. -/
theorem and_six_ne_zero_iff (word : UInt64) :
    word &&& 6 ≠ 0 ↔
      word.toNat.testBit 1 = true ∨ word.toNat.testBit 2 = true := by
  constructor
  · intro nonzero
    have value : (word &&& 6).toNat ≠ 0 := by
      rwa [Ne, ← UInt64.toNat_inj] at nonzero
    obtain ⟨fd, set⟩ := Nat.exists_testBit_of_ne_zero value
    have first : fd < 64 := by
      by_contra large
      have small : (word &&& 6).toNat < 2 ^ fd :=
        Nat.lt_of_lt_of_le (word &&& 6).toNat_lt
          (Nat.pow_le_pow_right Nat.two_pos (by omega))
      rw [Nat.testBit_lt_two_pow small] at set
      exact Bool.false_ne_true set
    rw [testBit_and_six word first] at set
    simp only [Bool.and_eq_true, decide_eq_true_eq] at set
    rcases set.2 with rfl | rfl
    · exact .inl set.1
    · exact .inr set.1
  · intro either zero
    have noBits (fd : Nat) : (word &&& 6).toNat.testBit fd = false := by
      rw [zero]
      exact Nat.zero_testBit fd
    rcases either with one | two
    · have bit := testBit_and_six word (show 1 < 64 by omega)
      rw [noBits, one] at bit
      exact absurd bit (by decide)
    · have bit := testBit_and_six word (show 2 < 64 by omega)
      rw [noBits, two] at bit
      exact absurd bit (by decide)

/-- `nfds` is compared as a number. -/
theorem lt_nfds_iff
    {low : Int32}
    (nfds : Int32)
    (notNegative : 0 ≤ low.toInt) :
    low < nfds ↔ low.toInt.toNat < nfds.toInt.toNat := by
  rw [Int32.lt_iff_toInt_lt]
  omega

/-- The block for the read set asks about descriptor 0. -/
theorem selectRead_asked
    (input : Input)
    {nfds : Int32}
    {set : WordSet}
    (asked : 0 < nfds ∧ set 0 &&& 1 ≠ 0) :
    selectRead serialDataReady input nfds (some set) =
      (some (set.withFirst (serialDataReady input).1.toUInt64),
        Int32.ofNat (serialDataReady input).1.toNat,
        (serialDataReady input).2) := by
  simp only [selectRead, if_pos asked]
  cases serialDataReady input with
  | mk dataReady after =>
      cases dataReady <;> rfl

/-- Or it leaves the set alone. -/
theorem selectRead_not_asked
    (input : Input)
    {nfds : Int32}
    {set : WordSet}
    (notAsked : ¬(0 < nfds ∧ set 0 &&& 1 ≠ 0)) :
    selectRead serialDataReady input nfds (some set) =
      (some set, 0, input) := by
  simp only [selectRead, if_neg notAsked]

/-! ## What is counted -/

/--
What the count of a set has beyond what the call adds to its result for it:
the call adds at most one, and nothing is left exactly in a given case.
-/
structure Counts
    (set : Option WordSet)
    (nfds added : Nat)
    (exact : Prop) : Prop where
  atMost : added ≤ 1
  enough : added ≤ sizeBelow set nfds
  all : sizeBelow set nfds = added ↔ exact

/-- Nothing is added for a set that is left alone. -/
theorem counts_untouched
    (set : Option WordSet)
    (nfds : Nat) :
    Counts set nfds 0 (NoneFrom 0 nfds set) where
  atMost := Nat.zero_le 1
  enough := Nat.zero_le _
  all := by
    cases set with
    | none =>
        simp [sizeBelow, NoneFrom, inSet]
    | some set =>
        simp [sizeBelow, NoneFrom, inSet, WordSet.countBelow_eq_zero_iff]

/-- What is counted after a member, exactly if there is no other. -/
theorem countBelow_eq_one_iff
    (set : WordSet)
    {nfds fd : Nat}
    (below : fd < nfds)
    (member : set.has fd = true) :
    1 ≤ set.countBelow nfds ∧
      (set.countBelow nfds = 1 ↔
        ∀ other, other < nfds → other ≠ fd → set.has other = false) := by
  have split := countP_range_erase set.has below
  rw [member, Bool.toNat_true] at split
  rw [WordSet.countBelow, split]
  refine ⟨Nat.le_add_right 1 _, ?_⟩
  rw [Nat.add_eq_left, List.countP_eq_zero]
  simp only [List.mem_range, Bool.and_eq_true, decide_eq_true_eq, not_and,
    not_not]
  refine forall_congr' fun other => forall_congr' fun _ => ?_
  cases set.has other <;> simp

/--
If the first word keeps only some members, no other is left exactly if none
is in the other words.
-/
theorem noOthers_withFirst_iff
    (set : WordSet)
    (word : UInt64)
    (nfds : Nat)
    {kept : Nat → Prop}
    (small : ∀ fd, kept fd → fd < 64)
    (cleared :
      ∀ fd, fd < 64 → ¬kept fd → word.toNat.testBit fd = false) :
    (∀ fd, fd < nfds → ¬kept fd → (set.withFirst word).has fd = false) ↔
      NoneFrom 64 nfds (some set) := by
  constructor
  · intro noOthers fd low high
    have notKept : ¬kept fd := fun keeps => by
      have := small fd keeps
      omega
    have absent := noOthers fd high notKept
    rwa [WordSet.has_withFirst, if_neg (by omega)] at absent
  · intro noneFrom fd below notKept
    rw [WordSet.has_withFirst]
    split
    · next first =>
        exact cleared fd first notKept
    · next later =>
        exact noneFrom fd (by omega) below

/-- The block for the read set counts descriptor 0 if there is input. -/
theorem selectRead_counts
    (input : Input)
    (nfds : Int32)
    (readfds : Option WordSet) :
    let selected := selectRead serialDataReady input nfds readfds
    ∃ added,
      selected.2.1 = Int32.ofNat added ∧
        Counts selected.1 nfds.toInt.toNat added
          (NoneFrom (if inSet readfds 0 then 64 else 0) nfds.toInt.toNat
            readfds) := by
  have positive : 0 < nfds ↔ 0 < nfds.toInt.toNat :=
    lt_nfds_iff nfds (Int.le_refl 0)
  cases readfds with
  | none =>
      exact ⟨0, rfl, counts_untouched none _⟩
  | some set =>
      have first : inSet (some set) 0 = (set 0).toNat.testBit 0 :=
        set.has_of_lt (show 0 < 64 by omega)
      have tested :
          0 < nfds ∧ set 0 &&& 1 ≠ 0 ↔
            0 < nfds.toInt.toNat ∧ inSet (some set) 0 = true := by
        rw [positive, and_one_ne_zero_iff, first]
      generalize nfds.toInt.toNat = count at tested
      by_cases asked : inSet (some set) 0 = true
      · rw [if_pos asked]
        by_cases anyAsked : 0 < count
        · rw [selectRead_asked serialDataReady input
            (tested.mpr ⟨anyAsked, asked⟩)]
          cases (serialDataReady input).1 with
          | false =>
              refine ⟨0, rfl, Nat.zero_le 1, Nat.zero_le _, ?_⟩
              have noOthers :=
                noOthers_withFirst_iff set 0 count
                  (show ∀ fd : Nat, False → fd < 64 from
                    fun _ impossible => impossible.elim)
                  (fun fd _ _ => Nat.zero_testBit fd)
              simp only [not_false_eq_true, true_imp_iff] at noOthers
              exact (WordSet.countBelow_eq_zero_iff _ count).trans noOthers
          | true =>
              have member : (set.withFirst 1).has 0 = true := by
                rw [WordSet.has_withFirst, if_pos (by omega)]
                rfl
              obtain ⟨enough, exact⟩ :=
                countBelow_eq_one_iff (set.withFirst 1) anyAsked member
              refine ⟨1, rfl, Nat.le_refl 1, enough, exact.trans ?_⟩
              exact noOthers_withFirst_iff set 1 count
                (fun fd zero => by omega)
                (by decide)
        · obtain rfl : count = 0 := Nat.eq_zero_of_not_pos anyAsked
          rw [selectRead_not_asked serialDataReady input
            fun both => anyAsked (tested.mp both).1]
          exact ⟨0, rfl, Nat.zero_le 1, Nat.zero_le _,
            iff_of_true rfl fun fd _ high =>
              absurd high (Nat.not_lt_zero fd)⟩
      · rw [if_neg asked, selectRead_not_asked serialDataReady input
          fun both => asked (tested.mp both).2]
        exact ⟨0, rfl, counts_untouched (some set) count⟩

/-- Under the mask a descriptor of the output stays as it was. -/
theorem has_withFirst_outputs
    (set : WordSet)
    {fd : Nat}
    (isOutput : fd = 1 ∨ fd = 2) :
    (set.withFirst (set 0 &&& 6)).has fd = inSet (some set) fd := by
  have first : fd < 64 := by omega
  rw [WordSet.has_withFirst, if_pos first, testBit_and_six _ first]
  simp [isOutput, inSet, set.has_of_lt first]

/-- Under the mask the output is left, and what is in the other words. -/
theorem countBelow_outputs
    (set : WordSet)
    {nfds : Nat}
    (large : 2 < nfds) :
    ∃ others,
      (set.withFirst (set 0 &&& 6)).countBelow nfds =
          (inSet (some set) 1).toNat + (inSet (some set) 2).toNat +
            others ∧
        (others = 0 ↔ NoneFrom 64 nfds (some set)) := by
  have counted :=
    countP_range_erase_two (set.withFirst (set 0 &&& 6)).has
      (show 2 ≠ 1 by omega) (show 1 < nfds by omega) large
  have noOthers :=
    noOthers_withFirst_iff set (set 0 &&& 6) nfds
      (show ∀ fd, fd = 1 ∨ fd = 2 → fd < 64 by omega)
      (fun fd first notKept => by
        rw [testBit_and_six _ first, decide_eq_false notKept,
          Bool.and_false])
  rw [has_withFirst_outputs set (.inl rfl),
    has_withFirst_outputs set (.inr rfl)] at counted
  refine ⟨_, counted, ?_⟩
  rw [← noOthers, List.countP_eq_zero]
  simp only [List.mem_range, Bool.and_eq_true, decide_eq_true_eq, not_and',
    Bool.not_eq_true]

/-- The block for the write set counts the output at most once. -/
theorem selectWrite_counts
    (ready nfds : Int32)
    (writefds : Option WordSet) :
    let selected := selectWrite ready nfds writefds
    ∃ added,
      selected.2 = ready + Int32.ofNat added ∧
        Counts selected.1 nfds.toInt.toNat added
          (NoneFrom (if 2 < nfds.toInt.toNat then 64 else 0)
              nfds.toInt.toNat writefds ∧
            (2 < nfds.toInt.toNat →
              ¬(inSet writefds 1 = true ∧ inSet writefds 2 = true))) := by
  have more : 2 < nfds ↔ 2 < nfds.toInt.toNat :=
    lt_nfds_iff nfds (by decide)
  generalize nfds.toInt.toNat = count at more
  cases writefds with
  | none =>
      refine ⟨0, (Int32.add_zero ready).symm, ?_⟩
      exact {
        atMost := Nat.zero_le 1
        enough := Nat.zero_le _
        all := iff_of_true rfl
          ⟨fun _ _ _ => rfl, fun _ both => Bool.false_ne_true both.1⟩
      }
  | some set =>
      simp only [selectWrite, more]
      by_cases large : 2 < count
      · rw [if_pos large, if_pos large]
        have word : set.withFirst (set 0 &&& 6) 0 = set 0 &&& 6 :=
          Function.update_self 0 _ set
        have either :
            set 0 &&& 6 ≠ 0 ↔
              inSet (some set) 1 = true ∨ inSet (some set) 2 = true := by
          have one := set.has_of_lt (show 1 < 64 by omega)
          have two := set.has_of_lt (show 2 < 64 by omega)
          rw [and_six_ne_zero_iff, ← one, ← two]
          rfl
        -- two descriptors are counted as one, so one is missing
        have bothCounted (one two : Bool) :
            one.toNat + two.toNat =
              (one || two).toNat + (one && two).toNat := by
          cases one <;> cases two <;> rfl
        have notBoth (one two : Bool) :
            (one && two).toNat = 0 ↔ ¬(one = true ∧ two = true) := by
          cases one <;> cases two <;> decide
        obtain ⟨others, counted, othersZero⟩ :=
          countBelow_outputs set large
        rw [bothCounted] at counted
        refine ⟨(inSet (some set) 1 || inSet (some set) 2).toNat, ?_,
          Bool.toNat_le _, ?_, ?_⟩
        · simp only [word, either]
          cases inSet (some set) 1 <;> cases inSet (some set) 2 <;> simp
        · change _ ≤ (set.withFirst (set 0 &&& 6)).countBelow count
          omega
        · change (set.withFirst (set 0 &&& 6)).countBelow count = _ ↔ _
          rw [imp_iff_right large, ← notBoth, ← othersZero]
          omega
      · rw [if_neg large, if_neg large]
        have untouched := counts_untouched (some set) count
        refine ⟨0, (Int32.add_zero ready).symm, Nat.zero_le 1,
          Nat.zero_le _, untouched.all.trans ?_⟩
        exact (and_iff_left fun contra => absurd contra large).symm

/-- `pselect6` is its two blocks, one after the other. -/
theorem pselect6_eq
    (input : Input)
    (nfds : Int32)
    (sets : FdSets) :
    let reading := selectRead serialDataReady input nfds sets.readfds
    let writing := selectWrite reading.2.1 nfds sets.writefds
    pselect6 serialDataReady input nfds sets =
      {
        ret := writing.2.toInt64
        sets := ⟨reading.1, writing.1, sets.exceptfds⟩
        input := reading.2.2
      } :=
  rfl

/-- `pselect6` counts what the two blocks add. -/
theorem pselect6_counted_iff
    (input : Input)
    (nfds : Int32)
    (sets : FdSets) :
    (pselect6 serialDataReady input nfds sets).ret.toInt =
        ((pselect6 serialDataReady input nfds sets).sets.size
          nfds.toInt.toNat : Nat) ↔
      Narrow nfds.toInt.toNat sets := by
  obtain ⟨readers, readReturned, readCounts⟩ :=
    selectRead_counts serialDataReady input nfds sets.readfds
  obtain ⟨writers, writeReturned, writeCounts⟩ :=
    selectWrite_counts
      (selectRead serialDataReady input nfds sets.readfds).2.1 nfds
      sets.writefds
  have exceptCounts := counts_untouched sets.exceptfds nfds.toInt.toNat
  have returned :
      (pselect6 serialDataReady input nfds sets).ret.toInt =
        (readers + writers : Nat) := by
    have small := readCounts.atMost
    have alsoSmall := writeCounts.atMost
    rw [pselect6_eq, Int32.toInt_toInt64, writeReturned, readReturned,
      ← Int32.ofNat_add]
    exact Int32.toInt_ofNat_of_lt (by omega)
  have narrow :
      Narrow nfds.toInt.toNat sets ↔
        NoneFrom (if inSet sets.readfds 0 then 64 else 0)
            nfds.toInt.toNat sets.readfds ∧
          (NoneFrom (if 2 < nfds.toInt.toNat then 64 else 0)
              nfds.toInt.toNat sets.writefds ∧
            (2 < nfds.toInt.toNat →
              ¬(inSet sets.writefds 1 = true ∧
                inSet sets.writefds 2 = true))) ∧
          NoneFrom 0 nfds.toInt.toNat sets.exceptfds := by
    constructor
    · intro narrow
      exact ⟨narrow.read, ⟨narrow.write, narrow.oneOutput⟩,
        narrow.except⟩
    · rintro ⟨read, ⟨write, oneOutput⟩, except⟩
      exact ⟨read, write, oneOutput, except⟩
  have readEnough := readCounts.enough
  have writeEnough := writeCounts.enough
  rw [returned, narrow, ← readCounts.all, ← writeCounts.all,
    ← exceptCounts.all, Int.ofNat_inj]
  rw [pselect6_eq]
  dsimp only [FdSets.size]
  omega

/-! ## What is reported -/

/-- Of the first word of the read set only descriptor 0 is reported. -/
theorem inSet_selectRead
    (input : Input)
    (nfds : Int32)
    (readfds : Option WordSet)
    (fd : Nat) :
    inSet (selectRead serialDataReady input nfds readfds).1 fd =
      if 0 < nfds.toInt.toNat ∧ inSet readfds 0 = true ∧ fd < 64 then
        decide (fd = 0) && (serialDataReady input).1
      else
        inSet readfds fd := by
  have positive : 0 < nfds ↔ 0 < nfds.toInt.toNat :=
    lt_nfds_iff nfds (Int.le_refl 0)
  generalize nfds.toInt.toNat = count at positive
  cases readfds with
  | none =>
      simp [selectRead, inSet]
  | some set =>
      have first : inSet (some set) 0 = (set 0).toNat.testBit 0 :=
        set.has_of_lt (show 0 < 64 by omega)
      have oneBit :
          ∀ dataReady : Bool, ∀ fd < 64,
            dataReady.toUInt64.toNat.testBit fd =
              (decide (fd = 0) && dataReady) := by
        decide
      have tested :
          0 < nfds ∧ set 0 &&& 1 ≠ 0 ↔
            0 < count ∧ inSet (some set) 0 = true := by
        rw [positive, and_one_ne_zero_iff, first]
      by_cases asked : 0 < count ∧ inSet (some set) 0 = true
      · rw [selectRead_asked serialDataReady input (tested.mpr asked)]
        change (set.withFirst _).has fd = _
        rw [WordSet.has_withFirst]
        by_cases inFirst : fd < 64
        · rw [if_pos inFirst, if_pos ⟨asked.1, asked.2, inFirst⟩]
          exact oneBit (serialDataReady input).1 fd inFirst
        · rw [if_neg inFirst, if_neg fun all => inFirst all.2.2]
          rfl
      · rw [selectRead_not_asked serialDataReady input
            fun both => asked (tested.mp both),
          if_neg fun all => asked ⟨all.1, all.2.1⟩]

/-- Of the first word of the write set only the output is reported. -/
theorem inSet_selectWrite
    (ready nfds : Int32)
    (writefds : Option WordSet)
    (fd : Nat) :
    inSet (selectWrite ready nfds writefds).1 fd =
      if 2 < nfds.toInt.toNat ∧ fd < 64 then
        inSet writefds fd && decide (fd = 1 ∨ fd = 2)
      else
        inSet writefds fd := by
  have more : 2 < nfds ↔ 2 < nfds.toInt.toNat :=
    lt_nfds_iff nfds (by decide)
  generalize nfds.toInt.toNat = count at more
  cases writefds with
  | none =>
      simp [selectWrite, inSet]
  | some set =>
      simp only [selectWrite, more]
      by_cases large : 2 < count
      · rw [if_pos large]
        change (set.withFirst (set 0 &&& 6)).has fd = _
        rw [WordSet.has_withFirst]
        by_cases inFirst : fd < 64
        · rw [if_pos inFirst, if_pos ⟨large, inFirst⟩,
            testBit_and_six _ inFirst, ← set.has_of_lt inFirst]
          rfl
        · rw [if_neg inFirst, if_neg fun all => inFirst all.2]
          rfl
      · rw [if_neg large, if_neg fun all => large all.1]

/-- No set gains a descriptor. -/
theorem pselect6_subset
    (input : Input)
    (nfds : Int32)
    (sets : FdSets)
    (fd : Nat) :
    let after := (pselect6 serialDataReady input nfds sets).sets
    (inSet after.readfds fd → inSet sets.readfds fd) ∧
      (inSet after.writefds fd → inSet sets.writefds fd) ∧
      (inSet after.exceptfds fd → inSet sets.exceptfds fd) := by
  rw [pselect6_eq]
  dsimp only
  rw [inSet_selectRead, inSet_selectWrite]
  refine ⟨?_, ?_, id⟩
  · split
    · next asked =>
        intro reported
        simp only [Bool.and_eq_true, decide_eq_true_eq] at reported
        rw [reported.1]
        exact asked.2.1
    · exact id
  · split
    · intro reported
      simp only [Bool.and_eq_true] at reported
      exact reported.1
    · exact id

/-- The output is reported whenever it is asked about. -/
theorem pselect6_writable
    (input : Input)
    (nfds : Int32)
    (sets : FdSets)
    {fd : Nat}
    (isOutput : fd = 1 ∨ fd = 2) :
    inSet (pselect6 serialDataReady input nfds sets).sets.writefds fd =
      inSet sets.writefds fd := by
  rw [pselect6_eq]
  dsimp only
  rw [inSet_selectWrite]
  split
  · simp [isOutput]
  · rfl

/-! ## Agreement with `ppoll` -/

/-- The events for which a descriptor is in the sets. -/
theorem events_and
    (sets : FdSets)
    (fd : Nat) :
    (sets.events fd &&& pollIn ≠ 0 ↔ inSet sets.readfds fd = true) ∧
      (sets.events fd &&& pollOut ≠ 0 ↔
        inSet sets.writefds fd = true) := by
  unfold FdSets.events
  cases inSet sets.readfds fd <;> cases inSet sets.exceptfds fd <;>
    cases inSet sets.writefds fd <;> decide

/-- `ppoll` on one entry answers it by the rule. -/
theorem ppoll_single (input : Input) (entry : PollFd) :
    (ppoll serialDataReady input [entry] 1).fds =
      [withAnswer entry (readyEntry serialDataReady input entry).1] := by
  simp [ppoll, ppollLoop_eq, answered]

/-- Descriptor 0 is ready if it is asked about and there is input. -/
theorem ppoll_input (input : Input) (sets : FdSets) :
    (ppoll serialDataReady input [⟨0, sets.events 0, 0⟩] 1).fds.map
        PollFd.revents =
      [if inSet sets.readfds 0 && (serialDataReady input).1 then
        pollIn
      else
        0] := by
  rw [ppoll_single]
  have asked := (events_and sets 0).1
  cases member : inSet sets.readfds 0 with
  | false =>
      have notAsked : ¬sets.events 0 &&& pollIn ≠ 0 := by
        rw [asked, member]
        exact Bool.false_ne_true
      simp only [readyEntry, true_and, if_neg notAsked]
      rfl
  | true =>
      have isAsked : sets.events 0 &&& pollIn ≠ 0 := asked.mpr member
      simp only [readyEntry, true_and, if_pos isAsked, Bool.true_and]
      rfl

/-- The output is ready if it is asked about. -/
theorem ppoll_output
    (input : Input)
    (sets : FdSets)
    {fd : Nat}
    (isOutput : fd = 1 ∨ fd = 2) :
    (ppoll serialDataReady input
          [⟨Int32.ofNat fd, sets.events fd, 0⟩] 1).fds.map
        PollFd.revents =
      [if inSet sets.writefds fd then pollOut else 0] := by
  rw [ppoll_single]
  have asked := (events_and sets fd).2
  have output : Int32.ofNat fd = 1 ∨ Int32.ofNat fd = 2 := by
    rcases isOutput with rfl | rfl
    · exact .inl rfl
    · exact .inr rfl
  have notInput := output_ne_input output
  simp only [readyEntry, notInput, false_and, if_false, output, true_and,
    asked, withAnswer, List.map_cons, List.map_nil, decide_eq_true_eq]

/-- For sets that ask about no more, the two calls agree. -/
theorem pselect6_agrees
    {input : Input}
    {nfds : Int32}
    {sets : FdSets}
    (narrow : Narrow nfds.toInt.toNat sets)
    {fd : Nat}
    (standard : fd ≤ 2)
    (below : fd < nfds.toInt.toNat) :
    (ppoll serialDataReady input
          [⟨Int32.ofNat fd, sets.events fd, 0⟩] 1).fds.map
        PollFd.revents =
      [(pselect6 serialDataReady input nfds sets).sets.events fd] := by
  have anyAsked : 0 < nfds.toInt.toNat := Nat.zero_lt_of_lt below
  have first : fd < 64 := Nat.lt_of_le_of_lt standard (by decide)
  have noExcept : inSet sets.exceptfds fd = false :=
    narrow.except fd (Nat.zero_le fd) below
  have read :
      inSet (pselect6 serialDataReady input nfds sets).sets.readfds fd =
        (inSet sets.readfds 0 &&
          (decide (fd = 0) && (serialDataReady input).1)) := by
    rw [pselect6_eq]
    dsimp only
    rw [inSet_selectRead]
    cases member : inSet sets.readfds 0 with
    | false =>
        have none := narrow.read
        rw [member, if_neg Bool.false_ne_true] at none
        rw [if_neg fun all => Bool.false_ne_true all.2.1, Bool.false_and]
        exact none fd (Nat.zero_le fd) below
    | true =>
        rw [if_pos ⟨anyAsked, rfl, first⟩, Bool.true_and]
  rcases Nat.eq_zero_or_pos fd with rfl | positive
  · have written :
        inSet (pselect6 serialDataReady input nfds sets).sets.writefds 0 =
          false := by
      rw [pselect6_eq]
      dsimp only
      rw [inSet_selectWrite]
      by_cases large : 2 < nfds.toInt.toNat
      · rw [if_pos ⟨large, first⟩]
        exact Bool.and_false _
      · have none := narrow.write
        rw [if_neg large] at none
        rw [if_neg fun both => large both.1]
        exact none 0 (Nat.le_refl 0) below
    have answer := ppoll_input serialDataReady input sets
    refine answer.trans ?_
    rw [FdSets.events, read, written]
    change _ = [_ ||| (if inSet sets.exceptfds 0 then pollPri else 0) ||| _]
    rw [noExcept]
    cases inSet sets.readfds 0 <;>
      cases (serialDataReady input).1 <;> rfl
  · have isOutput : fd = 1 ∨ fd = 2 := by omega
    have notInput : fd ≠ 0 := Nat.ne_of_gt positive
    rw [ppoll_output serialDataReady input sets isOutput, FdSets.events,
      read, pselect6_writable serialDataReady input nfds sets isOutput]
    change _ = [_ ||| (if inSet sets.exceptfds fd then pollPri else 0) ||| _]
    rw [noExcept, decide_eq_false notInput, Bool.false_and,
      Bool.and_false]
    cases inSet sets.writefds fd <;> rfl

/--
For any sets and any state of the console, what is promised of the sets and
of the result holds if and only if the sets ask only about what the call
looks at.
-/
theorem pselect6_selects_iff
    (input : Input)
    (nfds : Int32)
    (sets : FdSets) :
    Selects serialDataReady input nfds sets ↔
      Narrow nfds.toInt.toNat sets := by
  have counted := pselect6_counted_iff serialDataReady input nfds sets
  constructor
  · intro selects
    exact counted.mp selects.counted
  · intro narrow
    exact {
      subset := pselect6_subset serialDataReady input nfds sets
      counted := counted.mpr narrow
      writable := fun fd isOutput _ asked => by
        rw [pselect6_writable serialDataReady input nfds sets isOutput]
        exact asked
      agrees := fun fd standard below =>
        pselect6_agrees serialDataReady narrow standard below
    }

end Select

/-- Two descriptors of the output are left, and counted as one. -/
theorem output_counted_once :
    ¬Selects (constantly false) () 3 ⟨none, some (fun _ => 6), none⟩ := by
  intro selects
  exact absurd selects.counted (by decide)

end RubyOnBareMetal.Descriptors
