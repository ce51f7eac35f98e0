import RubyOnBareMetal.Foundation.Machine
import Mathlib.Algebra.Group.Nat.Defs
import Mathlib.Algebra.Group.Int.Defs
import Mathlib.Data.List.Forall2

namespace RubyOnBareMetal.Clock

open Foundation

/-!
# The clock

`kernel/timer.c` measures how many ticks of the time stamp counter make a
millisecond and counts milliseconds from then on; `clock_gettime` and
`gettimeofday` of `compat/ruby_on_bare_metal_syscall.c` split such a count in
two ways.  A moment is a number of ticks that never wraps around, a reading
is what `rdtsc` makes of it.
-/

/-- What stops the processor. -/
inductive Trap where
  | divideError
  deriving Repr, DecidableEq

/-- An unsigned division instruction. -/
def divide (dividend divisor : UInt64) : Except Trap UInt64 :=
  if divisor = 0 then
    .error .divideError
  else
    .ok (dividend / divisor)

/-- `rdtsc`: the counter's low 64 bits, handed out in two halves. -/
def rdtsc (moment : Nat) : UInt64 :=
  let lo := UInt32.ofNat moment
  let hi := UInt32.ofNat (moment / 2 ^ 32)
  (hi.toUInt64 <<< 32) ||| lo.toUInt64

/-- The static variables `tsc_freq_khz` and `boot_tsc`. -/
structure Timer where
  tscFreqKhz : UInt64 := 0
  bootTsc : UInt64 := 0
  deriving Repr, DecidableEq

/--
`timer_init`, with the moments of its three readings.  What it programs into
the interval timer only decides how far apart the first two are.
-/
def timerInit (startMoment endMoment bootMoment : Nat) : Timer :=
  let startTsc := rdtsc startMoment
  let endTsc := rdtsc endMoment
  let elapsed := endTsc - startTsc
  {
    tscFreqKhz := if elapsed / 50 = 0 then 1 else elapsed / 50
    bootTsc := rdtsc bootMoment
  }

/-- `ruby_on_bare_metal_clock_millis`. -/
def clockMillis (timer : Timer) (moment : Nat) : Except Trap Int64 :=
  if timer.tscFreqKhz = 0 then
    .ok 0
  else do
    let now := rdtsc moment
    let millis ← divide (now - timer.bootTsc) timer.tscFreqKhz
    .ok millis.toInt64

/-- `struct timespec`. -/
structure Timespec where
  tvSec : Int64
  tvNsec : Int64
  deriving Repr, DecidableEq

/-- `struct timeval`. -/
structure Timeval where
  tvSec : Int64
  tvUsec : Int64
  deriving Repr, DecidableEq

/-- `sys_clock_gettime`: its result and what it stores if `tp` is not null. -/
def sysClockGettime
    (timer : Timer)
    (_clkId : Int32)
    (tp : Bool)
    (moment : Nat) :
    Except Trap (Int64 × Option Timespec) :=
  if tp then do
    let ms ← clockMillis timer moment
    .ok (0, some {
      tvSec := ms / 1000
      tvNsec := (ms % 1000) * 1000000
    })
  else
    .ok (0, none)

/-- `sys_gettimeofday`: its result and what it stores if `tv` is not null. -/
def sysGettimeofday
    (timer : Timer)
    (tv _tz : Bool)
    (moment : Nat) :
    Except Trap (Int64 × Option Timeval) :=
  if tv then do
    let ms ← clockMillis timer moment
    .ok (0, some {
      tvSec := ms / 1000
      tvUsec := (ms % 1000) * 1000
    })
  else
    .ok (0, none)

/-! ## Runs -/

/-- A call of the timer or the clock, with the moments it happens at. -/
inductive Call where
  | timerInit (startMoment endMoment bootMoment : Nat)
  | clockGettime (clkId : Int32) (tp : Bool) (moment : Nat)
  | gettimeofday (tv tz : Bool) (moment : Nat)
  deriving Repr, DecidableEq

namespace Call

/-- The moments of a call, in order. -/
def moments : Call → List Nat
  | timerInit startMoment endMoment bootMoment =>
      [startMoment, endMoment, bootMoment]
  | clockGettime _ _ moment => [moment]
  | gettimeofday _ _ moment => [moment]

/-- The moment from which `timer_init` counts. -/
def bootMoment? : Call → Option Nat
  | timerInit _ _ bootMoment => some bootMoment
  | clockGettime _ _ _ => none
  | gettimeofday _ _ _ => none

end Call

/-- The two ways in which a time is written. -/
inductive Written where
  | timespec (value : Timespec)
  | timeval (value : Timeval)
  deriving Repr, DecidableEq

namespace Written

/-- The fractions of a second are within a second. -/
def Normalised : Written → Prop
  | timespec value =>
      0 ≤ value.tvNsec.toInt ∧ value.tvNsec.toInt < 10 ^ 9
  | timeval value =>
      0 ≤ value.tvUsec.toInt ∧ value.tvUsec.toInt < 10 ^ 6

/-- The time in nanoseconds. -/
def nanoseconds : Written → Int
  | timespec value => value.tvSec.toInt * 10 ^ 9 + value.tvNsec.toInt
  | timeval value =>
      (value.tvSec.toInt * 10 ^ 6 + value.tvUsec.toInt) * 10 ^ 3

/-- The millisecond the time lies in. -/
def millisecond (written : Written) : Int :=
  written.nanoseconds / 10 ^ 6

end Written

/-- What a call answers: its result, if any, and the time it wrote, if any. -/
structure Answer where
  result : Option Int64
  written : Option Written
  deriving Repr, DecidableEq

/-- One call. -/
def step (timer : Timer) : Call → Except Trap Answer × Timer
  | .timerInit startMoment endMoment bootMoment =>
      (.ok ⟨none, none⟩, timerInit startMoment endMoment bootMoment)
  | .clockGettime clkId tp moment =>
      ((sysClockGettime timer clkId tp moment).map
        fun (result, stored) => ⟨some result, stored.map .timespec⟩, timer)
  | .gettimeofday tv tz moment =>
      ((sysGettimeofday timer tv tz moment).map
        fun (result, stored) => ⟨some result, stored.map .timeval⟩, timer)

/-- The clock, whose timer is initialised once, as `kernel_main` does. -/
def machine : Machine Timer Call (Except Trap Answer) where
  step := step
  admits timer
    | .timerInit _ _ _ => timer.tscFreqKhz = 0
    | .clockGettime _ _ _ => True
    | .gettimeofday _ _ _ => True

/-! ## What the calls compute -/

/-- The halves of a reading are put together to the low 64 bits. -/
theorem toNat_rdtsc (moment : Nat) :
    (rdtsc moment).toNat = moment % 2 ^ 64 := by
  have high :
      ((UInt32.ofNat (moment / 2 ^ 32)).toUInt64 <<< 32).toNat =
        2 ^ 32 * (moment / 2 ^ 32 % 2 ^ 32) := by
    have exponent : (32 : UInt64).toNat % 64 = 32 := by decide
    rw [UInt64.toNat_shiftLeft, UInt32.toNat_toUInt64, UInt32.toNat_ofNat',
      exponent, Nat.shiftLeft_eq]
    omega
  have low :
      (UInt32.ofNat moment).toUInt64.toNat = moment % 2 ^ 32 := by
    rw [UInt32.toNat_toUInt64, UInt32.toNat_ofNat']
  have lowFits : moment % 2 ^ 32 < 2 ^ 32 :=
    Nat.mod_lt _ (by decide)
  unfold rdtsc
  rw [UInt64.toNat_or, high, low, ← Nat.two_pow_add_eq_or_of_lt lowFits]
  omega

/-- The difference of two readings is the number of ticks between them. -/
theorem toNat_rdtsc_sub
    {boot moment : Nat}
    (later : boot ≤ moment)
    (near : moment < boot + 2 ^ 63) :
    (rdtsc moment - rdtsc boot).toNat = moment - boot := by
  rw [UInt64.toNat_sub, toNat_rdtsc, toNat_rdtsc]
  omega

/-- The frequency that is measured is never zero. -/
theorem timerInit_tscFreqKhz_ne_zero
    (startMoment endMoment bootMoment : Nat) :
    (timerInit startMoment endMoment bootMoment).tscFreqKhz ≠ 0 := by
  unfold timerInit
  dsimp only
  split
  · decide
  · assumption

/-- The milliseconds since a moment, rounded down. -/
def millisSince (boot freq now : Nat) : Nat :=
  (now - boot) / freq

/-- The clock of a timer counts these milliseconds at a moment. -/
structure Timer.Counts
    (timer : Timer)
    (clock : Nat → Nat)
    (moment : Nat) :
    Prop where
  answers : clockMillis timer moment = .ok (Int64.ofNat (clock moment))
  fits : clock moment < 2 ^ 63

/-- A count of moments that are near is one of a `long`. -/
theorem millisSince_lt
    {boot freq moment : Nat}
    (near : moment < boot + 2 ^ 63) :
    millisSince boot freq moment < 2 ^ 63 := by
  have atMost := Nat.div_le_self (moment - boot) freq
  unfold millisSince
  omega

/-- Before it is initialised the clock stands at zero. -/
theorem counts_of_unset
    {timer : Timer}
    {clock : Nat → Nat}
    {moment : Nat}
    (unset : timer.tscFreqKhz = 0)
    (zero : clock moment = 0) :
    timer.Counts clock moment where
  answers := by
    rw [clockMillis, if_pos unset, zero]
    rfl
  fits := by
    rw [zero]
    decide

/-- Afterwards it counts the milliseconds since then, rounded down. -/
theorem counts_of_set
    {timer : Timer}
    {boot moment : Nat}
    (set : timer.tscFreqKhz ≠ 0)
    (bootTsc : timer.bootTsc = rdtsc boot)
    (later : boot ≤ moment)
    (near : moment < boot + 2 ^ 63) :
    timer.Counts (millisSince boot timer.tscFreqKhz.toNat) moment := by
  have ticks := toNat_rdtsc_sub later near
  have fits : millisSince boot timer.tscFreqKhz.toNat moment < 2 ^ 63 :=
    millisSince_lt near
  refine ⟨?_, fits⟩
  have quotient :
      (rdtsc moment - timer.bootTsc) / timer.tscFreqKhz =
        UInt64.ofNat (millisSince boot timer.tscFreqKhz.toNat moment) := by
    apply UInt64.toNat.inj
    rw [UInt64.toNat_div, bootTsc, ticks,
      UInt64.toNat_ofNat_of_lt' (Nat.lt_trans fits (by decide)),
      millisSince]
  simp only [clockMillis, divide, if_neg set, quotient]
  rfl

/-- A number of milliseconds as `clock_gettime` writes it. -/
def Timespec.ofMillis (millis : Nat) : Timespec where
  tvSec := Int64.ofNat (millis / 1000)
  tvNsec := Int64.ofNat (millis % 1000 * 1000000)

/-- A number of milliseconds as `gettimeofday` writes it. -/
def Timeval.ofMillis (millis : Nat) : Timeval where
  tvSec := Int64.ofNat (millis / 1000)
  tvUsec := Int64.ofNat (millis % 1000 * 1000)

/-- What a call answers if it shows the given clock. -/
def Call.shows (clock : Nat → Nat) : Call → Answer
  | timerInit _ _ _ => ⟨none, none⟩
  | clockGettime _ tp moment => {
      result := some 0
      written :=
        if tp then
          some (.timespec (.ofMillis (clock moment)))
        else
          none
    }
  | gettimeofday tv _ moment => {
      result := some 0
      written :=
        if tv then
          some (.timeval (.ofMillis (clock moment)))
        else
          none
    }

/-- Signed division of a count that is not negative. -/
theorem ofNat_div_thousand
    {millis : Nat}
    (fits : millis < 2 ^ 63) :
    Int64.ofNat millis / 1000 = Int64.ofNat (millis / 1000) := by
  have divisor : Int64.toInt 1000 = 1000 := by decide
  have quotientFits : millis / 1000 < 2 ^ 63 := by omega
  apply Int64.toInt.inj
  rw [Int64.toInt_div_of_ne_right _ _ (by decide), divisor,
    Int64.toInt_ofNat_of_lt fits, Int64.toInt_ofNat_of_lt quotientFits]
  exact Int.ofNat_tdiv millis 1000

/-- And its remainder. -/
theorem ofNat_mod_thousand
    {millis : Nat}
    (fits : millis < 2 ^ 63) :
    Int64.ofNat millis % 1000 = Int64.ofNat (millis % 1000) := by
  have divisor : Int64.toInt 1000 = 1000 := by decide
  have remainderFits : millis % 1000 < 2 ^ 63 := by omega
  apply Int64.toInt.inj
  rw [Int64.toInt_mod, divisor,
    Int64.toInt_ofNat_of_lt fits, Int64.toInt_ofNat_of_lt remainderFits]
  exact Int.ofNat_tmod millis 1000

/-- A call that does not initialise the timer shows the timer's clock. -/
theorem step_of_counts
    {timer : Timer}
    {clock : Nat → Nat}
    {call : Call}
    (reads : call.bootMoment? = none)
    (counts : ∀ moment ∈ call.moments, timer.Counts clock moment) :
    step timer call = (.ok (call.shows clock), timer) := by
  cases call with
  | timerInit startMoment endMoment bootMoment =>
      cases reads
  | clockGettime clkId tp moment =>
      obtain ⟨answers, fits⟩ := counts moment (List.mem_singleton_self _)
      cases tp with
      | false =>
          rfl
      | true =>
          simp [step, sysClockGettime, answers, bind, Except.bind, Except.map,
            Call.shows, Timespec.ofMillis, Int64.ofNat_mul,
            ofNat_div_thousand fits, ofNat_mod_thousand fits]
  | gettimeofday tv tz moment =>
      obtain ⟨answers, fits⟩ := counts moment (List.mem_singleton_self _)
      cases tv with
      | false =>
          rfl
      | true =>
          simp [step, sysGettimeofday, answers, bind, Except.bind, Except.map,
            Call.shows, Timeval.ofMillis, Int64.ofNat_mul,
            ofNat_div_thousand fits, ofNat_mod_thousand fits]

/-- Calls that do not initialise the timer all show the timer's clock. -/
theorem responses_of_counts
    {timer : Timer}
    {clock : Nat → Nat}
    {calls : List Call}
    (read : ∀ call ∈ calls, call.bootMoment? = none)
    (counts :
      ∀ call ∈ calls, ∀ moment ∈ call.moments, timer.Counts clock moment) :
    machine.responses timer calls =
      calls.map fun call => .ok (call.shows clock) := by
  induction calls with
  | nil =>
      rfl
  | cons call rest inductionHypothesis =>
      obtain ⟨readsFirst, readRest⟩ := List.forall_mem_cons.mp read
      obtain ⟨countsFirst, countsRest⟩ := List.forall_mem_cons.mp counts
      have first : machine.step timer call = (.ok (call.shows clock), timer) :=
        step_of_counts readsFirst countsFirst
      rw [Machine.responses_cons, List.map_cons, first,
        inductionHypothesis readRest countsRest]

/-- They leave the timer alone. -/
theorem step_timer
    {timer : Timer}
    {call : Call}
    (reads : call.bootMoment? = none) :
    (machine.step timer call).2 = timer := by
  cases call with
  | timerInit startMoment endMoment bootMoment =>
      cases reads
  | clockGettime clkId tp moment =>
      rfl
  | gettimeofday tv tz moment =>
      rfl

/-- A timer that is set is not initialised again. -/
theorem read_of_admissible
    {timer : Timer}
    {calls : List Call}
    (set : timer.tscFreqKhz ≠ 0)
    (admissible : machine.Admissible timer calls) :
    ∀ call ∈ calls, call.bootMoment? = none := by
  induction calls with
  | nil =>
      exact List.forall_mem_nil _
  | cons call rest inductionHypothesis =>
      obtain ⟨admitted, later⟩ := admissible
      rw [List.forall_mem_cons]
      cases call with
      | timerInit startMoment endMoment bootMoment =>
          exact absurd admitted set
      | clockGettime clkId tp moment =>
          exact ⟨rfl, inductionHypothesis later⟩
      | gettimeofday tv tz moment =>
          exact ⟨rfl, inductionHypothesis later⟩

/-- The calls come one after the other. -/
def InOrder (calls : List Call) : Prop :=
  (calls.flatMap Call.moments).Pairwise (· ≤ ·)

/-- No call comes 2^63 ticks or more after the moment the clock starts at. -/
def Near (calls : List Call) : Prop :=
  ∀ boot ∈ calls.filterMap Call.bootMoment?,
    ∀ moment ∈ calls.flatMap Call.moments, moment < boot + 2 ^ 63

instance (calls : List Call) : Decidable (InOrder calls) :=
  inferInstanceAs (Decidable (List.Pairwise _ _))

instance (calls : List Call) : Decidable (Near calls) :=
  List.decidableBAll _ _

/--
The calls of a run show a clock that only moves forward and stands at zero
until the run begins.
-/
structure Shown
    (timer : Timer)
    (calls : List Call)
    (clock : Nat → Nat) :
    Prop where
  forward :
    ∀ {earlier later}, earlier ≤ later → clock earlier ≤ clock later
  fits : ∀ moment ∈ calls.flatMap Call.moments, clock moment < 2 ^ 63
  standing :
    ∀ now, (∀ moment ∈ calls.flatMap Call.moments, now ≤ moment) →
      clock now = 0
  responses :
    machine.responses timer calls =
      calls.map fun call => .ok (call.shows clock)

/-- The part of a run after its first call is in order and near as well. -/
theorem InOrder.of_cons
    {call : Call}
    {rest : List Call}
    (inOrder : InOrder (call :: rest)) :
    call.moments.Pairwise (· ≤ ·) ∧
      InOrder rest ∧
      ∀ moment ∈ call.moments,
        ∀ later ∈ rest.flatMap Call.moments, moment ≤ later := by
  rw [InOrder, List.flatMap_cons, List.pairwise_append] at inOrder
  exact inOrder

theorem Near.of_cons
    {call : Call}
    {rest : List Call}
    (near : Near (call :: rest)) :
    Near rest := by
  intro boot isBoot moment isMoment
  refine near boot ?_ moment ?_
  · rw [List.filterMap_cons]
    split
    · exact isBoot
    · exact List.mem_cons_of_mem _ isBoot
  · rw [List.flatMap_cons]
    exact List.mem_append_right _ isMoment

/-- The clock that counts from a moment only moves forward. -/
theorem millisSince_le_millisSince
    (boot freq : Nat)
    {earlier later : Nat}
    (ordered : earlier ≤ later) :
    millisSince boot freq earlier ≤ millisSince boot freq later :=
  Nat.div_le_div_right (Nat.sub_le_sub_right ordered boot)

/-- Until that moment it stands at zero. -/
theorem millisSince_eq_zero
    {boot now : Nat}
    (freq : Nat)
    (early : now ≤ boot) :
    millisSince boot freq now = 0 := by
  rw [millisSince, Nat.sub_eq_zero_of_le early, Nat.zero_div]

/-- A run that starts by setting the timer counts from that moment on. -/
theorem shown_of_timerInit
    {timer : Timer}
    {start stop boot : Nat}
    {rest : List Call}
    (later : machine.Admissible (timerInit start stop boot) rest)
    (inOrder : InOrder (.timerInit start stop boot :: rest))
    (near : Near (.timerInit start stop boot :: rest)) :
    Shown timer (.timerInit start stop boot :: rest)
      (millisSince boot (timerInit start stop boot).tscFreqKhz.toNat) := by
  have set := timerInit_tscFreqKhz_ne_zero start stop boot
  obtain ⟨-, -, before⟩ := inOrder.of_cons
  have isBoot : boot ∈ (Call.timerInit start stop boot).moments := by
    simp [Call.moments]
  have counts (call : Call) (isCall : call ∈ rest)
      (moment : Nat) (isMoment : moment ∈ call.moments) :
      (timerInit start stop boot).Counts
        (millisSince boot (timerInit start stop boot).tscFreqKhz.toNat)
        moment := by
    have isLater : moment ∈ rest.flatMap Call.moments :=
      List.mem_flatMap_of_mem isCall isMoment
    refine counts_of_set set rfl (before _ isBoot _ isLater) ?_
    exact near boot (List.mem_cons_self ..) moment
      (List.mem_append_right _ isLater)
  exact {
    forward := millisSince_le_millisSince boot _
    fits := fun moment isMoment =>
      millisSince_lt (near boot (List.mem_cons_self ..) moment isMoment)
    standing := fun now atMost =>
      millisSince_eq_zero _ (atMost boot (List.mem_append_left _ isBoot))
    responses := by
      rw [Machine.responses_cons, List.map_cons]
      exact congrArg (List.cons (.ok ⟨none, none⟩))
        (responses_of_counts (read_of_admissible set later) counts)
  }

/-- A call of a timer that is still unset shows that nothing has passed. -/
theorem shown_of_unset
    {timer : Timer}
    {call : Call}
    {rest : List Call}
    {clock : Nat → Nat}
    (unset : timer.tscFreqKhz = 0)
    (boots : call.bootMoment? = none)
    (before :
      ∀ moment ∈ call.moments,
        ∀ later ∈ rest.flatMap Call.moments, moment ≤ later)
    (shown : Shown timer rest clock) :
    Shown timer (call :: rest) clock := by
  have zeroFirst (moment : Nat) (isMoment : moment ∈ call.moments) :
      clock moment = 0 :=
    shown.standing moment (before moment isMoment)
  have first :
      machine.step timer call = (.ok (call.shows clock), timer) :=
    step_of_counts boots fun moment isMoment =>
      counts_of_unset unset (zeroFirst moment isMoment)
  refine ⟨shown.forward, ?_, ?_, ?_⟩
  · intro moment isMoment
    rw [List.flatMap_cons, List.mem_append] at isMoment
    rcases isMoment with isFirst | isLater
    · rw [zeroFirst moment isFirst]
      decide
    · exact shown.fits moment isLater
  · intro now atMost
    refine shown.standing now fun moment isMoment => atMost moment ?_
    exact List.mem_append_right _ isMoment
  · rw [Machine.responses_cons, List.map_cons, first, shown.responses]

/-- Every run that starts with a timer not yet set shows a clock. -/
theorem exists_shown
    {timer : Timer}
    {calls : List Call}
    (unset : timer.tscFreqKhz = 0)
    (admissible : machine.Admissible timer calls)
    (inOrder : InOrder calls)
    (near : Near calls) :
    ∃ clock, Shown timer calls clock := by
  induction calls with
  | nil =>
      exact ⟨fun _ => 0, {
        forward := fun _ => Nat.le_refl 0
        fits := nofun
        standing := fun _ _ => rfl
        responses := rfl
      }⟩
  | cons call rest inductionHypothesis =>
      obtain ⟨-, later⟩ := admissible
      obtain ⟨within, restInOrder, before⟩ := inOrder.of_cons
      cases boots : call.bootMoment? with
      | none =>
          rw [step_timer boots] at later
          obtain ⟨clock, shown⟩ :=
            inductionHypothesis later restInOrder near.of_cons
          exact ⟨clock, shown_of_unset unset boots before shown⟩
      | some boot =>
          cases call with
          | clockGettime clkId tp moment =>
              cases boots
          | gettimeofday tv tz moment =>
              cases boots
          | timerInit start stop boot =>
              exact ⟨_, shown_of_timerInit later inOrder near⟩

/-! ## What a run shows -/

/-- A fraction of a second and the seconds before it make up the count. -/
theorem Timespec.ofMillis_written
    {millis : Nat}
    (fits : millis < 2 ^ 63) :
    (Written.timespec (.ofMillis millis)).Normalised ∧
      (Written.timespec (.ofMillis millis)).nanoseconds =
        (millis * 10 ^ 6 : Nat) := by
  have seconds : millis / 1000 < 2 ^ 63 := by omega
  have fraction : millis % 1000 * 1000000 < 2 ^ 63 := by omega
  simp only [Written.Normalised, Written.nanoseconds, Timespec.ofMillis,
    Int64.toInt_ofNat_of_lt seconds, Int64.toInt_ofNat_of_lt fraction]
  omega

theorem Timeval.ofMillis_written
    {millis : Nat}
    (fits : millis < 2 ^ 63) :
    (Written.timeval (.ofMillis millis)).Normalised ∧
      (Written.timeval (.ofMillis millis)).nanoseconds =
        (millis * 10 ^ 6 : Nat) := by
  have seconds : millis / 1000 < 2 ^ 63 := by omega
  have fraction : millis % 1000 * 1000 < 2 ^ 63 := by omega
  simp only [Written.Normalised, Written.nanoseconds, Timeval.ofMillis,
    Int64.toInt_ofNat_of_lt seconds, Int64.toInt_ofNat_of_lt fraction]
  omega

/-- What a call writes is the clock's count at its one moment. -/
theorem written_of_shows
    {clock : Nat → Nat}
    {call : Call}
    {written : Written}
    (shows : (call.shows clock).written = some written)
    (fits : ∀ moment ∈ call.moments, clock moment < 2 ^ 63) :
    ∃ moment,
      call.moments = [moment] ∧
        written.Normalised ∧
        written.nanoseconds = (clock moment * 10 ^ 6 : Nat) := by
  cases call with
  | timerInit startMoment endMoment bootMoment =>
      cases shows
  | clockGettime clkId tp moment =>
      have ofMillis :=
        Timespec.ofMillis_written (fits moment (List.mem_singleton_self _))
      cases tp with
      | false =>
          cases shows
      | true =>
          cases shows
          exact ⟨moment, rfl, ofMillis⟩
  | gettimeofday tv tz moment =>
      have ofMillis :=
        Timeval.ofMillis_written (fits moment (List.mem_singleton_self _))
      cases tv with
      | false =>
          cases shows
      | true =>
          cases shows
          exact ⟨moment, rfl, ofMillis⟩

/--
A call of the clock reports success, and writes a time of its kind exactly
if its pointer is not null.
-/
inductive Call.Answered : Call → Answer → Prop where
  | timerInit (startMoment endMoment bootMoment : Nat) :
      Answered (.timerInit startMoment endMoment bootMoment) ⟨none, none⟩
  | clockGettime (clkId : Int32) (moment : Nat) (value : Timespec) :
      Answered (.clockGettime clkId true moment)
        ⟨some 0, some (.timespec value)⟩
  | clockGettimeNull (clkId : Int32) (moment : Nat) :
      Answered (.clockGettime clkId false moment) ⟨some 0, none⟩
  | gettimeofday (tz : Bool) (moment : Nat) (value : Timeval) :
      Answered (.gettimeofday true tz moment)
        ⟨some 0, some (.timeval value)⟩
  | gettimeofdayNull (tz : Bool) (moment : Nat) :
      Answered (.gettimeofday false tz moment) ⟨some 0, none⟩

/-- A call that shows a clock is answered. -/
theorem Call.answered_shows (clock : Nat → Nat) (call : Call) :
    call.Answered (call.shows clock) := by
  cases call with
  | timerInit startMoment endMoment bootMoment =>
      exact .timerInit _ _ _
  | clockGettime clkId tp moment =>
      cases tp with
      | false => exact .clockGettimeNull _ _
      | true => exact .clockGettime _ _ _
  | gettimeofday tv tz moment =>
      cases tv with
      | false => exact .gettimeofdayNull _ _
      | true => exact .gettimeofday _ _ _

/--
In a run of calls that come in order, with the timer initialised at most
once, no call divides by zero, and every call of the clock succeeds and
writes a time if it is given a place for it.  The times written are
normalised and never step back, whichever call writes them, and calls at the
same moment write the same millisecond.
-/
theorem time_never_runs_backwards
    {calls : List Call}
    (once : machine.Admissible {} calls)
    (inOrder : InOrder calls)
    (near : Near calls) :
    ∃ answers : List Answer,
      machine.responses {} calls = answers.map .ok ∧
        List.Forall₂ Call.Answered calls answers ∧
        let times := answers.map Answer.written
        (∀ written ∈ times.filterMap id, written.Normalised) ∧
          (times.filterMap id).Pairwise
            (fun earlier later => earlier.nanoseconds ≤ later.nanoseconds) ∧
          ∀ (first second : Nat) (written written' : Written),
            times[first]? = some (some written) →
            times[second]? = some (some written') →
            calls[first]?.map Call.moments =
              calls[second]?.map Call.moments →
            written.millisecond = written'.millisecond := by
  obtain ⟨clock, shown⟩ := exists_shown rfl once inOrder near
  have fits (call : Call) (isCall : call ∈ calls)
      (moment : Nat) (isMoment : moment ∈ call.moments) :
      clock moment < 2 ^ 63 :=
    shown.fits moment (List.mem_flatMap_of_mem isCall isMoment)
  refine ⟨calls.map (Call.shows clock), ?_, ?_, ?_, ?_, ?_⟩
  · rw [shown.responses, List.map_map]
    rfl
  · rw [List.forall₂_map_right_iff, List.forall₂_same]
    exact fun call _ => call.answered_shows clock
  · intro written isWritten
    rw [List.map_map, List.filterMap_map, List.mem_filterMap] at isWritten
    obtain ⟨call, isCall, shows⟩ := isWritten
    obtain ⟨-, -, normalised, -⟩ := written_of_shows shows (fits call isCall)
    exact normalised
  · rw [List.map_map, List.filterMap_map, List.pairwise_filterMap]
    have ordered := (List.pairwise_flatMap.mp inOrder).2
    refine ordered.imp_of_mem ?_
    intro first second isFirst isSecond before earlier isEarlier later isLater
    obtain ⟨moment, moments, -, nanoseconds⟩ :=
      written_of_shows isEarlier (fits first isFirst)
    obtain ⟨moment', moments', -, nanoseconds'⟩ :=
      written_of_shows isLater (fits second isSecond)
    rw [moments, moments'] at before
    have forward :=
      shown.forward
        (before moment (List.mem_singleton_self _) moment'
          (List.mem_singleton_self _))
    rw [nanoseconds, nanoseconds']
    omega
  · intro first second written written' atFirst atSecond sameMoments
    rw [List.map_map, List.getElem?_map, Option.map_eq_some_iff]
      at atFirst atSecond
    obtain ⟨call, isFirst, shows⟩ := atFirst
    obtain ⟨call', isSecond, shows'⟩ := atSecond
    obtain ⟨moment, moments, -, nanoseconds⟩ :=
      written_of_shows shows (fits call (List.mem_of_getElem? isFirst))
    obtain ⟨moment', moments', -, nanoseconds'⟩ :=
      written_of_shows shows' (fits call' (List.mem_of_getElem? isSecond))
    rw [isFirst, isSecond, Option.map_some, Option.map_some, moments,
      moments'] at sameMoments
    cases sameMoments
    rw [Written.millisecond, nanoseconds, ← nanoseconds', Written.millisecond]

/-- The timer is set between calls of both kinds, one of them with `NULL`. -/
theorem time_never_runs_backwards_run :
    let calls : List Call :=
      [.clockGettime 1 true 5, .timerInit 10 20 30,
        .gettimeofday true false 2000030, .clockGettime 0 false 2000030,
        .clockGettime 0 true 2000030]
    ∃ answers : List Answer,
      machine.responses {} calls = answers.map .ok ∧
        List.Forall₂ Call.Answered calls answers ∧
        let times := answers.map Answer.written
        (∀ written ∈ times.filterMap id, written.Normalised) ∧
          (times.filterMap id).Pairwise
            (fun earlier later =>
              earlier.nanoseconds ≤ later.nanoseconds) := by
  intro calls
  obtain ⟨answers, responses, answered, normalised, ordered, -⟩ :=
    @time_never_runs_backwards calls
      ⟨trivial, rfl, trivial, trivial, trivial, trivial⟩
      (by decide) (by decide)
  exact ⟨answers, responses, answered, normalised, ordered⟩

end RubyOnBareMetal.Clock
