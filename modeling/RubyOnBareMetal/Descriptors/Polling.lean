import Mathlib.Algebra.Group.Nat.Defs
import Mathlib.Data.List.Basic

namespace RubyOnBareMetal.Descriptors

/-!
# `poll` and `ppoll`

The same rule for the readiness of a descriptor is written twice in
`compat/ruby_on_bare_metal_syscall.c`.  Whether the console has input is
asked once for each entry that waits for it; an answer may change the state
of the console, as it does when a key is taken from the firmware.
-/

/-- `struct pollfd`. -/
structure PollFd where
  fd : Int32
  events : Int16
  revents : Int16
  deriving Repr, DecidableEq

/-- `POLLIN`, `POLLPRI` and `POLLOUT`. -/
abbrev pollIn : Int16 := 1
abbrev pollPri : Int16 := 2
abbrev pollOut : Int16 := 4

section Loops

variable {Input : Type}
variable (serialDataReady : Input → Bool × Input)

/-- The body of the loop of `__NR_poll`. -/
def pollEntry (input : Input) (entry : PollFd) : PollFd × Input :=
  let entry := { entry with revents := 0 }
  let (entry, input) :=
    if entry.fd = 0 ∧ entry.events &&& pollIn ≠ 0 then
      let (ready, input) := serialDataReady input
      if ready then
        ({ entry with revents := entry.revents ||| pollIn }, input)
      else
        (entry, input)
    else
      (entry, input)
  if entry.fd = 1 ∨ entry.fd = 2 then
    if entry.events &&& pollOut ≠ 0 then
      ({ entry with revents := entry.revents ||| pollOut }, input)
    else
      (entry, input)
  else
    (entry, input)

/-- The loop of `__NR_poll`. -/
def pollLoop (input : Input) : List PollFd → List PollFd × Input
  | [] => ([], input)
  | entry :: rest =>
      let (entry, input) := pollEntry serialDataReady input entry
      let (rest, input) := pollLoop input rest
      (entry :: rest, input)

/-- The body of the loop of `ppoll`, with the count. -/
def ppollEntry
    (ready : Int32)
    (input : Input)
    (entry : PollFd) :
    PollFd × Int32 × Input :=
  let entry := { entry with revents := 0 }
  let (entry, ready, input) :=
    if entry.fd = 0 ∧ entry.events &&& pollIn ≠ 0 then
      let (dataReady, input) := serialDataReady input
      if dataReady then
        ({ entry with revents := entry.revents ||| pollIn }, ready + 1,
          input)
      else
        (entry, ready, input)
    else
      (entry, ready, input)
  if (entry.fd = 1 ∨ entry.fd = 2) ∧ entry.events &&& pollOut ≠ 0 then
    ({ entry with revents := entry.revents ||| pollOut }, ready + 1, input)
  else
    (entry, ready, input)

/-- The loop of `ppoll`. -/
def ppollLoop
    (ready : Int32)
    (input : Input) :
    List PollFd → List PollFd × Int32 × Input
  | [] => ([], ready, input)
  | entry :: rest =>
      let (entry, ready, input) :=
        ppollEntry serialDataReady ready input entry
      let (rest, ready, input) := ppollLoop ready input rest
      (entry :: rest, ready, input)

/-- What a call leaves: its result, the array and the console. -/
structure Polled (Input : Type) where
  ret : Int64
  fds : List PollFd
  input : Input

/-- `__NR_poll` on an array of at least `nfds` entries. -/
def poll (input : Input) (fds : List PollFd) (nfds : Int32) :
    Polled Input :=
  let count := nfds.toInt.toNat
  let (polled, input) :=
    pollLoop serialDataReady input (fds.take count)
  { ret := 1, fds := polled ++ fds.drop count, input := input }

/-- `ppoll` on an array of at least `nfds` entries. -/
def ppoll (input : Input) (fds : List PollFd) (nfds : Int32) :
    Polled Input :=
  let count := nfds.toInt.toNat
  let (polled, ready, input) :=
    ppollLoop serialDataReady 0 input (fds.take count)
  {
    ret := ready.toInt64
    fds := polled ++ fds.drop count
    input := input
  }

/-! ## Readiness -/

/-- Whether an entry is ready, as the console answers. -/
def readyEntry (input : Input) (entry : PollFd) : Bool × Input :=
  if entry.fd = 0 ∧ entry.events &&& pollIn ≠ 0 then
    serialDataReady input
  else
    ((entry.fd = 1 ∨ entry.fd = 2) ∧ entry.events &&& pollOut ≠ 0, input)

/-- An entry with the event it is ready for. -/
def withAnswer (entry : PollFd) (ready : Bool) : PollFd :=
  { entry with
    revents :=
      if ready then
        if entry.fd = 0 then pollIn else pollOut
      else
        0 }

/-- The number of entries that are ready. -/
def readyCount (input : Input) : List PollFd → Nat
  | [] => 0
  | entry :: rest =>
      (readyEntry serialDataReady input entry).1.toNat +
        readyCount (readyEntry serialDataReady input entry).2 rest

/-- The array with the events that are ready. -/
def answered (input : Input) : List PollFd → List PollFd × Input
  | [] => ([], input)
  | entry :: rest =>
      let (ready, input) := readyEntry serialDataReady input entry
      let (rest, input) := answered input rest
      (withAnswer entry ready :: rest, input)

/-- The descriptors of the output are not the one of the input. -/
theorem output_ne_input
    {fd : Int32}
    (output : fd = 1 ∨ fd = 2) :
    fd ≠ 0 := by
  rcases output with rfl | rfl <;> decide

/--
Both loops answer an entry by the rule; `ppoll` also counts it if it is
ready.
-/
theorem entry_answered
    (ready : Int32)
    (input : Input)
    (entry : PollFd) :
    pollEntry serialDataReady input entry =
        (withAnswer entry (readyEntry serialDataReady input entry).1,
          (readyEntry serialDataReady input entry).2) ∧
      ppollEntry serialDataReady ready input entry =
        (withAnswer entry (readyEntry serialDataReady input entry).1,
          if (readyEntry serialDataReady input entry).1 then
            ready + 1
          else
            ready,
          (readyEntry serialDataReady input entry).2) := by
  obtain ⟨fd, events, revents⟩ := entry
  unfold pollEntry ppollEntry readyEntry withAnswer
  by_cases stdin : fd = 0 ∧ events &&& pollIn ≠ 0
  · obtain ⟨rfl, asked⟩ := stdin
    cases serialDataReady input with
    | mk isReady after =>
        cases isReady <;> simp [asked]
  · by_cases output : fd = 1 ∨ fd = 2
    · have notInput := output_ne_input output
      by_cases asked : events &&& pollOut = 0
      · simp [notInput, asked]
      · simp [notInput, output, asked]
    · simp [stdin, output]

/-- The loop of `poll` answers every entry by the rule. -/
theorem pollLoop_eq (input : Input) (fds : List PollFd) :
    pollLoop serialDataReady input fds =
      answered serialDataReady input fds := by
  induction fds generalizing input with
  | nil =>
      rfl
  | cons entry rest inductionHypothesis =>
      have first := (entry_answered serialDataReady 0 input entry).1
      simp only [pollLoop, answered, first, inductionHypothesis]

/-- So does the loop of `ppoll`, and it counts those that are ready. -/
theorem ppollLoop_eq
    (ready : Int32)
    (input : Input)
    (fds : List PollFd) :
    ppollLoop serialDataReady ready input fds =
      ((answered serialDataReady input fds).1,
        ready + Int32.ofNat (readyCount serialDataReady input fds),
        (answered serialDataReady input fds).2) := by
  induction fds generalizing ready input with
  | nil =>
      simp [ppollLoop, answered, readyCount]
  | cons entry rest inductionHypothesis =>
      have first := (entry_answered serialDataReady ready input entry).2
      simp only [ppollLoop, answered, readyCount, first,
        inductionHypothesis, Int32.ofNat_add]
      cases (readyEntry serialDataReady input entry).1 with
      | false =>
          simp
      | true =>
          simp [Int32.add_assoc]

/-- An entry has an event exactly if it is ready. -/
theorem withAnswer_revents_ne_zero
    (entry : PollFd)
    (ready : Bool) :
    (withAnswer entry ready).revents ≠ 0 ↔ ready = true := by
  unfold withAnswer
  cases ready with
  | false =>
      simp
  | true =>
      have someEvent : pollIn ≠ 0 ∧ pollOut ≠ 0 := by decide
      refine iff_of_true ?_ rfl
      by_cases stdin : entry.fd = 0
      · simpa [stdin] using someEvent.1
      · simpa [stdin] using someEvent.2

/-- The number of entries that are ready is the number with an event. -/
theorem countP_answered (input : Input) (fds : List PollFd) :
    (answered serialDataReady input fds).1.countP (·.revents ≠ 0) =
      readyCount serialDataReady input fds := by
  induction fds generalizing input with
  | nil =>
      rfl
  | cons entry rest inductionHypothesis =>
      simp only [answered, readyCount, List.countP_cons,
        inductionHypothesis, withAnswer_revents_ne_zero, decide_eq_true_eq]
      cases (readyEntry serialDataReady input entry).1 with
      | false =>
          exact (Nat.zero_add _).symm
      | true =>
          exact Nat.add_comm _ 1

/-- No more entries are ready than there are. -/
theorem readyCount_le (input : Input) (fds : List PollFd) :
    readyCount serialDataReady input fds ≤ fds.length := by
  induction fds generalizing input with
  | nil =>
      exact Nat.le_refl 0
  | cons entry rest inductionHypothesis =>
      have later :=
        inductionHypothesis (readyEntry serialDataReady input entry).2
      have one :=
        Bool.toNat_le (readyEntry serialDataReady input entry).1
      rw [readyCount, List.length_cons]
      omega

/-- The array keeps its length. -/
theorem length_answered (input : Input) (fds : List PollFd) :
    (answered serialDataReady input fds).1.length = fds.length := by
  induction fds generalizing input with
  | nil =>
      rfl
  | cons entry rest inductionHypothesis =>
      exact congrArg (· + 1) (inductionHypothesis _)

/-! ## Agreement -/

/--
The two calls leave the same events, and both return the number of entries
that have one.
-/
def PollsAgree
    (input : Input)
    (fds : List PollFd)
    (nfds : Int32) : Prop :=
  let count := nfds.toInt.toNat
  let polled := poll serialDataReady input fds nfds
  let ppolled := ppoll serialDataReady input fds nfds
  polled.fds = ppolled.fds ∧
    polled.ret = ppolled.ret ∧
    ppolled.ret.toInt =
      ((ppolled.fds.take count).countP (·.revents ≠ 0) : Nat)

/-- `ppoll` returns the number of entries that are ready. -/
theorem ppoll_ret
    (input : Input)
    (fds : List PollFd)
    (nfds : Int32) :
    (ppoll serialDataReady input fds nfds).ret.toInt =
      readyCount serialDataReady input (fds.take nfds.toInt.toNat) := by
  have few :
      readyCount serialDataReady input (fds.take nfds.toInt.toNat) <
        2 ^ 31 := by
    have atMost :=
      readyCount_le serialDataReady input (fds.take nfds.toInt.toNat)
    have taken := List.length_take_le nfds.toInt.toNat fds
    have top : nfds.toInt < 2 ^ 31 := nfds.toInt_lt
    omega
  simp only [ppoll, ppollLoop_eq, Int32.zero_add,
    Int32.toInt_toInt64]
  exact Int32.toInt_ofNat_of_lt few

/-- Both calls leave the events of the rule. -/
theorem poll_fds
    (input : Input)
    (fds : List PollFd)
    (nfds : Int32) :
    (poll serialDataReady input fds nfds).fds =
      (ppoll serialDataReady input fds nfds).fds := by
  simp only [poll, ppoll, pollLoop_eq, ppollLoop_eq]

/-- The entries with an event are those that are ready. -/
theorem countP_ppoll
    (input : Input)
    (fds : List PollFd)
    (nfds : Int32) :
    ((ppoll serialDataReady input fds nfds).fds.take
        nfds.toInt.toNat).countP (·.revents ≠ 0) =
      readyCount serialDataReady input (fds.take nfds.toInt.toNat) := by
  generalize countShape : nfds.toInt.toNat = count
  have length :=
    length_answered serialDataReady input (fds.take count)
  have taken :
      (ppoll serialDataReady input fds nfds).fds.take count =
        (answered serialDataReady input (fds.take count)).1 := by
    simp only [ppoll, ppollLoop_eq, countShape]
    rw [List.length_take] at length
    rcases Nat.le_total count fds.length with within | beyond
    · exact List.take_left' (by omega)
    · rw [List.drop_eq_nil_of_le beyond, List.append_nil]
      exact List.take_of_length_le (by omega)
  rw [taken, countP_answered]

/--
For any array and any state of the console, `poll` and `ppoll` agree and
return the number of entries with an event, if and only if exactly one entry
is ready.
-/
theorem polls_agree_iff
    (input : Input)
    (fds : List PollFd)
    (nfds : Int32) :
    PollsAgree serialDataReady input fds nfds ↔
      readyCount serialDataReady input (fds.take nfds.toInt.toNat) =
        1 := by
  have returned := ppoll_ret serialDataReady input fds nfds
  have sameEvents := poll_fds serialDataReady input fds nfds
  have counted := countP_ppoll serialDataReady input fds nfds
  simp only [PollsAgree, sameEvents, counted, returned, true_and, and_true]
  rw [← Int64.toInt_inj, returned]
  change (1 : Int) = _ ↔ _
  omega

end Loops

/-- A console that always has input, or never. -/
def constantly (ready : Bool) (input : Unit) : Bool × Unit :=
  (ready, input)

/-- With nothing to read `poll` still reports an entry. -/
theorem polls_disagree :
    ¬PollsAgree (constantly false) () [⟨0, pollIn, 0⟩] 1 := by
  rintro ⟨-, sameResult, -⟩
  exact absurd sameResult (by decide)

end RubyOnBareMetal.Descriptors
