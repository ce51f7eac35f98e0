import RubyOnBareMetal.Serial.Runs
import RubyOnBareMetal.Syscall.Components

namespace RubyOnBareMetal.Syscall

open Foundation Descriptors

/-!
# From a buffer to the line

The dispatcher over the serial port.  What the calls write to the console is
on the line, and what comes over the line is in the buffers of the calls that
read, each byte once and in order, whatever other calls come between.
-/

/-- The bytes that a use of the console writes. -/
def ConsoleCall.written : ConsoleCall → List UInt8
  | .write bytes => bytes
  | _ => []

/-- The bytes that the console answers with. -/
def ConsoleAnswer.taken : ConsoleAnswer → List UInt8
  | .bytes input => input
  | _ => []

/-! ## The serial port as the console -/

/-- `kernel/serial.c`. -/
def serialDriver : Driver Serial.Uart where
  putc := Serial.Uart.putc
  read uart len := uart.read len.toNat
  dataReady := Serial.Uart.dataReady
  atMost uart len result isResult := by
    cases shape : len.toNat with
    | zero =>
        rw [shape] at isResult
        cases isResult
        exact Nat.le_refl 0
    | succ room =>
        rw [shape] at isResult
        rcases uart.read_cases room with
          ⟨waits, -⟩ | ⟨bytes, after, got, -, -, atMost⟩
        · rw [waits] at isResult
          cases isResult
        · rw [got] at isResult
          cases isResult
          exact atMost

/-- The call of the port that a use of the console makes. -/
def ConsoleCall.toSerial : ConsoleCall → Serial.Call
  | write bytes => .write bytes
  | read count => .read count.toNat
  | dataReady => .dataReady

theorem toSerial_printed (call : ConsoleCall) :
    call.toSerial.printed = call.written := by
  cases call <;> rfl

/-- A use of the console is that call. -/
theorem console_serial (uart : Serial.Uart) (call : ConsoleCall) :
    ((consoleCalls serialDriver).step uart call).1.taken =
        (Serial.step uart call.toSerial).1.handed ∧
      ((consoleCalls serialDriver).step uart call).2 =
        (Serial.step uart call.toSerial).2 := by
  cases call with
  | write bytes =>
      exact ⟨rfl, rfl⟩
  | dataReady =>
      exact ⟨rfl, rfl⟩
  | read count =>
      simp only [consoleCalls, serialDriver, ConsoleCall.toSerial,
        Serial.step]
      cases uart.read count.toNat <;> exact ⟨rfl, rfl⟩

/-- What a run of uses of the console does to a port that is ready. -/
theorem console_run
    {uart : Serial.Uart}
    (ready : uart.Ready)
    (calls : List ConsoleCall) :
    let after := (consoleCalls serialDriver).run uart calls
    uart.Receives
        (((consoleCalls serialDriver).responses uart calls).flatMap
          ConsoleAnswer.taken) after ∧
      Flows uart.transmitter
        (endLines 0x0D 0x0A (calls.flatMap ConsoleCall.written)) []
        after.transmitter := by
  induction calls generalizing uart with
  | nil =>
      exact ⟨.nothing rfl rfl, .nothing _⟩
  | cons call rest inductionHypothesis =>
      have admitted : call.toSerial ≠ .init := by
        cases call <;> exact Serial.Call.noConfusion
      have first := Serial.step_exchange ready admitted
      obtain ⟨sameAnswer, samePort⟩ := console_serial uart call
      rw [← samePort] at first
      obtain ⟨receives, sends⟩ := inductionHypothesis first.ready
      rw [Machine.run_cons, Machine.responses_cons]
      constructor
      · rw [List.flatMap_cons, sameAnswer]
        exact first.receives.append receives
      · rw [List.flatMap_cons, endLines_append, ← toSerial_printed]
        exact first.sends.append sends

/-! ## What the calls store -/

section Calls

variable {Console : Type}
variable (driver : Driver Console)
variable (environment : Environment)

/-- What a call has stored of the console's input, by what it returned. -/
def storedInput
    (system : System Console)
    (request : Request)
    (result : Option Int64 × System Console) :
    List UInt8 :=
  if system.halted = false ∧ Nr.ofLong? request.n = some .read ∧
      request.a1.toInt32 = 0 then
    result.2.ram.slice request.a2.toUInt64.toNat
      (result.1.getD 0).toUInt64.toNat
  else
    []

/-- What the calls of a run have stored of it. -/
def inputOf (system : System Console) : List Request → List UInt8
  | [] => []
  | request :: rest =>
      let result := step driver environment system request
      storedInput system request result ++ inputOf result.2 rest

/-- What a call prints: its trace and its log, or the bytes it writes. -/
def printedBy (system : System Console) (request : Request) :
    List UInt8 :=
  (consoleAsksOf environment system request).flatMap ConsoleCall.written

/-- What the calls of a run print. -/
def outputOf (system : System Console) : List Request → List UInt8
  | [] => []
  | request :: rest =>
      printedBy environment system request ++
        outputOf (step driver environment system request).2 rest

/-- A use of the console that takes input. -/
def ConsoleCall.Takes : ConsoleCall → Prop
  | read _ => True
  | _ => False

/-- The uses that take none are answered without. -/
theorem taken_of_not_takes
    (console : Console)
    {calls : List ConsoleCall}
    (none : ∀ call ∈ calls, ¬call.Takes) :
    ((consoleCalls driver).responses console calls).flatMap
      ConsoleAnswer.taken = [] := by
  induction calls generalizing console with
  | nil =>
      rfl
  | cons call rest inductionHypothesis =>
      obtain ⟨first, later⟩ := List.forall_mem_cons.mp none
      rw [Machine.responses_cons, List.flatMap_cons,
        inductionHypothesis _ later, List.append_nil]
      cases call with
      | read count => exact absurd trivial first
      | write _ | dataReady => rfl

/-- The loop of `sys_writev` takes no input. -/
theorem vectorWrites_not_takes
    (ram : Memory)
    (iov : UInt64)
    (left i : Nat) :
    ∀ call ∈ vectorWrites ram iov left i, ¬call.Takes := by
  induction left generalizing i with
  | zero =>
      exact List.forall_mem_nil _
  | succ left inductionHypothesis =>
      rw [vectorWrites]
      refine List.forall_mem_cons.mpr ⟨id, ?_⟩
      split
      · exact List.forall_mem_nil _
      · exact inductionHypothesis (i + 1)

/-- Only `read` takes input, and only on descriptor 0. -/
theorem consoleAsks_not_takes
    (system : System Console)
    {nr : Nr}
    {request : Request}
    (other : nr ≠ .read ∨ request.a1.toInt32 ≠ 0) :
    ∀ call ∈ consoleAsks system nr request, ¬call.Takes := by
  have one {call : ConsoleCall} (harmless : ¬call.Takes) :
      ∀ asked ∈ [call], ¬asked.Takes :=
    List.forall_mem_singleton.mpr harmless
  have polling (entries : List PollFd) :
      ∀ call ∈ pollQuestions entries, ¬call.Takes := by
    intro call member
    obtain ⟨entry, -, rfl⟩ := List.mem_map.mp member
    exact id
  cases nr with
  | read =>
      rcases other with other | other
      · exact absurd rfl other
      · rw [consoleAsks, if_neg other]
        exact List.forall_mem_nil _
  | write | pwrite64 =>
      rw [consoleAsks]
      split
      · exact one id
      · exact List.forall_mem_nil _
  | writev =>
      rw [consoleAsks]
      split
      · exact vectorWrites_not_takes _ _ _ _
      · exact List.forall_mem_nil _
  | poll | ppoll =>
      exact polling _
  | pselect6 =>
      rw [consoleAsks]
      split
      · exact List.forall_mem_nil _
      · split
        · exact one id
        · exact List.forall_mem_nil _
  | exit | exitGroup =>
      exact one id
  | _ =>
      exact List.forall_mem_nil _

/-- The trace takes none. -/
theorem traceAsks_not_takes (n : Int64) :
    ∀ call ∈ traceAsks environment n, ¬call.Takes := by
  unfold traceAsks
  split
  · exact List.forall_mem_singleton.mpr id
  · exact List.forall_mem_nil _

/-- `sys_read` on descriptor 0 stores what the console answers. -/
theorem sysRead_input
    (system : System Console)
    {fd : Int32}
    (buf count : UInt64)
    (input : fd = 0) :
    (system.sysRead driver fd buf count).2.ram.slice buf.toNat
        ((system.sysRead driver fd buf count).1.getD 0).toUInt64.toNat =
      ((consoleCalls driver).step system.console (.read count)).1.taken := by
  rw [system.sysRead_eq_console driver input]
  dsimp only [consoleCalls]
  cases read : driver.read system.console count with
  | none =>
      rfl
  | some result =>
      obtain ⟨bytes, console⟩ := result
      have fits : bytes.length < 2 ^ 64 :=
        Nat.lt_of_le_of_lt
          (driver.atMost system.console count _ read) count.toNat_lt
      have length :
          (Int64.ofNat bytes.length).toUInt64.toNat = bytes.length :=
        Nat.mod_eq_of_lt fits
      change Memory.slice (system.ram.writeAll buf.toNat bytes) buf.toNat
        (Int64.ofNat bytes.length).toUInt64.toNat = bytes
      rw [length, Memory.slice_writeAll]

/-- What a call stores of the input is what its uses of the console take. -/
theorem storedInput_eq (system : System Console) (request : Request) :
    storedInput system request (step driver environment system request) =
      ((consoleCalls driver).responses system.console
        (consoleAsksOf environment system request)).flatMap
          ConsoleAnswer.taken := by
  unfold storedInput consoleAsksOf
  rcases step_cases driver environment system request with
    ⟨halted, -⟩ | ⟨running, unknown, -⟩ |
      ⟨nr, running, selected, dispatched⟩
  · rw [halted, if_neg fun both => Bool.noConfusion both.1, if_pos rfl]
    rfl
  · rw [if_neg fun both => by simp [unknown] at both, running, unknown,
      if_neg Bool.false_ne_true, taken_of_not_takes]
    exact List.forall_mem_append.mpr
      ⟨traceAsks_not_takes environment _, List.forall_mem_singleton.mpr id⟩
  · rw [running, selected, if_neg Bool.false_ne_true]
    dsimp only
    rw [Machine.responses_append, List.flatMap_append,
      taken_of_not_takes driver _ (traceAsks_not_takes environment _),
      List.nil_append, ← trace_console]
    by_cases input : nr = .read ∧ request.a1.toInt32 = 0
    · obtain ⟨rfl, input⟩ := input
      rw [if_pos ⟨rfl, rfl, input⟩, dispatched, consoleAsks,
        if_pos input]
      have stored :=
        sysRead_input driver (trace driver environment system request.n)
          request.a2.toUInt64 request.a3.toUInt64 input
      exact stored.trans (List.flatMap_singleton _ _).symm
    · rw [if_neg fun both =>
          input ⟨Option.some.inj both.2.1, both.2.2⟩,
        taken_of_not_takes]
      exact consoleAsks_not_takes system
        (Classical.not_and_iff_not_or_not.mp input)

/-- Over a run. -/
theorem inputOf_eq
    (system : System Console)
    (requests : List Request) :
    inputOf driver environment system requests =
      ((consoleCalls driver).responses system.console
        ((consoleComponent driver environment).asked system
          requests)).flatMap ConsoleAnswer.taken := by
  induction requests generalizing system with
  | nil =>
      rfl
  | cons request rest inductionHypothesis =>
      rw [inputOf, inductionHypothesis, Machine.Component.asked_cons,
        Machine.responses_append, List.flatMap_append, storedInput_eq]
      exact congrArg
        (fun console =>
          _ ++ ((consoleCalls driver).responses console _).flatMap _)
        (step_console driver environment system request)

theorem outputOf_eq
    (system : System Console)
    (requests : List Request) :
    outputOf driver environment system requests =
      ((consoleComponent driver environment).asked system
        requests).flatMap ConsoleCall.written := by
  induction requests generalizing system with
  | nil =>
      rfl
  | cons request rest inductionHypothesis =>
      rw [outputOf, inductionHypothesis, Machine.Component.asked_cons,
        List.flatMap_append]
      rfl

end Calls

/-! ## The line -/

/--
Over every run of system calls on the serial port after its initialisation:
what the calls print, with its line ends, is on the line or on its way there,
in order, and a receiver that joins the line ends gets exactly the bytes
printed, if and only if the transmit buffer of the port has not overrun; what
has arrived on the line is in the buffers of the calls that read, once and in
order, up to what is still pending, if and only if its receive buffer has not.
In any case nothing comes twice or out of order.
-/
theorem line_carries_bytes
    (environment : Environment)
    (start : System Serial.Uart)
    (uart : Serial.Uart)
    (initialised : start.console = uart.init)
    (requests : List Request) :
    let after :=
      ((systemCalls serialDriver environment).run start requests).console
    let printed := outputOf serialDriver environment start requests
    let line := endLines 0x0D 0x0A printed
    let input := inputOf serialDriver environment start requests
    joinLines 0x0D 0x0A line = printed ∧
      ((∃ kept, after.outgoing = uart.sent ++ kept ∧ kept.Sublist line) ∧
        (after.lost = uart.lost ↔ after.outgoing = uart.sent ++ line)) ∧
      (∃ arrived,
          uart.arriving.flatten = arrived ++ after.arriving.flatten ∧
            (input ++ after.received).Sublist arrived) ∧
        (after.overrun = uart.overrun ↔
          input ++ after.pending = uart.arriving.flatten) := by
  have ready : start.console.Ready := by
    rw [initialised]
    exact uart.init_ready
  obtain ⟨receives, sends⟩ :=
    console_run ready
      ((consoleComponent serialDriver environment).asked start requests)
  have consoleAfter :=
    (consoleComponent serialDriver environment).view_run start requests
  dsimp only [consoleComponent] at consoleAfter
  dsimp only
  rw [consoleAfter, outputOf_eq, inputOf_eq]
  rw [initialised] at receives sends ⊢
  exact ⟨joinLines_endLines (by decide) _, Serial.Uart.sent_of_init sends,
    receives.of_init⟩

/-- RAM with a text at 16, and a port at which bytes arrive. -/
def typedAndPrinted : System Serial.Uart where
  ram := Memory.zero.writeAll 16 [0x68, 0x69, 0x0A]
  mmapNext := Mmap.mmapBase
  fdTable := Table.initial
  console := Serial.Uart.reset.init
  fsBase := 0
  gsBase := 0
  halted := false

/-- A read, a write of the text and an unknown number. -/
def typingCalls : List Request := [
  ⟨0, 0, 0x100, 8, 0, 0, 0, 1⟩,
  ⟨1, 1, 16, 3, 0, 0, 0, 2⟩,
  ⟨999, 0, 0, 0, 0, 0, 0, 3⟩]

/-- Neither buffer overruns, so all is on its way and all is stored. -/
theorem line_carries_bytes_typed :
    let after :=
      ((systemCalls serialDriver Environment.bare).run typedAndPrinted
        typingCalls).console
    let printed :=
      outputOf serialDriver Environment.bare typedAndPrinted typingCalls
    let input :=
      inputOf serialDriver Environment.bare typedAndPrinted typingCalls
    after.outgoing =
        Serial.Uart.reset.sent ++ endLines 0x0D 0x0A printed ∧
      input ++ after.pending = Serial.Uart.reset.arriving.flatten := by
  intro after printed input
  obtain ⟨-, ⟨-, allSent⟩, -, allReceived⟩ :=
    line_carries_bytes Environment.bare typedAndPrinted Serial.Uart.reset
      rfl typingCalls
  exact ⟨allSent.mp (by decide +kernel), allReceived.mp (by decide +kernel)⟩

end RubyOnBareMetal.Syscall
