import RubyOnBareMetal.Serial.Input

namespace RubyOnBareMetal.Serial

open Foundation

/-!
# Runs of the serial port

The initialisation drops what was received before it and leaves the port
ready.  From then on the port is a channel in both directions, which loses
something exactly if a buffer of the port overruns.
-/

/-! ## The initialisation -/

namespace Uart

/-- The divisor is written while the latch bit is set. -/
theorem outb_divisor (uart : Uart) (low high : UInt8) :
    ((uart.outb (com1 + 3) 0x80).outb com1 low).outb (com1 + 1) high =
      { uart with lcr := 0x80, dll := low, dlm := high } := by
  have latched {uart : Uart} (line : uart.lcr = 0x80) : uart.Latched := by
    rw [Latched, line]
    decide
  have second : ¬com1 + 1 = com1 := by decide
  have line : uart.outb (com1 + 3) 0x80 = { uart with lcr := 0x80 } := rfl
  have lowByte {uart : Uart} (line : uart.lcr = 0x80) :
      uart.outb com1 low = { uart with dll := low } := by
    rw [outb, if_pos rfl, if_pos (latched line)]
  have highByte {uart : Uart} (line : uart.lcr = 0x80) :
      uart.outb (com1 + 1) high = { uart with dlm := high } := by
    rw [outb, if_neg second, if_pos rfl, if_pos (latched line)]
  rw [line, lowByte rfl, highByte rfl]

/-- Then the line, the buffers and the modem are set up. -/
theorem outb_controls (uart : Uart) :
    ((uart.outb (com1 + 3) 0x03).outb (com1 + 2) 0xC7).outb
        (com1 + 4) 0x0B =
      { uart with
        lcr := 3
        fcr := 0xC7
        mcr := 0x0B
        received := []
        unsent := [] } := by
  have line : uart.outb (com1 + 3) 0x03 = { uart with lcr := 3 } := rfl
  have clears : (0xC7 : UInt8) &&& 2 ≠ 0 ∧ (0xC7 : UInt8) &&& 4 ≠ 0 := by
    decide
  have buffers (uart : Uart) :
      uart.outb (com1 + 2) 0xC7 =
        { uart with fcr := 0xC7, received := [], unsent := [] } := by
    change { uart with
      fcr := 0xC7
      received := if (0xC7 : UInt8) &&& 2 ≠ 0 then [] else _
      unsent := if (0xC7 : UInt8) &&& 4 ≠ 0 then [] else _ } = _
    rw [if_pos clears.1, if_pos clears.2]
  have modem (uart : Uart) :
      uart.outb (com1 + 4) 0x0B = { uart with mcr := 0x0B } :=
    rfl
  rw [line, buffers, modem]

/-- What `serial_init` writes, whatever the registers held. -/
theorem init_eq (uart : Uart) :
    uart.init =
      { uart with
        ier := if uart.Latched then uart.ier else 0
        lcr := 3
        fcr := 0xC7
        mcr := 0x0B
        dll := 3
        dlm := 0
        received := []
        unsent := [] } := by
  have interrupts :
      uart.outb (com1 + 1) 0 =
        if uart.Latched then
          { uart with dlm := 0 }
        else
          { uart with ier := 0 } :=
    rfl
  rw [init, outb_divisor, outb_controls, interrupts]
  by_cases latched : uart.Latched
  · rw [if_pos latched, if_pos latched]
  · rw [if_neg latched, if_neg latched]

/-- The port is ready after `serial_init`. -/
theorem init_ready (uart : Uart) : uart.init.Ready := by
  have switchedOn : (0xC7 : UInt8) &&& 1 ≠ 0 := by decide
  rw [init_eq]
  exact ⟨⟨rfl, rfl⟩, rfl, if_pos switchedOn⟩

/-- The receive buffer is empty then. -/
theorem init_received (uart : Uart) :
    uart.init.receiver = ⟨[], uart.overrun⟩ ∧
      uart.init.arriving = uart.arriving := by
  rw [init_eq]
  exact ⟨rfl, rfl⟩

/-- All that is pending is still to arrive. -/
theorem init_pending (uart : Uart) :
    uart.init.pending = uart.arriving.flatten := by
  rw [init_eq]
  rfl

/-- All that was to be sent before is on the line or dropped. -/
theorem init_transmitter (uart : Uart) :
    uart.init.transmitter = ⟨uart.sent, uart.lost⟩ := by
  rw [init_eq, transmitter, outgoing, List.append_nil]

/-- What is received after the initialisation, and whether it is all. -/
theorem Receives.of_init
    {uart after : Uart}
    {bytes : List UInt8}
    (receives : uart.init.Receives bytes after) :
    (∃ arrived,
        uart.arriving.flatten = arrived ++ after.arriving.flatten ∧
          (bytes ++ after.received).Sublist arrived) ∧
      (after.overrun = uart.overrun ↔
        bytes ++ after.pending = uart.arriving.flatten) := by
  obtain ⟨receiver, arriving⟩ := uart.init_received
  have whole := receives.lossless_iff
  obtain ⟨arrived, split, flows⟩ := receives
  obtain ⟨kept, moved, inOrder⟩ := flows.exists_kept
  constructor
  · rw [arriving] at split
    rw [receiver] at moved
    exact ⟨arrived, split, moved ▸ inOrder⟩
  · have overrun : uart.init.overrun = uart.overrun :=
      congrArg Lossy.lost receiver
    rw [← overrun, whole, uart.init_pending, eq_comm]

/-- What is sent after the initialisation, and whether it is all. -/
theorem sent_of_init
    {uart after : Uart}
    {line : List UInt8}
    (sends : Flows uart.init.transmitter line [] after.transmitter) :
    (∃ kept, after.outgoing = uart.sent ++ kept ∧ kept.Sublist line) ∧
      (after.lost = uart.lost ↔ after.outgoing = uart.sent ++ line) := by
  rw [uart.init_transmitter] at sends
  obtain ⟨kept, moved, inOrder⟩ := sends.exists_kept
  have whole := sends.lossless_iff
  exact ⟨⟨kept, moved.symm, inOrder⟩, whole.trans eq_comm⟩

end Uart

/-! ## Receiving -/

/-- A call that is answered as it should be, by what it was given. -/
def Served (uart : Uart) : Call → Prop
  | .getc =>
      (step uart .getc).1 = .waiting ∧ uart.pending = [] ∨
        ∃ c, (step uart .getc).1 = .char c
  | .read len =>
      (step uart (.read len)).1 = .waiting ∧
          uart.pending = [] ∧ 0 < len ∨
        ∃ bytes,
          (step uart (.read len)).1 = .bytes bytes ∧
            bytes.length ≤ len ∧ (bytes = [] ↔ len = 0)
  | _ => True

/-- Every call is. -/
theorem served (uart : Uart) (call : Call) : Served uart call := by
  cases call with
  | getc =>
      rcases uart.getc_cases with ⟨waits, nothing⟩ | ⟨byte, after, got, -⟩
      · exact .inl ⟨by simp only [step, waits], nothing⟩
      · exact .inr ⟨byte, by simp only [step, got]⟩
  | read len =>
      cases len with
      | zero =>
          exact .inr ⟨[], rfl, Nat.le_refl 0, by simp⟩
      | succ room =>
          rcases uart.read_cases room with
            ⟨waits, nothing⟩ | ⟨bytes, after, got, -, some, atMost⟩
          · exact .inl ⟨by simp only [step, waits], nothing,
              Nat.succ_pos room⟩
          · exact .inr ⟨bytes, by simp only [step, got], atMost,
              by simp [some]⟩
  | init | putc _ | puts _ | write _ | dataReady =>
      trivial

/-- What a run hands out, and what it leaves pending and sent. -/
theorem run_exchange
    {uart : Uart}
    {calls : List Call}
    (ready : uart.Ready)
    (admissible : serialPort.Admissible uart calls) :
    let after := serialPort.run uart calls
    after.Ready ∧
      uart.Receives
        ((serialPort.responses uart calls).flatMap Answer.handed) after ∧
      Flows uart.transmitter
        (endLines 0x0D 0x0A (calls.flatMap Call.printed)) []
        after.transmitter := by
  induction calls generalizing uart with
  | nil =>
      exact ⟨ready, .nothing rfl rfl, .nothing _⟩
  | cons call rest inductionHypothesis =>
      obtain ⟨admitted, later⟩ := admissible
      have first : Exchange uart call _ _ := step_exchange ready admitted
      obtain ⟨stillReady, receives, sends⟩ :=
        inductionHypothesis first.ready later
      refine ⟨stillReady, ?_, ?_⟩
      · rw [Machine.responses_cons, List.flatMap_cons]
        exact first.receives.append receives
      · rw [List.flatMap_cons, endLines_append]
        exact first.sends.append sends

/--
After the initialisation, over every run of calls and whatever the timing: the
bytes handed out and received are some of those that have arrived, once each
and in order; they are all of them if and only if the receive buffer has not
overrun; a call waits for ever only if none is left, and a read stores at
least one byte and at most as many as there is room for.
-/
theorem input_delivered_once
    (uart : Uart)
    (calls : List Call)
    (admissible : serialPort.Admissible uart.init calls) :
    let after := serialPort.run uart.init calls
    let handed :=
      (serialPort.responses uart.init calls).flatMap Answer.handed
    (∃ arrived,
        uart.arriving.flatten = arrived ++ after.arriving.flatten ∧
          (handed ++ after.received).Sublist arrived) ∧
      (after.overrun = uart.overrun ↔
        handed ++ after.pending = uart.arriving.flatten) ∧
      ∀ earlier call later,
        calls = earlier ++ call :: later →
        Served (serialPort.run uart.init earlier) call := by
  obtain ⟨-, receives, -⟩ := run_exchange uart.init_ready admissible
  obtain ⟨some, all⟩ := receives.of_init
  exact ⟨some, all, fun earlier call later _ => served _ call⟩

/-- A port at reset, to which three bytes arrive, on a line that keeps up. -/
def Uart.reset : Uart where
  ier := 0
  lcr := 0
  fcr := 0
  mcr := 0
  dll := 0
  dlm := 0
  received := []
  arriving := [[], [0x61], [0x62, 0x0D]]
  overrun := []
  unsent := []
  taking := List.replicate 64 1
  sent := []
  lost := []

theorem input_delivered_once_reset :
    let calls := [Call.dataReady, .read 8, .putc 0x0A, .read 1]
    let after := serialPort.run Uart.reset.init calls
    let handed :=
      (serialPort.responses Uart.reset.init calls).flatMap Answer.handed
    (∃ arrived,
        Uart.reset.arriving.flatten = arrived ++ after.arriving.flatten ∧
          (handed ++ after.received).Sublist arrived) ∧
      handed ++ after.pending = Uart.reset.arriving.flatten := by
  intro calls after handed
  obtain ⟨some, all, -⟩ :=
    input_delivered_once Uart.reset calls
      ⟨Call.noConfusion, Call.noConfusion, Call.noConfusion,
        Call.noConfusion, trivial⟩
  exact ⟨some, all.mp (by decide +kernel)⟩

/-! ## One byte at a time -/

/-- A call that asks for at most one byte. -/
def Call.Sips : Call → Prop
  | init => False
  | read len => len ≤ 1
  | _ => True

/-- A call that asks for a byte. -/
def Call.asks : Call → Bool
  | getc => true
  | read len => len ≠ 0
  | _ => false

/-- Such a call is given the next byte, if there is one to come. -/
theorem served_byte
    {uart : Uart}
    {call : Call}
    (sips : call.Sips)
    (asks : call.asks = true) :
    (step uart call).1.handed = [] ∧ uart.pending = [] ∨
      ∃ c, (step uart call).1.handed = [c] := by
  have served := served uart call
  cases call with
  | getc =>
      rcases served with ⟨waits, nothing⟩ | ⟨c, got⟩
      · exact .inl ⟨by rw [waits]; rfl, nothing⟩
      · exact .inr ⟨c, by rw [got]; rfl⟩
  | read len =>
      have one : len = 1 := by
        have notZero : len ≠ 0 := of_decide_eq_true asks
        have atMost : len ≤ 1 := sips
        omega
      rcases served with ⟨waits, nothing, -⟩ | ⟨bytes, got, atMost, some⟩
      · exact .inl ⟨by rw [waits]; rfl, nothing⟩
      · have length : bytes.length = 1 := by
          have notEmpty : bytes ≠ [] := fun none => by
            have zero := some.mp none
            omega
          have positive := List.length_pos_of_ne_nil notEmpty
          omega
        obtain ⟨c, shape⟩ := List.length_eq_one_iff.mp length
        exact .inr ⟨c, by rw [got, shape]; rfl⟩
  | init | putc _ | puts _ | write _ | dataReady =>
      cases asks

/-- The other calls are given nothing. -/
theorem handed_of_not_asks
    (uart : Uart)
    {call : Call}
    (silent : call.asks = false) :
    (step uart call).1.handed = [] := by
  cases call with
  | getc =>
      cases silent
  | read len =>
      have zero : len = 0 := by
        simpa [Call.asks] using silent
      subst zero
      rfl
  | init | putc _ | puts _ | write _ | dataReady =>
      rfl

/-- The bytes of one call and those that may be asked for later. -/
theorem step_take
    {uart : Uart}
    {call : Call}
    (ready : uart.Ready)
    (sips : call.Sips)
    (kept : (step uart call).2.overrun = uart.overrun)
    (later : Nat) :
    uart.pending.take ((if call.asks then 1 else 0) + later) =
      (step uart call).1.handed ++
        (step uart call).2.pending.take later := by
  have admitted : call ≠ .init := by
    rintro rfl
    exact sips
  have received :=
    (step_exchange ready admitted).receives.lossless_iff.mp kept
  cases asks : call.asks with
  | false =>
      rw [handed_of_not_asks uart asks] at received ⊢
      rw [received, if_neg Bool.false_ne_true, Nat.zero_add]
      rfl
  | true =>
      rw [if_pos rfl, Nat.add_comm]
      rcases served_byte sips asks with ⟨none, nothing⟩ | ⟨c, one⟩
      · rw [none, List.nil_append] at received ⊢
        rw [← received, nothing, List.take_nil, List.take_nil]
      · rw [one] at received ⊢
        rw [received]
        rfl

/-- In a run that does not overrun, neither its first call nor the rest do. -/
theorem overrun_of_cons
    {uart : Uart}
    {call : Call}
    {rest : List Call}
    (ready : uart.Ready)
    (admissible : serialPort.Admissible uart (call :: rest))
    (kept : (serialPort.run uart (call :: rest)).overrun = uart.overrun) :
    (step uart call).2.overrun = uart.overrun ∧
      (serialPort.run (step uart call).2 rest).overrun =
        (step uart call).2.overrun := by
  obtain ⟨admitted, later⟩ := admissible
  have first := step_exchange ready admitted
  obtain ⟨-, receives, -⟩ := run_exchange first.ready later
  have grows := first.receives.overrun_prefix
  have growsLater := receives.overrun_prefix
  change (serialPort.run (step uart call).2 rest).overrun = uart.overrun
    at kept
  change (step uart call).2.overrun <+:
    (serialPort.run (step uart call).2 rest).overrun at growsLater
  rw [kept] at growsLater ⊢
  have same := growsLater.eq_of_length_le grows.length_le
  exact ⟨same, same.symm⟩

/-- Who asks for one byte at a time does not initialise the port. -/
theorem admissible_of_sips
    {uart : Uart}
    {calls : List Call}
    (sips : ∀ call ∈ calls, call.Sips) :
    serialPort.Admissible uart calls := by
  induction calls generalizing uart with
  | nil =>
      trivial
  | cons call rest inductionHypothesis =>
      obtain ⟨sipsFirst, sipsRest⟩ := List.forall_mem_cons.mp sips
      refine ⟨?_, inductionHypothesis sipsRest⟩
      rintro rfl
      exact sipsFirst

/-- The bytes of a run that asks for one at a time. -/
theorem handed_eq_take
    {uart : Uart}
    {calls : List Call}
    (ready : uart.Ready)
    (sips : ∀ call ∈ calls, call.Sips)
    (kept : (serialPort.run uart calls).overrun = uart.overrun) :
    (serialPort.responses uart calls).flatMap Answer.handed =
      uart.pending.take (calls.countP Call.asks) := by
  induction calls generalizing uart with
  | nil =>
      rfl
  | cons call rest inductionHypothesis =>
      obtain ⟨sipsFirst, sipsRest⟩ := List.forall_mem_cons.mp sips
      have admissible := @admissible_of_sips uart _ sips
      have still := (step_exchange ready admissible.1).ready
      obtain ⟨keptFirst, keptRest⟩ := overrun_of_cons ready admissible kept
      rw [Machine.responses_cons, List.flatMap_cons, List.countP_cons,
        Nat.add_comm, step_take ready sipsFirst keptFirst,
        ← inductionHypothesis still sipsRest keptRest]
      rfl

/--
Who asks for one byte at a time is given, over every run in which the receive
buffer does not overrun, the first bytes that arrive, as many as were asked
for: what is handed out does not depend on when the bytes arrive, on what is
polled and on what is sent in between.
-/
theorem input_independent_of_timing
    (uart : Uart)
    (calls : List Call)
    (sips : ∀ call ∈ calls, call.Sips)
    (kept : (serialPort.run uart.init calls).overrun = uart.overrun) :
    (serialPort.responses uart.init calls).flatMap Answer.handed =
      uart.arriving.flatten.take (calls.countP Call.asks) := by
  obtain ⟨receiver, -⟩ := uart.init_received
  have overrun : uart.init.overrun = uart.overrun :=
    congrArg Lossy.lost receiver
  rw [handed_eq_take uart.init_ready sips (kept.trans overrun.symm),
    uart.init_pending]

/-- Bytes asked for one at a time, one of which never comes. -/
theorem input_independent_of_timing_reset :
    (serialPort.responses Uart.reset.init
          [.getc, .dataReady, .read 1, .putc 0x0A, .getc, .getc]).flatMap
        Answer.handed =
      Uart.reset.arriving.flatten.take
        ([Call.getc, .dataReady, .read 1, .putc 0x0A, .getc,
          .getc].countP Call.asks) :=
  input_independent_of_timing Uart.reset _ (by simp [Call.Sips])
    (by decide +kernel)

end RubyOnBareMetal.Serial
