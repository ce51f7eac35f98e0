import RubyOnBareMetal.EmbeddedFiles
import RubyOnBareMetal.Foundation.LineEndings
import RubyOnBareMetal.Foundation.Machine
import RubyOnBareMetal.Foundation.Overrun

namespace RubyOnBareMetal.Serial

open Foundation

/-!
# The serial port

`kernel/serial.c` over the registers of the port at `COM1`.  The lowest two
registers are the divisor while the latch bit of the line control register is
set, so what `serial_putc` sends reaches the line only if it is clear.  The
port has a buffer of 16 bytes for each direction.  Bytes arrive at any time:
what has arrived since is noticed when the status or the data register is
read.  The line takes bytes at any time: what it has taken since is noticed
when the next byte is written, which `serial_putc` does without a look at the
status.  In either direction a byte that finds the buffer full is lost.
-/

/-- `COM1`. -/
def com1 : UInt16 := 0x3F8

/--
The registers and, for each direction, the bytes in the buffer, what happens
at the other end before each later look at it, and the bytes lost.
-/
structure Uart where
  ier : UInt8
  lcr : UInt8
  fcr : UInt8
  mcr : UInt8
  dll : UInt8
  dlm : UInt8
  /-- The receive buffer. -/
  received : List UInt8
  /-- The bytes that arrive before each later reading. -/
  arriving : List (List UInt8)
  /-- The bytes that have found the receive buffer full. -/
  overrun : List UInt8
  /-- The transmit buffer. -/
  unsent : List UInt8
  /-- How many bytes the line takes before each later write of data. -/
  taking : List Nat
  /-- The bytes that the line has taken. -/
  sent : List UInt8
  /-- The bytes that have found the transmit buffer full. -/
  lost : List UInt8
  deriving Repr, DecidableEq

namespace Uart

/-- The latch bit. -/
def Latched (uart : Uart) : Prop :=
  uart.lcr &&& 0x80 ≠ 0
  deriving Decidable

/-- How many bytes a buffer holds: one, until the buffers are switched on. -/
def capacity (uart : Uart) : Nat :=
  if uart.fcr &&& 1 ≠ 0 then 16 else 1

/-- What the line has taken is no longer in the transmit buffer. -/
def drain (uart : Uart) : Uart :=
  match uart.taking with
  | [] => uart
  | count :: later =>
      { uart with
        unsent := uart.unsent.drop count
        taking := later
        sent := uart.sent ++ uart.unsent.take count }

/-- A byte is written to the transmit buffer. -/
def transmit (uart : Uart) (value : UInt8) : Uart :=
  let uart := uart.drain
  let room := uart.capacity - uart.unsent.length
  { uart with
    unsent := uart.unsent ++ [value].take room
    lost := uart.lost ++ [value].drop room }

/-- `outb` on a register of the port. -/
def outb (uart : Uart) (port : UInt16) (value : UInt8) : Uart :=
  if port = com1 then
    if uart.Latched then
      { uart with dll := value }
    else
      uart.transmit value
  else if port = com1 + 1 then
    if uart.Latched then
      { uart with dlm := value }
    else
      { uart with ier := value }
  else if port = com1 + 2 then
    -- bit 0 switches the buffers on, bits 1 and 2 clear them
    { uart with
      fcr := value
      received := if value &&& 2 ≠ 0 then [] else uart.received
      unsent := if value &&& 4 ≠ 0 then [] else uart.unsent }
  else if port = com1 + 3 then
    { uart with lcr := value }
  else if port = com1 + 4 then
    { uart with mcr := value }
  else
    uart

/-- What has arrived is in the receive buffer, as far as there was room. -/
def arrive (uart : Uart) : Uart :=
  match uart.arriving with
  | [] => uart
  | batch :: later =>
      let room := uart.capacity - uart.received.length
      { uart with
        received := uart.received ++ batch.take room
        arriving := later
        overrun := uart.overrun ++ batch.drop room }

/-- `inb` on the data register. -/
def readData (uart : Uart) : UInt8 × Uart :=
  let uart := uart.arrive
  if uart.Latched then
    (uart.dll, uart)
  else
    match uart.received with
    | [] => (0, uart)
    | byte :: rest => (byte, { uart with received := rest })

/-- `inb` on the line status register, of which bit 0 is used. -/
def readStatus (uart : Uart) : UInt8 × Uart :=
  let uart := uart.arrive
  (if uart.received = [] then 0 else 1, uart)

/-- `serial_init`. -/
def init (uart : Uart) : Uart :=
  ((((((uart.outb (com1 + 1) 0x00).outb (com1 + 3) 0x80).outb
    com1 0x03).outb (com1 + 1) 0x00).outb (com1 + 3) 0x03).outb
      (com1 + 2) 0xC7).outb (com1 + 4) 0x0B

/-- `serial_putc`. -/
def putc (uart : Uart) (c : UInt8) : Uart :=
  let uart := if c = 0x0A then uart.outb com1 0x0D else uart
  uart.outb com1 c

/-- `serial_puts`, up to the terminating zero. -/
def puts (uart : Uart) (s : CString) : Uart :=
  (s.takeWhile (· ≠ 0)).foldl putc uart

/-- `serial_write`. -/
def write (uart : Uart) (buf : List UInt8) : Uart :=
  buf.foldl putc uart

/-- `serial_data_ready`. -/
def dataReady (uart : Uart) : Bool × Uart :=
  let (status, uart) := uart.readStatus
  (status &&& 1 ≠ 0, uart)

/--
The loop of `serial_getc` over the next readings of the status.  It waits for
ever if nothing arrives before any of them.
-/
def waitReady : Nat → Uart → Option Uart
  | 0, _ => none
  | polls + 1, uart =>
      let (ready, uart) := uart.dataReady
      if ready then some uart else waitReady polls uart

/-- `serial_getc`. -/
def getc (uart : Uart) : Option (UInt8 × Uart) :=
  (waitReady (uart.arriving.length + 1) uart).map readData

/-- The loop of `serial_read`, which has room for more bytes. -/
def readMore : Nat → Uart → List UInt8 × Uart
  | 0, uart => ([], uart)
  | room + 1, uart =>
      let (ready, uart) := uart.dataReady
      if ready then
        let (byte, uart) := uart.readData
        let (bytes, uart) := readMore room uart
        (byte :: bytes, uart)
      else
        ([], uart)

/-- `serial_read`, with the bytes it stores. -/
def read (uart : Uart) : Nat → Option (List UInt8 × Uart)
  | 0 => some ([], uart)
  | room + 1 =>
      uart.getc.map fun (byte, uart) =>
        let (bytes, uart) := readMore room uart
        (byte :: bytes, uart)

/-! ## The registers -/

/-- The port as `serial_init` leaves it: 38400 baud, 8N1, buffers on. -/
structure Ready (uart : Uart) : Prop where
  divisor : uart.dll = 3 ∧ uart.dlm = 0
  line : uart.lcr = 3
  buffers : uart.capacity = 16

/-- The latch bit is clear then. -/
theorem Ready.not_latched
    {uart : Uart}
    (ready : uart.Ready) :
    ¬uart.Latched := by
  rw [Latched, ready.line]
  decide

/-- The registers decide whether the port is ready. -/
theorem Ready.congr
    {first second : Uart}
    (ready : first.Ready)
    (sameDll : second.dll = first.dll)
    (sameDlm : second.dlm = first.dlm)
    (sameLcr : second.lcr = first.lcr)
    (sameFcr : second.fcr = first.fcr) :
    second.Ready where
  divisor := by
    rw [sameDll, sameDlm]
    exact ready.divisor
  line := sameLcr.trans ready.line
  buffers := by
    rw [capacity, sameFcr]
    exact ready.buffers

/-- A buffer holds at least one byte. -/
theorem capacity_pos (uart : Uart) : 0 < uart.capacity := by
  unfold capacity
  split <;> decide

/-! ## Sending -/

/-- What is on the line or on its way there. -/
def outgoing (uart : Uart) : List UInt8 :=
  uart.sent ++ uart.unsent

/-- The way out of the port. -/
def transmitter (uart : Uart) : Lossy UInt8 :=
  ⟨uart.outgoing, uart.lost⟩

/-- The way into the port. -/
def receiver (uart : Uart) : Lossy UInt8 :=
  ⟨uart.received, uart.overrun⟩

/-- What a function that sends does to a port: nothing is received. -/
structure Sends
    (before : Uart)
    (offered : List UInt8)
    (after : Uart) : Prop where
  ready : before.Ready → after.Ready
  flows : Flows before.transmitter offered [] after.transmitter
  receiver : after.receiver = before.receiver
  arriving : after.arriving = before.arriving

namespace Sends

variable {first second third : Uart}

theorem nothing (uart : Uart) : Sends uart [] uart where
  ready := id
  flows := .nothing _
  receiver := rfl
  arriving := rfl

theorem append
    {bytes moreBytes : List UInt8}
    (earlier : Sends first bytes second)
    (later : Sends second moreBytes third) :
    Sends first (bytes ++ moreBytes) third where
  ready := later.ready ∘ earlier.ready
  flows := earlier.flows.append later.flows
  receiver := later.receiver.trans earlier.receiver
  arriving := later.arriving.trans earlier.arriving

end Sends

/-- The line takes bytes in order. -/
theorem drain_sends (uart : Uart) : Sends uart [] uart.drain := by
  unfold drain
  split
  · exact .nothing uart
  · exact {
      ready := fun ready => ready.congr rfl rfl rfl rfl
      flows := ⟨[], [], .nil, by simp [transmitter, outgoing],
        (List.append_nil _).symm⟩
      receiver := rfl
      arriving := rfl
    }

/-- A byte that is written is kept or lost. -/
theorem transmit_sends (uart : Uart) (value : UInt8) :
    Sends uart [value] (uart.transmit value) := by
  refine uart.drain_sends.append ?_
  exact {
    ready := fun ready => ready.congr rfl rfl rfl rfl
    flows :=
      ⟨_, _, .fill (uart.drain.capacity - uart.drain.unsent.length) [value],
        List.append_assoc _ _ _, rfl⟩
    receiver := rfl
    arriving := rfl
  }

/-- So is a byte written to the data register of a port that is ready. -/
theorem outb_data
    {uart : Uart}
    (ready : uart.Ready)
    (value : UInt8) :
    uart.outb com1 value = uart.transmit value := by
  rw [outb, if_pos rfl, if_neg ready.not_latched]

/-- A character is sent with its line ending. -/
theorem putc_sends
    {uart : Uart}
    (ready : uart.Ready)
    (c : UInt8) :
    Sends uart (endLines 0x0D 0x0A [c]) (uart.putc c) := by
  have first := uart.transmit_sends 0x0D
  unfold putc
  dsimp only
  by_cases feed : c = 0x0A
  · have ends : endLines 0x0D 0x0A [c] = [0x0D] ++ [c] := by
      simp [endLines, feed]
    rw [if_pos feed, outb_data ready, outb_data (first.ready ready), ends]
    exact first.append (transmit_sends _ c)
  · have same : endLines 0x0D 0x0A [c] = [c] := by
      simp [endLines, feed]
    rw [if_neg feed, outb_data ready, same]
    exact uart.transmit_sends c

/-- Text is sent with its line endings. -/
theorem foldl_putc
    {uart : Uart}
    (ready : uart.Ready)
    (text : List UInt8) :
    Sends uart (endLines 0x0D 0x0A text) (text.foldl putc uart) := by
  induction text generalizing uart with
  | nil =>
      rw [endLines_nil]
      exact .nothing uart
  | cons c rest inductionHypothesis =>
      have first := putc_sends ready c
      rw [List.foldl_cons, ← List.singleton_append, endLines_append]
      exact first.append (inductionHypothesis (first.ready ready))

end Uart

/-! ## The port as a machine -/

/-- A call of a function of `kernel/serial.c`. -/
inductive Call where
  | init
  | putc (c : UInt8)
  | puts (s : CString)
  | write (buf : List UInt8)
  | dataReady
  | getc
  | read (len : Nat)
  deriving Repr, DecidableEq

/-- What a call returned; nothing if it waits for ever. -/
inductive Answer where
  | done
  | waiting
  | ready (isReady : Bool)
  | char (c : UInt8)
  | bytes (stored : List UInt8)
  deriving Repr, DecidableEq

/-- One call; one that waits for ever leaves the port as it was. -/
def step (uart : Uart) : Call → Answer × Uart
  | .init => (.done, uart.init)
  | .putc c => (.done, uart.putc c)
  | .puts s => (.done, uart.puts s)
  | .write buf => (.done, uart.write buf)
  | .dataReady =>
      let (isReady, uart) := uart.dataReady
      (.ready isReady, uart)
  | .getc =>
      match uart.getc with
      | none => (.waiting, uart)
      | some (c, uart) => (.char c, uart)
  | .read len =>
      match uart.read len with
      | none => (.waiting, uart)
      | some (bytes, uart) => (.bytes bytes, uart)

namespace Call

/-- The bytes a call prints. -/
def printed : Call → List UInt8
  | putc c => [c]
  | puts s => s.takeWhile (· ≠ 0)
  | write buf => buf
  | _ => []

end Call

namespace Answer

/-- The bytes a call hands to its caller. -/
def handed : Answer → List UInt8
  | char c => [c]
  | bytes stored => stored
  | _ => []

end Answer

/-- The port after its initialisation, which the kernel makes first. -/
def serialPort : Machine Uart Call Answer where
  step := step
  admits _ call := call ≠ .init

end RubyOnBareMetal.Serial
