import RubyOnBareMetal.Serial.Port

namespace RubyOnBareMetal.Serial

open Foundation

/-!
# What the serial port receives

The bytes that arrive after the initialisation are handed out once and in
order, whenever they arrive, and all of them unless the receive buffer
overruns.  A call waits for ever only if nothing arrives any more, and who
asks for one byte at a time gets the same bytes whatever the timing.
-/

namespace Uart

/-- What can still be received. -/
def pending (uart : Uart) : List UInt8 :=
  uart.received ++ uart.arriving.flatten

/-- Some bytes arrive, and some are handed out. -/
def Receives
    (before : Uart)
    (bytes : List UInt8)
    (after : Uart) : Prop :=
  ∃ arrived,
    before.arriving.flatten = arrived ++ after.arriving.flatten ∧
      Flows before.receiver arrived bytes after.receiver

namespace Receives

variable {first second third : Uart}

theorem nothing
    (sameReceiver : second.receiver = first.receiver)
    (sameArriving : second.arriving = first.arriving) :
    Receives first [] second := by
  refine ⟨[], by rw [sameArriving, List.nil_append], ?_⟩
  rw [sameReceiver]
  exact .nothing _

theorem append
    {bytes moreBytes : List UInt8}
    (earlier : Receives first bytes second)
    (later : Receives second moreBytes third) :
    Receives first (bytes ++ moreBytes) third := by
  obtain ⟨arrived, split, flows⟩ := earlier
  obtain ⟨arrivedLater, splitLater, flowsLater⟩ := later
  refine ⟨_, ?_, flows.append flowsLater⟩
  rw [split, splitLater, List.append_assoc]

/-- Without an overrun, and only then, everything is handed out in the end. -/
theorem lossless_iff
    {bytes : List UInt8}
    (receives : Receives first bytes second) :
    second.overrun = first.overrun ↔
      first.pending = bytes ++ second.pending := by
  obtain ⟨arrived, split, flows⟩ := receives
  rw [pending, split, pending, ← List.append_assoc, ← List.append_assoc,
    List.append_left_inj]
  exact flows.lossless_iff

/-- What overruns is added to what has. -/
theorem overrun_prefix
    {bytes : List UInt8}
    (receives : Receives first bytes second) :
    first.overrun <+: second.overrun := by
  obtain ⟨arrived, -, kept, lost, -, -, all⟩ := receives
  exact ⟨lost, all.symm⟩

end Receives

/-- What a function that receives does to a port that is ready. -/
structure Hands
    (before : Uart)
    (bytes : List UInt8)
    (after : Uart) : Prop where
  ready : before.Ready → after.Ready
  receives : before.Ready → Receives before bytes after
  transmitter : after.transmitter = before.transmitter

namespace Hands

variable {first second third : Uart}

theorem nothing (uart : Uart) : Hands uart [] uart where
  ready := id
  receives _ := .nothing rfl rfl
  transmitter := rfl

theorem append
    {bytes moreBytes : List UInt8}
    (earlier : Hands first bytes second)
    (later : Hands second moreBytes third) :
    Hands first (bytes ++ moreBytes) third where
  ready := later.ready ∘ earlier.ready
  receives ready :=
    (earlier.receives ready).append (later.receives (earlier.ready ready))
  transmitter := later.transmitter.trans earlier.transmitter

end Hands

/-- What arrives is kept as far as there is room. -/
theorem arrive_hands (uart : Uart) : Hands uart [] uart.arrive := by
  unfold arrive
  split
  · exact .nothing uart
  · next batch later shape =>
      exact {
        ready := fun ready => ready.congr rfl rfl rfl rfl
        receives := fun _ =>
          ⟨batch, by rw [shape, List.flatten_cons], _, _,
            .fill (uart.capacity - uart.received.length) batch, rfl, rfl⟩
        transmitter := rfl
      }

/-- If there is still nothing to read, nothing has arrived. -/
theorem arrive_pending_of_nothing
    {uart : Uart}
    (nothing : uart.arrive.received = []) :
    uart.arrive.pending = uart.pending := by
  unfold arrive at nothing ⊢
  split at nothing
  · rfl
  · next batch later shape =>
      obtain ⟨empty, noneKept⟩ := List.append_eq_nil_iff.mp nothing
      have noBatch : batch = [] := by
        rw [empty, List.length_nil, Nat.sub_zero] at noneKept
        exact (List.take_eq_nil_iff.mp noneKept).resolve_left
          (Nat.ne_of_gt uart.capacity_pos)
      simp [pending, shape, noBatch]

/-- Asking for data looks whether some has arrived. -/
theorem dataReady_eq (uart : Uart) :
    uart.dataReady =
      (decide (uart.arrive.received ≠ []), uart.arrive) := by
  unfold dataReady readStatus
  dsimp only
  by_cases nothing : uart.arrive.received = []
  · simp [nothing]
  · simp [nothing]

/-- What has been received stays until it is read. -/
theorem arrive_received_ne_nil
    {uart : Uart}
    (received : uart.received ≠ []) :
    uart.arrive.received ≠ [] := by
  unfold arrive
  split
  · exact received
  · exact List.append_ne_nil_of_left_ne_nil received _

/-- The first byte of the receive buffer is taken out of it. -/
theorem take_hands
    {uart : Uart}
    {byte : UInt8}
    {rest : List UInt8}
    (shape : uart.received = byte :: rest) :
    Hands uart [byte] { uart with received := rest } where
  ready ready := ready.congr rfl rfl rfl rfl
  receives _ :=
    ⟨[], rfl, [], [], .nil, (List.append_nil _).trans shape,
      (List.append_nil _).symm⟩
  transmitter := rfl

/-- The data register hands out the first byte received. -/
theorem readData_hands
    {uart : Uart}
    (received : uart.received ≠ []) :
    Hands uart [uart.readData.1] uart.readData.2 := by
  have arrived := uart.arrive_hands
  obtain ⟨byte, rest, shape⟩ :=
    List.exists_cons_of_ne_nil (arrive_received_ne_nil received)
  unfold readData
  dsimp only
  by_cases latched : uart.arrive.Latched
  · rw [if_pos latched]
    exact {
      ready := arrived.ready
      receives := fun ready =>
        absurd latched (arrived.ready ready).not_latched
      transmitter := arrived.transmitter
    }
  · rw [if_neg latched, shape]
    exact arrived.append (take_hands shape)

/-- Where nothing is left to arrive, waiting does not end. -/
theorem waitReady_of_nothing
    (polls : Nat)
    {uart : Uart}
    (nothing : uart.pending = []) :
    waitReady polls uart = none := by
  induction polls generalizing uart with
  | zero =>
      rfl
  | succ polls inductionHypothesis =>
      obtain ⟨notReceived, noneLater⟩ := List.append_eq_nil_iff.mp nothing
      have notArrived : uart.arrive.received = [] := by
        unfold arrive
        split
        · exact notReceived
        · next batch later shape =>
            rw [shape, List.flatten_cons] at noneLater
            simp [notReceived, (List.append_eq_nil_iff.mp noneLater).1]
      have still : uart.arrive.pending = [] :=
        (arrive_pending_of_nothing notArrived).trans nothing
      rw [waitReady, dataReady_eq]
      simp [notArrived, inductionHypothesis still]

/-- Otherwise it ends with a byte received. -/
theorem waitReady_of_something
    (polls : Nat)
    {uart : Uart}
    (something : uart.pending ≠ [])
    (enough : uart.arriving.length < polls) :
    ∃ after,
      waitReady polls uart = some after ∧
        Hands uart [] after ∧ after.received ≠ [] := by
  induction polls generalizing uart with
  | zero =>
      exact absurd enough (Nat.not_lt_zero _)
  | succ polls inductionHypothesis =>
      rw [waitReady, dataReady_eq]
      dsimp only
      by_cases notReceived : uart.arrive.received = []
      · rw [if_neg (by simp [notReceived])]
        have still : uart.arrive.pending ≠ [] := by
          rwa [arrive_pending_of_nothing notReceived]
        have shorter : uart.arrive.arriving.length < polls := by
          cases shape : uart.arriving with
          | nil =>
              simp only [arrive, shape] at notReceived
              simp [pending, shape, notReceived] at something
          | cons batch later =>
              simp only [arrive, shape]
              rw [shape, List.length_cons] at enough
              omega
        obtain ⟨after, ended, handed, received⟩ :=
          inductionHypothesis still shorter
        exact ⟨after, ended, (arrive_hands uart).append handed, received⟩
      · rw [if_pos (decide_eq_true notReceived)]
        exact ⟨_, rfl, arrive_hands uart, notReceived⟩

/-- `serial_getc` waits for ever or hands out a byte. -/
theorem getc_cases (uart : Uart) :
    (uart.getc = none ∧ uart.pending = []) ∨
      ∃ byte after,
        uart.getc = some (byte, after) ∧ Hands uart [byte] after := by
  unfold getc
  by_cases nothing : uart.pending = []
  · rw [waitReady_of_nothing _ nothing]
    exact .inl ⟨rfl, nothing⟩
  · obtain ⟨middle, ended, waited, received⟩ :=
      waitReady_of_something _ nothing (Nat.lt_succ_self _)
    rw [ended]
    exact .inr ⟨_, _, rfl, waited.append (readData_hands received)⟩

/-- The loop of `serial_read` hands out at most what there is room for. -/
theorem readMore_hands
    (room : Nat)
    (uart : Uart) :
    Hands uart (readMore room uart).1 (readMore room uart).2 ∧
      (readMore room uart).1.length ≤ room := by
  induction room generalizing uart with
  | zero =>
      exact ⟨.nothing uart, Nat.le_refl 0⟩
  | succ room inductionHypothesis =>
      rw [readMore, dataReady_eq]
      dsimp only
      by_cases notReceived : uart.arrive.received = []
      · rw [if_neg (by simp [notReceived])]
        exact ⟨arrive_hands uart, Nat.zero_le _⟩
      · rw [if_pos (decide_eq_true notReceived)]
        obtain ⟨later, atMost⟩ :=
          inductionHypothesis uart.arrive.readData.2
        exact ⟨(arrive_hands uart).append
            ((readData_hands notReceived).append later),
          Nat.succ_le_succ atMost⟩

/-- `serial_read` waits for ever or hands out at least one byte. -/
theorem read_cases (room : Nat) (uart : Uart) :
    (uart.read (room + 1) = none ∧ uart.pending = []) ∨
      ∃ bytes after,
        uart.read (room + 1) = some (bytes, after) ∧
          Hands uart bytes after ∧
            bytes ≠ [] ∧ bytes.length ≤ room + 1 := by
  rw [read]
  rcases getc_cases uart with
    ⟨waits, nothing⟩ | ⟨byte, middle, got, handed⟩
  · rw [waits]
    exact .inl ⟨rfl, nothing⟩
  · rw [got]
    obtain ⟨later, atMost⟩ := readMore_hands room middle
    exact .inr ⟨_, _, rfl, handed.append later, List.cons_ne_nil _ _,
      Nat.succ_le_succ atMost⟩

end Uart

/-! ## Calls -/

/-- What a call does to a port that is ready. -/
structure Exchange
    (before : Uart)
    (call : Call)
    (answer : Answer)
    (after : Uart) : Prop where
  ready : after.Ready
  receives : before.Receives answer.handed after
  sends :
    Flows before.transmitter (endLines 0x0D 0x0A call.printed) []
      after.transmitter

/-- A function that receives sends nothing. -/
theorem Uart.Hands.exchange
    {before after : Uart}
    {call : Call}
    {answer : Answer}
    (hands : Hands before answer.handed after)
    (ready : before.Ready)
    (silent : call.printed = []) :
    Exchange before call answer after where
  ready := hands.ready ready
  receives := hands.receives ready
  sends := by
    rw [silent, endLines_nil, hands.transmitter]
    exact .nothing _

/-- A function that sends receives nothing. -/
theorem Uart.Sends.exchange
    {before after : Uart}
    {call : Call}
    (sends : Sends before (endLines 0x0D 0x0A call.printed) after)
    (ready : before.Ready) :
    Exchange before call .done after where
  ready := sends.ready ready
  receives := .nothing sends.receiver sends.arriving
  sends := sends.flows

/-- Every call but the initialisation keeps the port ready. -/
theorem step_exchange
    {uart : Uart}
    {call : Call}
    (ready : uart.Ready)
    (admitted : call ≠ .init) :
    Exchange uart call (step uart call).1 (step uart call).2 := by
  cases call with
  | init =>
      exact absurd rfl admitted
  | putc c =>
      exact Uart.Sends.exchange (uart.putc_sends ready c) ready
  | puts s =>
      exact Uart.Sends.exchange (uart.foldl_putc ready _) ready
  | write buf =>
      exact Uart.Sends.exchange (uart.foldl_putc ready _) ready
  | dataReady =>
      have arrived := uart.arrive_hands
      simp only [step, uart.dataReady_eq]
      exact @Uart.Hands.exchange _ _ _ (.ready _) arrived ready rfl
  | getc =>
      rcases uart.getc_cases with
        ⟨waits, -⟩ | ⟨byte, after, got, hands⟩
      · simp only [step, waits]
        exact (Uart.Hands.nothing uart).exchange ready rfl
      · simp only [step, got]
        exact hands.exchange ready rfl
  | read len =>
      cases len with
      | zero =>
          exact (Uart.Hands.nothing uart).exchange ready rfl
      | succ room =>
          rcases uart.read_cases room with
            ⟨waits, -⟩ | ⟨bytes, after, got, hands, -⟩
          · simp only [step, waits]
            exact (Uart.Hands.nothing uart).exchange ready rfl
          · simp only [step, got]
            exact hands.exchange ready rfl

end RubyOnBareMetal.Serial
