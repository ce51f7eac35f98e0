import RubyOnBareMetal.Foundation.Machine

namespace RubyOnBareMetal.TerminalAdapter

open Foundation

/-!
# The keyboard of `patches/mui_terminal_adapter_ruby_on_bare_metal.rb`

The readers of the editor's terminal adapter, over the bytes that standard
input still delivers.  A read at the end of the input raises `EOFError`,
which `read_byte` turns into `nil`.  A string is the list of its bytes.
-/

/-- The state the readers share: standard input and `@pending_byte`. -/
structure Adapter where
  input : List UInt8
  pendingByte : Option UInt8
  deriving Repr, DecidableEq

/-- What `getch` returns for a key: an `Integer` or a `String`. -/
inductive Value where
  | integer (code : Nat)
  | string (bytes : List UInt8)
  deriving Repr, DecidableEq

/-- The bytes of an ASCII string. -/
def ascii (chars : List Char) : List UInt8 :=
  chars.map fun c => UInt8.ofNat c.toNat

/-- `read_byte`. -/
def readByte (adapter : Adapter) : Option UInt8 × Adapter :=
  match adapter.input with
  | [] => (none, adapter)
  | byte :: rest => (some byte, { adapter with input := rest })

/-- The `when` clauses of `read_csi_sequence`, in order. -/
def csiKeys : List (List UInt8 × Nat) := [
  (ascii ['A'], 259),
  (ascii ['B'], 258),
  (ascii ['C'], 261),
  (ascii ['D'], 260),
  (ascii ['H'], 262),
  (ascii ['F'], 360),
  (ascii ['Z'], 353),
  (ascii ['1', '~'], 262),
  (ascii ['2', '~'], 331),
  (ascii ['3', '~'], 330),
  (ascii ['4', '~'], 360),
  (ascii ['5', '~'], 339),
  (ascii ['6', '~'], 338),
  (ascii ['1', ';', '5', 'C'], 561),
  (ascii ['1', ';', '5', 'D'], 546),
  (ascii ['1', ';', '2', 'C'], 402),
  (ascii ['1', ';', '2', 'D'], 393)
]

/-- The `when` clauses of `read_ss3_sequence`, in order. -/
def ss3Keys : List (UInt8 × Nat) := [
  (0x41, 259),
  (0x42, 258),
  (0x43, 261),
  (0x44, 260),
  (0x48, 262),
  (0x46, 360)
]

/-- The bytes that end a control sequence. -/
def isFinal (b : UInt8) : Bool :=
  0x40 ≤ b ∧ b ≤ 0x7E

/--
The loop of `read_csi_sequence`, up to a final byte or the end of the input:
`params` and the input that is left.
-/
def readParams : List UInt8 → List UInt8 × List UInt8
  | [] => ([], [])
  | b :: rest =>
      if isFinal b then
        ([b], rest)
      else
        (b :: (readParams rest).1, (readParams rest).2)

/-- `read_csi_sequence`; an unknown sequence is returned as ESC. -/
def readCsiSequence (adapter : Adapter) : Value × Adapter :=
  let (params, rest) := readParams adapter.input
  (.integer ((csiKeys.lookup params).getD 0x1B),
    { adapter with input := rest })

/-- `read_ss3_sequence`. -/
def readSs3Sequence (adapter : Adapter) : Value × Adapter :=
  match readByte adapter with
  | (none, adapter) => (.integer 0x1B, adapter)
  | (some b, adapter) =>
      (.integer ((ss3Keys.lookup b).getD 0x1B), adapter)

/-- The loop of `read_utf8_char` over the continuation bytes. -/
def readContinuation :
    Nat → Adapter → List UInt8 → List UInt8 × Adapter
  | 0, adapter, bytes => (bytes, adapter)
  | times + 1, adapter, bytes =>
      match readByte adapter with
      | (none, adapter) => (bytes, adapter)
      | (some b, adapter) =>
          if b &&& 0xC0 = 0x80 then
            readContinuation times adapter (bytes ++ [b])
          else
            (bytes, adapter)

/-- The length that the first byte of a character announces. -/
def expectedLength? (firstByte : UInt8) : Option Nat :=
  if firstByte &&& 0xE0 = 0xC0 then
    some 2
  else if firstByte &&& 0xF0 = 0xE0 then
    some 3
  else if firstByte &&& 0xF8 = 0xF0 then
    some 4
  else
    none

/-- `read_utf8_char`. -/
def readUtf8Char (adapter : Adapter) (firstByte : UInt8) :
    Value × Adapter :=
  match expectedLength? firstByte with
  | none => (.integer firstByte.toNat, adapter)
  | some expected =>
      let (bytes, adapter) :=
        readContinuation (expected - 1) adapter [firstByte]
      (.string bytes, adapter)

/-- `handle_input_byte`. -/
def handleInputByte (adapter : Adapter) (byte : UInt8) :
    Value × Adapter :=
  if byte = 0x1B then
    match readByte adapter with
    | (none, adapter) => (.integer byte.toNat, adapter)
    | (some b2, adapter) =>
        if b2 = 0x5B then
          readCsiSequence adapter
        else if b2 = 0x4F then
          readSs3Sequence adapter
        else
          (.integer byte.toNat, { adapter with pendingByte := some b2 })
  else
    -- a pending byte is only cleared here
    let adapter := { adapter with pendingByte := none }
    if 0x80 ≤ byte then
      readUtf8Char adapter byte
    else if 0x20 ≤ byte ∧ byte ≤ 0x7E then
      (.string [byte], adapter)
    else
      (.integer byte.toNat, adapter)

/-- `getch`, and `getch_nonblock`, which calls it. -/
def getch (adapter : Adapter) : Option Value × Adapter :=
  match readByte adapter with
  | (none, adapter) => (none, adapter)
  | (some byte, adapter) =>
      let (value, adapter) := handleInputByte adapter byte
      (some value, adapter)

/-- The keyboard: every request is a call of `getch`. -/
def keyboard : Machine Adapter Unit (Option Value) where
  step adapter _ := getch adapter
  admits _ _ := True

/-- At the end of the input there are no more keys. -/
theorem getch_ends
    {adapter : Adapter}
    (exhausted : adapter.input = []) :
    (keyboard.step adapter ()).1 = none ∧
      (keyboard.step adapter ()).2.input = [] := by
  simp [keyboard, getch, readByte, exhausted]

end RubyOnBareMetal.TerminalAdapter
