import RubyOnBareMetal.EmbeddedFiles
import RubyOnBareMetal.Foundation.Stream

namespace RubyOnBareMetal.UefiConsole

open Foundation

/-!
# The escape sequence parser of `kernel/uefi_console.c`

The output half of the UEFI console, a byte at a time.  Each step returns the
firmware calls it makes and the indices at which `ansi_push_param` and
`ansi_exec` access `csi_params`.  An `int` wraps at 32 bits.  The array is a
function of the index, so that what lies beside its eight elements can be
read and written too; a pointer that may be null is an option.
-/

/-- `EFI_SIMPLE_TEXT_OUTPUT_PROTOCOL`: of its mode only the attribute. -/
structure TextOutput where
  modeAttribute : Option Int32
  deriving Repr, DecidableEq

/-- `EFI_SYSTEM_TABLE`, as far as the console output uses it. -/
structure SystemTable where
  conOut : Option TextOutput
  deriving Repr, DecidableEq

/-- A call of a function of the output protocol. -/
inductive FirmwareCall where
  | outputString (buf : List UInt16)
  | setCursorPosition (column row : UInt64)
  | setAttribute (attr : UInt64)
  | clearScreen
  deriving Repr, DecidableEq

/-- `ST_NORMAL`, `ST_ESC` and `ST_CSI`. -/
inductive AnsiState where
  | normal
  | esc
  | csi
  deriving Repr, DecidableEq

/-- The static variables of the console output. -/
structure Console where
  uefiSystemTable : Option SystemTable
  ansiState : AnsiState
  csiParams : Int32 → Int32
  csiN : Int32
  csiCur : Int32
  csiSeenDigit : Bool

/-- The variables at boot; `beside` is what lies beside the array. -/
def Console.boot
    (uefiSystemTable : Option SystemTable)
    (beside : Int32 → Int32) : Console where
  uefiSystemTable := uefiSystemTable
  ansiState := .normal
  csiParams index := if 0 ≤ index ∧ index < 8 then 0 else beside index
  csiN := 0
  csiCur := 0
  csiSeenDigit := false

/-- What a function did: firmware calls and accesses to `csi_params`. -/
structure Outcome where
  calls : List FirmwareCall := []
  indices : List Int32 := []
  console : Console

/-- `st()->ConOut`, unless `st()` or the protocol is null. -/
def Console.conOut? (console : Console) : Option TextOutput :=
  console.uefiSystemTable.bind SystemTable.conOut

/-- The length of `csi_params`. -/
abbrev maxParams : Int32 := 8

/-- `ansi_reset`. -/
def ansiReset (console : Console) : Console where
  uefiSystemTable := console.uefiSystemTable
  ansiState := .normal
  csiN := 0
  csiCur := 0
  csiSeenDigit := false
  csiParams index :=
    if 0 ≤ index ∧ index < maxParams then
      0
    else
      console.csiParams index

/-- `ansi_push_param`. -/
def ansiPushParam (console : Console) : Outcome :=
  let value := if console.csiSeenDigit then console.csiCur else -1
  let pushed :=
    { console with
      csiN := console.csiN + 1
      csiCur := 0
      csiSeenDigit := false }
  if console.csiN < maxParams then
    {
      indices := [console.csiN]
      console :=
        { pushed with
          csiParams :=
            Function.update console.csiParams console.csiN value }
    }
  else
    { console := pushed }

/--
`(csi_n > index && csi_params[index] > 0) ? csi_params[index] : 1`, with the
accesses it makes.
-/
def positionParam (console : Console) (index : Int32) :
    List Int32 × Int32 :=
  if index < console.csiN then
    if 0 < console.csiParams index then
      ([index, index], console.csiParams index)
    else
      ([index], 1)
  else
    ([], 1)

/-- `(csi_n >= 1 && csi_params[0] >= 0) ? csi_params[0] : 0`. -/
def eraseParam (console : Console) : List Int32 × Int32 :=
  if 1 ≤ console.csiN then
    if 0 ≤ console.csiParams 0 then
      ([0, 0], console.csiParams 0)
    else
      ([0], 0)
  else
    ([], 0)

/-- `csi_params[i] < 0 ? 0 : csi_params[i]`. -/
def sgrParam (console : Console) (i : Int32) : List Int32 × Int32 :=
  if console.csiParams i < 0 then
    ([i], 0)
  else
    ([i, i], console.csiParams i)

/-- A conversion of an `int` to `UINTN`. -/
def uintn (value : Int32) : UInt64 :=
  value.toInt64.toUInt64

/-- The body of the loop over the parameters of an SGR sequence. -/
def sgrAttribute (attr : UInt64) (p : Int32) : UInt64 :=
  if p = 0 then
    0x07
  else if 30 ≤ p ∧ p ≤ 37 then
    (attr &&& 0xF0) ||| uintn (p - 30)
  else if 90 ≤ p ∧ p ≤ 97 then
    (attr &&& 0xF0) ||| uintn (p - 90 + 8)
  else if 40 ≤ p ∧ p ≤ 47 then
    (attr &&& 0x0F) ||| (uintn (p - 40) <<< (4 : UInt64))
  else if 100 ≤ p ∧ p ≤ 107 then
    (attr &&& 0x0F) ||| (uintn (p - 100 + 8) <<< (4 : UInt64))
  else
    attr

/-- The indices that `for (int i = 0; i < csi_n; i++)` runs through. -/
def loopIndices (console : Console) : List Int32 :=
  (List.range console.csiN.toInt.toNat).map Int32.ofNat

/-- `out->Mode ? (UINTN)out->Mode->Attribute : 0x07`. -/
def TextOutput.currentAttribute (out : TextOutput) : UInt64 :=
  match out.modeAttribute with
  | some attr => uintn attr
  | none => 0x07

/-- The firmware's `SetAttribute` stores the attribute in `Mode`. -/
def TextOutput.storeAttribute (out : TextOutput) (attr : UInt64) :
    TextOutput where
  modeAttribute :=
    out.modeAttribute.map fun _ => attr.toUInt32.toInt32

/-- The final bytes of the sequences that are executed: `H`, `f`, `J`, `m`. -/
abbrev finalCup : UInt8 := 0x48
abbrev finalHvp : UInt8 := 0x66
abbrev finalEd : UInt8 := 0x4A
abbrev finalSgr : UInt8 := 0x6D

/-- `ansi_exec`. -/
def ansiExec (console : Console) (final : UInt8) : Outcome :=
  let pushed := ansiPushParam console
  let console := pushed.console
  match console.conOut? with
  | none => pushed
  | some out =>
      if final = finalCup ∨ final = finalHvp then
        let row := positionParam console 0
        let col := positionParam console 1
        {
          calls :=
            [.setCursorPosition (uintn (col.2 - 1)) (uintn (row.2 - 1))]
          indices := pushed.indices ++ row.1 ++ col.1
          console := console
        }
      else if final = finalEd then
        let n := eraseParam console
        {
          calls := if n.2 = 2 then [.clearScreen] else []
          indices := pushed.indices ++ n.1
          console := console
        }
      else if final = finalSgr then
        let attr :=
          (loopIndices console).foldl
            (fun attr i => sgrAttribute attr (sgrParam console i).2)
            out.currentAttribute
        {
          calls := [.setAttribute attr]
          indices :=
            pushed.indices ++
              (loopIndices console).flatMap
                fun i => (sgrParam console i).1
          console :=
            { console with
              uefiSystemTable :=
                some { conOut := some (out.storeAttribute attr) } }
        }
      else
        pushed

/-- `raw_putc`. -/
def rawPutc (console : Console) (c : UInt8) : List FirmwareCall :=
  match console.conOut? with
  | none => []
  | some _ =>
      if c = 0x0A then
        [.outputString [0x0D, 0x0A, 0]]
      else
        [.outputString [c.toUInt16, 0]]

/-- The bytes `?`, `>`, `=` and space, which are skipped. -/
def isSkipped (c : UInt8) : Bool :=
  c = 0x3F ∨ c = 0x3E ∨ c = 0x3D ∨ c = 0x20

/-- The digits. -/
def isDigit (c : UInt8) : Bool :=
  0x30 ≤ c ∧ c ≤ 0x39

/-- The bytes that end a control sequence. -/
def isFinal (c : UInt8) : Bool :=
  0x40 ≤ c ∧ c ≤ 0x7E

/-- The escape byte, `[` and `;`. -/
abbrev escapeByte : UInt8 := 0x1B
abbrev bracket : UInt8 := 0x5B
abbrev semicolon : UInt8 := 0x3B

/-- `parse_byte`. -/
def parseByte (console : Console) (c : UInt8) : Outcome :=
  match console.ansiState with
  | .normal =>
      if c = escapeByte then
        { console := { console with ansiState := .esc } }
      else
        { calls := rawPutc console c, console := console }
  | .esc =>
      if c = bracket then
        { console := { ansiReset console with ansiState := .csi } }
      else
        { console := { console with ansiState := .normal } }
  | .csi =>
      if isDigit c then
        {
          console :=
            { console with
              csiCur :=
                console.csiCur * 10 + (Int32.ofNat c.toNat - 0x30)
              csiSeenDigit := true }
        }
      else if c = semicolon then
        ansiPushParam console
      else if isSkipped c then
        { console := console }
      else if isFinal c then
        let executed := ansiExec console c
        { executed with
          console := { executed.console with ansiState := .normal } }
      else
        { console := { console with ansiState := .normal } }

/-! ## The console as a machine -/

/-- The firmware calls of the parser, byte by byte. -/
def parser : Machine Console UInt8 (List FirmwareCall) where
  step console c :=
    ((parseByte console c).calls, (parseByte console c).console)
  admits _ _ := True

/-- One call of the output functions that programs print with. -/
inductive Call where
  | putc (c : UInt8)
  | puts (s : CString)
  | write (buf : List UInt8)
  deriving Repr, DecidableEq

/-- The bytes a call passes to `parse_byte`. -/
def Call.bytes : Call → List UInt8
  | .putc c => [c]
  | .puts s => s.takeWhile (· ≠ 0)
  | .write buf => buf

/-- `uefi_console_putc`, `uefi_console_puts` and `uefi_console_write`. -/
def outputFunctions : Machine Console Call (List FirmwareCall) :=
  parser.fed Call.bytes

end RubyOnBareMetal.UefiConsole
