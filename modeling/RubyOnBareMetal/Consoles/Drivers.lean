import RubyOnBareMetal.Foundation.TextScreen
import RubyOnBareMetal.Serial.Runs
import RubyOnBareMetal.TerminalAdapter.ScreenLaw

namespace RubyOnBareMetal.Consoles

open Foundation UefiConsole TerminalAdapter

/-!
# The two drivers behind `kernel/console.h`

The kernel prints through one interface.  The serial driver sends bytes to a
terminal, and the UEFI driver reads them itself and calls the firmware, which
has a text screen.  On strokes that fit both show the same characters: a
character, a carriage return, a line end, `ESC[r;cH`, `ESC[H`, `ESC[2J` with
`ESC[H` behind it, `ESC[...m`, `ESC[?25h` and `ESC[?25l`.  A cell is its
character here, so that attributes and colours are not compared.
-/

variable {height width : Nat}

/-- What the firmware does for a call, colours left out. -/
def perform
    (screen : TextScreen height width) :
    FirmwareCall → TextScreen height width
  | .outputString buf => screen.outputString buf
  | .setCursorPosition column row =>
      screen.setCursorPosition column.toNat row.toNat
  | .setAttribute _ => screen
  | .clearScreen => screen.clearScreen

/-- What it does for calls, one after the other. -/
def shows
    (screen : TextScreen height width)
    (calls : List FirmwareCall) : TextScreen height width :=
  calls.foldl perform screen

/-- The strokes that the parser reads exactly. -/
def Readable : PenStroke → Prop
  | .moveTo row column => row + 1 < 2 ^ 31 ∧ column + 1 < 2 ^ 31
  | .pen codes => codes.length ≤ 8 ∧ ∀ code ∈ codes, code < 2 ^ 31
  | _ => True

/-- The call of the serial driver that has the same name in the kernel. -/
def toSerial : UefiConsole.Call → Serial.Call
  | .putc c => .putc c
  | .puts s => .puts s
  | .write buf => .write buf

end RubyOnBareMetal.Consoles
