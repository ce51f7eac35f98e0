import Mathlib.Algebra.Group.Int.Defs
import RubyOnBareMetal.Foundation.Bytes
import RubyOnBareMetal.UefiConsole.Simulation

namespace RubyOnBareMetal.TerminalAdapter

open Foundation UefiConsole

/-!
# The display of `patches/mui_terminal_adapter_ruby_on_bare_metal.rb`

The drawing methods of the editor's terminal adapter collect text and cursor
movements in a buffer that `refresh` writes out.  The UEFI console reads what
is written, and for each refresh makes the calls that were drawn.
-/

/-! ## The drawing methods -/

/-- `@buf`, `@cur_y` and `@cur_x`. -/
structure Display where
  buf : List UInt8
  curY : Int
  curX : Int
  deriving Repr, DecidableEq

/-- A call of a drawing method. -/
inductive Draw where
  | clear
  | setpos (y x : Int)
  | addstr (str : List UInt8)
  | refresh
  deriving Repr, DecidableEq

/-- The variables after `init`. -/
def Display.init : Display where
  buf := []
  curY := 0
  curX := 0

/-- `"#{ESC}[#{y + 1};#{x + 1}H"`. -/
def position (y x : Int) : List UInt8 :=
  [0x1B, 0x5B] ++ decimalText (y + 1) ++ [0x3B] ++ decimalText (x + 1) ++
    [0x48]

/-- `"#{ESC}[H"`, `"#{ESC}[?25l"` and `"#{ESC}[?25h"`. -/
def home : List UInt8 := [0x1B, 0x5B, 0x48]
def hideCursor : List UInt8 := [0x1B, 0x5B, 0x3F, 0x32, 0x35, 0x6C]
def showCursor : List UInt8 := [0x1B, 0x5B, 0x3F, 0x32, 0x35, 0x68]

/-- `refresh`, with the bytes it writes. -/
def Display.refresh (display : Display) : List UInt8 × Display :=
  if 0 < display.buf.length then
    (hideCursor ++ display.buf ++ position display.curY display.curX ++
        showCursor,
      { display with buf := [] })
  else
    (position display.curY display.curX ++ showCursor, display)

/-- The adapter, whose calls write bytes. -/
def adapter : Machine Display Draw (List UInt8) where
  step display
    | .clear => ([], { display with buf := home })
    | .setpos y x =>
        ([], { buf := display.buf ++ position y x, curY := y, curX := x })
    | .addstr str =>
        ([],
          { display with
            buf := display.buf ++ str
            curX := display.curX + str.length })
    | .refresh => display.refresh
  admits display
    | .clear => True
    | .setpos y x =>
        (0 ≤ y ∧ y < 2 ^ 31 - 1) ∧ (0 ≤ x ∧ x < 2 ^ 31 - 1)
    | .addstr str =>
        (∀ c ∈ str, 0x20 ≤ c ∧ c ≤ 0x7E) ∧
          display.curX + str.length < 2 ^ 31 - 1
    | .refresh => True

/-- The adapter in front of the console: calls make firmware calls. -/
def screen : Machine (Display × Console) Draw (List FirmwareCall) where
  step state call :=
    let (bytes, display) := adapter.step state.1 call
    (parser.output state.2 bytes, display, parser.run state.2 bytes)
  admits state call := adapter.admits state.1 call

/-! ## What is drawn -/

/-- The calls drawn since the last refresh or clear, and the cursor. -/
structure Canvas where
  pending : List FirmwareCall
  curY : Nat
  curX : Nat
  deriving Repr, DecidableEq

/-- The call that moves the cursor. -/
def moveTo (y x : Nat) : FirmwareCall :=
  .setCursorPosition (UInt64.ofNat x) (UInt64.ofNat y)

/-- The call that prints a character. -/
def printed (c : UInt8) : FirmwareCall :=
  .outputString [c.toUInt16, 0]

/-- The reference: drawing calls wait for a refresh, which moves the cursor. -/
def canvas : Machine Canvas Draw (List FirmwareCall) where
  step canvas
    | .clear => ([], { canvas with pending := [moveTo 0 0] })
    | .setpos y x =>
        ([],
          {
            pending := canvas.pending ++ [moveTo y.toNat x.toNat]
            curY := y.toNat
            curX := x.toNat
          })
    | .addstr str =>
        ([],
          { canvas with
            pending := canvas.pending ++ str.map printed
            curX := canvas.curX + str.length })
    | .refresh =>
        (canvas.pending ++ [moveTo canvas.curY canvas.curX],
          { canvas with pending := [] })
  admits _ _ := True

/-- Without an output protocol nothing is called. -/
def shownOn (out? : Option TextOutput) (calls : List FirmwareCall) :
    List FirmwareCall :=
  match out? with
  | none => []
  | some _ => calls

/-! ## Bytes that draw -/

/-- Bytes that the parser turns into calls, from `ST_NORMAL` to `ST_NORMAL`. -/
abbrev Draws (bytes : List UInt8) (calls : List FirmwareCall) : Prop :=
  ∀ console out?,
    Idle console out? →
    parser.output console bytes = shownOn out? calls ∧
      Idle (parser.run console bytes) out?

/-- No bytes draw nothing. -/
theorem draws_nil : Draws [] [] := by
  intro console out? idle
  cases out? <;> exact ⟨rfl, idle⟩

/-- Bytes draw one after the other. -/
theorem draws_append
    {first second : List UInt8}
    {calls others : List FirmwareCall}
    (draws : Draws first calls)
    (drawsOthers : Draws second others) :
    Draws (first ++ second) (calls ++ others) := by
  intro console out? idle
  obtain ⟨output, idleThen⟩ := draws console out? idle
  obtain ⟨outputThen, idleLast⟩ := drawsOthers _ out? idleThen
  rw [parser.output_append, parser.run_append, output, outputThen]
  cases out? with
  | none => exact ⟨rfl, idleLast⟩
  | some out => exact ⟨rfl, idleLast⟩

/-- A token that keeps the attribute draws its calls. -/
theorem draws_token
    (token : Token)
    {calls : List FirmwareCall}
    (same : ∀ out, token.calls out = calls)
    (keeps : ∀ out, calls.foldl TextOutput.after out = out) :
    Draws token.encode calls := by
  intro console out? idle
  obtain ⟨output, idleThen⟩ := token_follows token idle
  cases out? with
  | none => exact ⟨output, idleThen⟩
  | some out =>
      have stepped :
          interpreter.step (some out) token = (calls, some out) := by
        simp only [interpreter, same out, keeps out]
      rw [stepped] at output idleThen
      exact ⟨output, idleThen⟩

/-- Printable text draws its characters. -/
theorem draws_text
    {str : List UInt8}
    (printable : ∀ c ∈ str, 0x20 ≤ c ∧ c ≤ 0x7E) :
    Draws str (str.map printed) := by
  induction str with
  | nil =>
      exact draws_nil
  | cons c str inductionHypothesis =>
      obtain ⟨range, rangeRest⟩ := List.forall_mem_cons.mp printable
      have notEscape : c ≠ escapeByte := by
        rintro rfl
        exact absurd range (by decide)
      have notNewline : c ≠ 0x0A := by
        rintro rfl
        exact absurd range (by decide)
      have character : Draws [c] [printed c] :=
        draws_token (.plain c notEscape) (fun _ => if_neg notNewline)
          (fun _ => rfl)
      exact draws_append character (inductionHypothesis rangeRest)

/-- The sequence that the private modes are set with. -/
def cursorMode (final : UInt8) (isFinal : UefiConsole.isFinal final) :
    ControlSequence where
  body := [0x3F, 0x32, 0x35]
  final := final
  bodyBytes := by decide +kernel
  finalByte := isFinal
  fewParameters := by decide +kernel
  smallParameters := by decide +kernel

/-- Hiding and showing the cursor draws nothing. -/
theorem draws_hideCursor : Draws hideCursor [] :=
  draws_token (.control (cursorMode 0x6C (by decide))) (fun _ => rfl)
    (fun _ => rfl)

theorem draws_showCursor : Draws showCursor [] :=
  draws_token (.control (cursorMode 0x68 (by decide))) (fun _ => rfl)
    (fun _ => rfl)

/-- The sequence that `clear` writes. -/
def homeSequence : ControlSequence where
  body := []
  final := finalCup
  bodyBytes := by decide +kernel
  finalByte := by decide
  fewParameters := by decide +kernel
  smallParameters := by decide +kernel

/-- Missing coordinates draw a move to the first row and column. -/
theorem draws_home : Draws home [moveTo 0 0] :=
  draws_token (.control homeSequence) (fun _ => rfl) (fun _ => rfl)

/-- The text of a number consists of digits. -/
theorem isDigit_decimalDigits
    {number : Nat}
    {c : UInt8}
    (member : c ∈ decimalDigits number) :
    isDigit c = true := by
  rw [isDigit, decide_eq_true_eq]
  exact decimalDigits_digit member

/-- The console reads the number that was written. -/
theorem decimal_decimalDigits (number : Nat) :
    decimal (decimalDigits number) = number :=
  decimalValue_decimalDigits number

/-- Two numbers with a separator are two parameters. -/
theorem pieces_two (first second : Nat) :
    pieces (decimalDigits first ++ semicolon :: decimalDigits second) =
      [decimalDigits first, decimalDigits second] := by
  have kept (number : Nat) :
      (decimalDigits number).filter (fun c => !isSkipped c) =
        decimalDigits number := by
    refine List.filter_eq_self.mpr fun c member => ?_
    have notSkipped := (isDigit_ne (isDigit_decimalDigits member)).2.1
    rw [Bool.not_eq_true] at notSkipped
    rw [notSkipped]
    rfl
  have noSeparator (number : Nat) :
      semicolon ∉ decimalDigits number := by
    intro member
    exact absurd (isDigit_decimalDigits member) (by decide)
  rw [pieces, List.filter_append, List.filter_cons_of_pos (by decide),
    kept, kept, List.splitOn_append_cons_self_of_not_mem (noSeparator first),
    List.splitOn_eq_singleton (noSeparator second)]

/-- The sequence that a position is written as. -/
def positionSequence
    (y x : Nat)
    (smallY : y + 1 < 2 ^ 31)
    (smallX : x + 1 < 2 ^ 31) : ControlSequence where
  body := decimalDigits (y + 1) ++ semicolon :: decimalDigits (x + 1)
  final := finalCup
  bodyBytes := by
    intro c member
    rcases List.mem_append.mp member with inFirst | inSecond
    · exact .inl (isDigit_decimalDigits inFirst)
    · rcases List.mem_cons.mp inSecond with separator | inSecond
      · exact .inr (.inl separator)
      · exact .inl (isDigit_decimalDigits inSecond)
  finalByte := by decide
  fewParameters := by
    rw [pieces_two]
    exact Nat.le_of_ble_eq_true rfl
  smallParameters := by
    rw [pieces_two]
    rw [List.forall_mem_cons, List.forall_mem_singleton,
      decimal_decimalDigits, decimal_decimalDigits]
    exact ⟨smallY, smallX⟩

/-- A position, counted from one, draws a move counted from zero. -/
theorem draws_position
    {y x : Nat}
    (smallY : y + 1 < 2 ^ 31)
    (smallX : x + 1 < 2 ^ 31) :
    Draws (position y x) [moveTo y x] := by
  have number (n : Nat) : number? (decimalDigits n) = some n := by
    rw [number?, if_neg (decimalDigits_ne_nil n)]
    exact congrArg some (decimal_decimalDigits n)
  have same (out : TextOutput) :
      (Token.control (positionSequence y x smallY smallX)).calls out =
        [moveTo y x] := by
    have params :
        parameters (positionSequence y x smallY smallX).body =
          [some (y + 1), some (x + 1)] := by
      change (pieces (_ ++ semicolon :: _)).map number? = _
      rw [pieces_two, List.map_cons, List.map_cons, number, number]
      rfl
    have coordinates (index value : Nat)
        (there :
          parameter [some (y + 1), some (x + 1)] index =
            some (value + 1)) :
        coordinate [some (y + 1), some (x + 1)] index - 1 = value := by
      rw [coordinate, there, Option.getD_some,
        Nat.max_eq_right (Nat.succ_pos value)]
      rfl
    rw [Token.calls, params, controlCalls, if_pos (.inl rfl),
      coordinates 1 x rfl, coordinates 0 y rfl]
    rfl
  have encoded :
      (Token.control (positionSequence y x smallY smallX)).encode =
        position y x := by
    change
      0x1B :: 0x5B ::
          ((decimalDigits (y + 1) ++ 0x3B :: decimalDigits (x + 1)) ++
            [0x48]) =
        [0x1B, 0x5B] ++ decimalDigits (y + 1) ++ [0x3B] ++
            decimalDigits (x + 1) ++
          [0x48]
    simp
  rw [← encoded]
  exact draws_token _ same fun _ => rfl

/-! ## Drawing calls -/

/-- The variables of the adapter that stand for what is drawn. -/
structure Drawn (display : Display) (canvas : Canvas) : Prop where
  pending : Draws display.buf canvas.pending
  curY : display.curY = canvas.curY
  curX : display.curX = canvas.curX
  smallY : canvas.curY + 1 < 2 ^ 31
  smallX : canvas.curX + 1 < 2 ^ 31

/-- A refresh writes the buffer and moves the cursor to its place. -/
theorem draws_refresh
    {display : Display}
    {canvas : Canvas}
    (drawn : Drawn display canvas) :
    Draws display.refresh.1
        (canvas.pending ++ [moveTo canvas.curY canvas.curX]) ∧
      display.refresh.2 = { display with buf := [] } := by
  have cursor :
      Draws (position display.curY display.curX ++ showCursor)
        [moveTo canvas.curY canvas.curX] := by
    rw [drawn.curY, drawn.curX]
    exact draws_append (draws_position drawn.smallY drawn.smallX)
      draws_showCursor
  have buffered := draws_append drawn.pending cursor
  by_cases nonempty : 0 < display.buf.length
  · have hidden := draws_append draws_hideCursor buffered
    rw [Display.refresh, if_pos nonempty, List.append_assoc,
      List.append_assoc]
    exact ⟨hidden, rfl⟩
  · have empty : display.buf = [] :=
      List.eq_nil_of_length_eq_zero (Nat.eq_zero_of_not_pos nonempty)
    rw [Display.refresh, if_neg nonempty]
    rw [empty, List.nil_append] at buffered
    refine ⟨buffered, ?_⟩
    rw [← empty]

/-- Each drawing call draws what the reference draws. -/
theorem call_follows
    {display : Display}
    {console : Console}
    {canvas' : Canvas}
    {out? : Option TextOutput}
    {call : Draw}
    (drawn : Drawn display canvas')
    (idle : Idle console out?)
    (admitted : adapter.admits display call) :
    (screen.step (display, console) call).1 =
        shownOn out? (canvas.step canvas' call).1 ∧
      Drawn (screen.step (display, console) call).2.1
        (canvas.step canvas' call).2 ∧
      Idle (screen.step (display, console) call).2.2 out? := by
  have silent : ([] : List FirmwareCall) = shownOn out? [] := by
    cases out? <;> rfl
  cases call with
  | clear =>
      exact ⟨silent, { drawn with pending := draws_home }, idle⟩
  | setpos y x =>
      obtain ⟨⟨nonnegY, smallY⟩, nonnegX, smallX⟩ := admitted
      obtain ⟨row, rfl⟩ := Int.eq_ofNat_of_zero_le nonnegY
      obtain ⟨column, rfl⟩ := Int.eq_ofNat_of_zero_le nonnegX
      have smallRow : row + 1 < 2 ^ 31 := by omega
      have smallColumn : column + 1 < 2 ^ 31 := by omega
      refine ⟨silent, ?_, idle⟩
      exact {
        pending :=
          draws_append drawn.pending
            (draws_position smallRow smallColumn)
        curY := rfl
        curX := rfl
        smallY := smallRow
        smallX := smallColumn
      }
  | addstr str =>
      obtain ⟨printable, small⟩ := admitted
      refine ⟨silent, ?_, idle⟩
      rw [drawn.curX] at small
      exact {
        pending := draws_append drawn.pending (draws_text printable)
        curY := drawn.curY
        curX := congrArg (· + (str.length : Int)) drawn.curX
        smallY := drawn.smallY
        smallX := by
          change canvas'.curX + str.length + 1 < 2 ^ 31
          omega
      }
  | refresh =>
      obtain ⟨draws, emptied⟩ := draws_refresh drawn
      obtain ⟨output, idleThen⟩ := draws console out? idle
      refine ⟨output, ?_, idleThen⟩
      change Drawn display.refresh.2 _
      rw [emptied]
      exact { drawn with pending := draws_nil }

/-- Drawing calls draw what the reference draws, call by call. -/
theorem calls_follow
    (calls : List Draw)
    {display : Display}
    {console : Console}
    {canvas' : Canvas}
    {out? : Option TextOutput}
    (drawn : Drawn display canvas')
    (idle : Idle console out?)
    (admissible : adapter.Admissible display calls) :
    screen.responses (display, console) calls =
        (canvas.responses canvas' calls).map (shownOn out?) ∧
      Idle (screen.run (display, console) calls).2 out? := by
  induction calls generalizing display console canvas' with
  | nil =>
      exact ⟨rfl, idle⟩
  | cons call calls inductionHypothesis =>
      obtain ⟨admitted, later⟩ := admissible
      obtain ⟨sameCalls, drawnNext, idleNext⟩ :=
        call_follows drawn idle admitted
      obtain ⟨sameLater, idleLast⟩ :=
        inductionHypothesis drawnNext idleNext later
      refine ⟨?_, idleLast⟩
      rw [Machine.responses_cons, Machine.responses_cons, List.map_cons,
        sameCalls]
      exact congrArg (_ :: ·) sameLater

/--
For any drawing calls inside the console's range, each refresh makes the calls
drawn since the refresh or clear before it and moves the cursor to the tracked
place, and the parser is back in `ST_NORMAL`.
-/
theorem console_shows_drawing
    (console : Console)
    (calls : List Draw)
    (normal : console.ansiState = .normal)
    (admissible : adapter.Admissible .init calls) :
    screen.responses (.init, console) calls =
        (canvas.responses ⟨[], 0, 0⟩ calls).map
          (shownOn console.conOut?) ∧
      (screen.run (.init, console) calls).2.ansiState = .normal := by
  have drawn : Drawn .init ⟨[], 0, 0⟩ := {
    pending := draws_nil
    curY := rfl
    curX := rfl
    smallY := by decide
    smallX := by decide
  }
  obtain ⟨sameCalls, idle⟩ :=
    calls_follow calls drawn ⟨normal, rfl⟩ admissible
  exact ⟨sameCalls, idle.state⟩

/-- A letter in the second row and third column of a cleared screen. -/
theorem console_shows_letter :
    screen.responses
        (.init, .boot (some ⟨some ⟨some 7⟩⟩) fun _ => 0xCC)
        [.clear, .setpos 1 2, .addstr [0x41], .refresh] =
      [[], [], [],
        [.setCursorPosition 0 0, .setCursorPosition 2 1,
          .outputString [0x41, 0], .setCursorPosition 3 1]] := by
  have admissible :
      adapter.Admissible .init
        [.clear, .setpos 1 2, .addstr [0x41], .refresh] :=
    ⟨trivial, ⟨by decide, by decide⟩,
      ⟨by decide +kernel, by decide +kernel⟩,
      trivial, trivial⟩
  exact (console_shows_drawing _ _ rfl admissible).1

end RubyOnBareMetal.TerminalAdapter
