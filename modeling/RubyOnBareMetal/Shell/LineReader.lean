import RubyOnBareMetal.Foundation.Bytes
import RubyOnBareMetal.Foundation.Ruby

namespace RubyOnBareMetal.Shell

open Foundation

/-!
# `read_line` of `ruby/scripts/init.rb`

The line reader of the shell, one pass of its loop after another.  Standard
input is the list of the bytes that `sysread` still delivers, standard output
the list of the bytes written.  A string is the list of its characters, each
of one byte.
-/

/-- The streams, `$history`, the parameter and the locals of `read_line`. -/
structure LineReader where
  input : List UInt8
  output : List UInt8
  history : List (List UInt8)
  prompt : List UInt8
  buf : List UInt8
  cursor : Int
  savedInput : List UInt8
  historyIndex : Int
  deriving Repr, DecidableEq

/-- The errors that end `read_line`. -/
inductive Failure where
  | eofError
  | typeError
  | noMethodError
  deriving Repr, DecidableEq

/-- What a pass of the loop leads to. -/
inductive Pass where
  | again (reader : LineReader)
  | returned (line : List UInt8) (reader : LineReader)
  | raised (failure : Failure) (reader : LineReader)
  deriving Repr, DecidableEq

/-- `$stdout.syswrite`. -/
def LineReader.write (reader : LineReader) (bytes : List UInt8) :
    LineReader :=
  { reader with output := reader.output ++ bytes }

/-- The sequences `"\r\x1b[K"`, `"\x1b[C"` and `"\x1b[D"`. -/
def clearLine : List UInt8 := [0x0D, 0x1B, 0x5B, 0x4B]
def stepRight : List UInt8 := [0x1B, 0x5B, 0x43]
def stepLeft : List UInt8 := [0x1B, 0x5B, 0x44]

/-- `"\x1b[#{columns}D"`. -/
def stepsLeft (columns : Int) : List UInt8 :=
  [0x1B, 0x5B] ++ decimalText columns ++ [0x44]

/-- `redraw`. -/
def redraw (reader : LineReader) : LineReader :=
  let reader := reader.write (clearLine ++ reader.prompt ++ reader.buf)
  if reader.cursor < reader.buf.length then
    reader.write (stepsLeft (reader.buf.length - reader.cursor))
  else
    reader

/-- `buf = line.dup; cursor = buf.length; redraw.call`, if `line` is not nil. -/
def showLine (reader : LineReader) : Option (List UInt8) → Pass
  | none => .raised .noMethodError reader
  | some line =>
      .again (redraw { reader with buf := line, cursor := line.length })

/-- The branch of the up arrow. -/
def arrowUp (reader : LineReader) : Pass :=
  if 0 < reader.history.length ∧ 0 < reader.historyIndex then
    let reader :=
      if reader.historyIndex = reader.history.length then
        { reader with savedInput := reader.buf }
      else
        reader
    let reader :=
      { reader with historyIndex := reader.historyIndex - 1 }
    showLine reader (Ruby.element? reader.history reader.historyIndex)
  else
    .again reader

/-- The branch of the down arrow. -/
def arrowDown (reader : LineReader) : Pass :=
  if reader.historyIndex < reader.history.length then
    let reader :=
      { reader with historyIndex := reader.historyIndex + 1 }
    if reader.historyIndex = reader.history.length then
      showLine reader (some reader.savedInput)
    else
      showLine reader (Ruby.element? reader.history reader.historyIndex)
  else
    .again reader

/-- The branch of the right arrow. -/
def arrowRight (reader : LineReader) : Pass :=
  if reader.cursor < reader.buf.length then
    .again
      ({ reader with cursor := reader.cursor + 1 }.write stepRight)
  else
    .again reader

/-- The branch of the left arrow. -/
def arrowLeft (reader : LineReader) : Pass :=
  if 0 < reader.cursor then
    .again
      ({ reader with cursor := reader.cursor - 1 }.write stepLeft)
  else
    .again reader

/-- The bytes inside a control sequence. -/
def isInner (c : UInt8) : Bool :=
  0x20 ≤ c ∧ c ≤ 0x3F

/-- The loop over an unknown sequence; `none` is the end of the input. -/
def skipSequence (c3 : UInt8) : List UInt8 → Option (List UInt8)
  | [] => if isInner c3 then none else some []
  | c :: rest =>
      if isInner c3 then
        skipSequence c rest
      else
        some (c :: rest)

/-- The branch of ESC. -/
def escapeSequence (reader : LineReader) : Pass :=
  match reader.input with
  | [] => .raised .eofError reader
  | c2 :: rest =>
      let reader := { reader with input := rest }
      if c2 = 0x5B then
        match reader.input with
        | [] => .raised .eofError reader
        | c3 :: rest =>
            let reader := { reader with input := rest }
            if c3 = 0x41 then
              arrowUp reader
            else if c3 = 0x42 then
              arrowDown reader
            else if c3 = 0x43 then
              arrowRight reader
            else if c3 = 0x44 then
              arrowLeft reader
            else
              match skipSequence c3 reader.input with
              | none => .raised .eofError { reader with input := [] }
              | some rest => .again { reader with input := rest }
      else
        .again reader

/-- The branch of DEL and BS. -/
def eraseLeft (reader : LineReader) : Pass :=
  if 0 < reader.cursor then
    match Ruby.sliceFrom? reader.buf reader.cursor with
    | none => .raised .typeError reader
    | some after =>
        .again
          (redraw
            { reader with
              buf := Ruby.sliceBefore reader.buf (reader.cursor - 1) ++ after
              cursor := reader.cursor - 1 })
  else
    .again reader

/-- The branch of a character. -/
def insertCharacter (reader : LineReader) (c : UInt8) : Pass :=
  match Ruby.sliceFrom? reader.buf reader.cursor with
  | none => .raised .typeError reader
  | some after =>
      let reader :=
        { reader with
          buf := Ruby.sliceBefore reader.buf reader.cursor ++ [c] ++ after
          cursor := reader.cursor + 1 }
      if reader.cursor = reader.buf.length then
        .again (reader.write [c])
      else
        .again (redraw reader)

/-- One pass of the loop. -/
def pass (reader : LineReader) : Pass :=
  match reader.input with
  | [] => .raised .eofError reader
  | c :: rest =>
      let reader := { reader with input := rest }
      if c = 0x0A ∨ c = 0x0D then
        .returned reader.buf (reader.write [0x0A])
      else if c = 0x1B then
        escapeSequence reader
      else if c = 0x7F ∨ c = 0x08 then
        eraseLeft reader
      else if c = 0x03 then
        .returned [] (reader.write [0x5E, 0x43, 0x0A])
      else if c = 0x04 then
        .raised .eofError reader
      else if 32 ≤ c then
        insertCharacter reader c
      else
        .again reader

/-- A number of passes, unless the loop ends before. -/
def passes : Nat → LineReader → Pass
  | 0, reader => .again reader
  | more + 1, reader =>
      match pass reader with
      | .again reader => passes more reader
      | .returned line reader => .returned line reader
      | .raised failure reader => .raised failure reader

/-- The variables before the loop, with the prompt written. -/
def LineReader.start
    (prompt : List UInt8)
    (history : List (List UInt8))
    (input : List UInt8) : LineReader where
  input := input
  output := prompt
  history := history
  prompt := prompt
  buf := []
  cursor := 0
  savedInput := []
  historyIndex := history.length

/-- `read_line`: every pass takes a byte, so that the input bounds them. -/
def readLine
    (prompt : List UInt8)
    (history : List (List UInt8))
    (input : List UInt8) : Pass :=
  passes (input.length + 1) (.start prompt history input)

end RubyOnBareMetal.Shell
