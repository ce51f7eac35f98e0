import RubyOnBareMetal.Shell.LineRefinement

namespace RubyOnBareMetal.Shell

open Foundation

/-!
# Typing at a prompt

Keys are pressed until the line is entered, interrupted or the end of the text
is typed.  `read_line` takes just their bytes, writes what the reference
editor writes for them and returns its line.
-/

/-- What ends the typing of a line. -/
inductive Ending where
  | enter (c : UInt8) (isEnter : c = 0x0A ∨ c = 0x0D)
  | interrupt
  | endOfText

/-- The byte of such a key. -/
def Ending.encode : Ending → UInt8
  | enter c _ => c
  | interrupt => 0x03
  | endOfText => 0x04

/-- What is written for it. -/
def Ending.echo : Ending → List UInt8
  | enter _ _ => [0x0A]
  | interrupt => [0x5E, 0x43, 0x0A]
  | endOfText => []

/-- What is typed at a prompt. -/
structure Typed where
  keys : List Key
  ending : Ending

/-- What the editor writes for keys. -/
def Editor.echo (prompt : Text) (editor : Editor) : List Key → List UInt8
  | [] => []
  | key :: keys =>
      editor.written prompt key ++ (editor.press key).echo prompt keys

namespace Typed

/-- The bytes that are typed. -/
def encode (typed : Typed) : List UInt8 :=
  typed.keys.flatMap Key.encode ++ [typed.ending.encode]

/-- The line that is read, if it is not the end of the text. -/
def line? (typed : Typed) (history : List Text) : Option Text :=
  match typed.ending with
  | .enter _ _ => some ((Editor.start history).type typed.keys).line.toList
  | .interrupt => some []
  | .endOfText => none

/-- What is written while it is typed. -/
def echo (typed : Typed) (prompt : Text) (history : List Text) :
    List UInt8 :=
  prompt ++ (Editor.start history).echo prompt typed.keys ++
    typed.ending.echo

end Typed

end RubyOnBareMetal.Shell
