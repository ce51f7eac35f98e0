import Mathlib.Algebra.BigOperators.Group.Finset.Basic
import RubyOnBareMetal.Foundation.Dialogue
import RubyOnBareMetal.Shell.Commands
import RubyOnBareMetal.Shell.Typing

namespace RubyOnBareMetal.Shell

open Foundation

/-!
# What the shell is for

The reference keeps a text under every path that is a file, and reacts to one
typed line after the other: at its prompt to a command, and after `write` to
the lines of a text, which is stored when it is finished.
-/

/-- The texts of the files. -/
abbrev Store := Path → Option Text

namespace Store

variable (store : Store)

/-- Store a text under a path. -/
def write (path : Path) (text : Text) : Store :=
  Function.update store path (some text)

/-- A path is no file any more. -/
def erase (path : Path) : Store :=
  Function.update store path none

/-- The number of the files and the sum of their lengths. -/
def Counts (files bytes : Nat) : Prop :=
  ∃ paths : Finset Path,
    (∀ path, path ∈ paths ↔ (store path).isSome) ∧
      files = paths.card ∧
        bytes = ∑ path ∈ paths, ((store path).getD []).length

/-- The entries of a directory, in ascending order. -/
structure Lists (dir : Path) (entries : List Path) : Prop where
  ascending : entries.Pairwise (· < ·)
  exact :
    ∃ directory,
      Names directory ∧
        dir = directoryPath directory ∧
          ∀ entry,
            entry ∈ entries ↔
              (IsName entry ∧
                  (store (pathOf (directory ++ [entry]))).isSome) ∨
                ∃ name below,
                  entry = name ++ [slash] ∧
                    IsName name ∧
                      below ≠ [] ∧
                        Names below ∧
                          (store
                            (pathOf (directory ++ name :: below))).isSome

end Store

/-! ## The reference -/

/-- What the next line is for. -/
inductive Mode where
  | prompt
  | collecting (path : Path) (lines : List Line)
  | halted
  deriving Repr, DecidableEq

/-- The mode and the history, which decide how a line is read. -/
structure Control where
  mode : Mode
  history : List Line
  deriving Repr, DecidableEq

/-- The files, the clock readings made and how the next line is read. -/
structure View where
  store : Store
  readings : Nat
  control : Control

namespace View

variable (view : View)

/-- The view in another mode. -/
def enter (mode : Mode) : View :=
  { view with control := { view.control with mode := mode } }

/-- The view with other files. -/
def keep (store : Store) : View :=
  { view with store := store }

end View

section Interpreted

variable {Value : Type}
variable (ruby : Interpreter Value)

/-- The three files under `/proc` at a clock reading. -/
def Store.AtReading
    (before : Store)
    (reading : Nat)
    (mem : Text)
    (after : Store) : Prop :=
  let (total, free) := ruby.objects reading
  let timed :=
    (before.write procVersion (versionText ruby)).write
      procUptime (uptimeText (ruby.seconds reading))
  ∃ files bytes,
    timed.Counts files bytes ∧
      mem = meminfoText total free files bytes ∧
        after = timed.write procMeminfo mem

/-- What a command does and writes. -/
def Performs
    (before : View)
    (command : Command)
    (arg : Option Line)
    (output : List UInt8)
    (after : View) : Prop :=
  match command, arg with
  | .help, none => output = helpText ∧ after = before
  | .version, none => output = versionText ruby ∧ after = before
  | .clear, none => output = ascii "\x1b[2J\x1b[H" ∧ after = before
  | .history, none =>
      output = numberedText before.control.history ∧ after = before
  | .uptime, none =>
      ∃ mem store,
        before.store.AtReading ruby before.readings mem store ∧
          output = uptimeText (ruby.seconds before.readings) ∧
            after =
              { before.keep store with
                readings := before.readings + 1 }
  | .mem, none =>
      ∃ store,
        before.store.AtReading ruby before.readings output store ∧
          after =
            { before.keep store with readings := before.readings + 1 }
  | .ls, arg =>
      ∃ entries,
        before.store.Lists (arg.getD [slash]) entries ∧
          output = entriesText entries ∧
            after = before
  | .cat, some path =>
      after = before ∧
        output =
          match before.store path with
          | some text => fileText text
          | none => notFoundText .cat path
  | .rm, some path =>
      match before.store path with
      | some _ =>
          output = putsText (ascii "removed " ++ path) ∧
            after = before.keep (before.store.erase path)
      | none => output = notFoundText .rm path ∧ after = before
  | .write, some path =>
      output =
          putsText
            (ascii "Enter text (type '.' on a line by itself to finish):") ∧
        after = before.enter (.collecting path [])
  | .cat, none | .write, none | .rm, none | .run, none =>
      output = usageText command ∧ after = before
  | .help, some _ | .version, some _ | .uptime, some _ | .mem, some _
  | .clear, some _ | .history, some _ =>
      output = raisedText (ruby.raised (.arguments command.name)) ∧
        after = before
  | .run, some _ | .mui, _ => False

end Interpreted

end RubyOnBareMetal.Shell
