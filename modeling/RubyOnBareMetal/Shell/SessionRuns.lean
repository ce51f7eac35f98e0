import RubyOnBareMetal.Shell.Sessions

namespace RubyOnBareMetal.Shell

open Foundation

/-!
# Whole sessions

The passes of the main loop and the loop inside `write` take what is typed one
line after the other.  The rest of a session is a function of the passes that
are left, at the prompt and in the middle of a text alike.
-/

section Interpreted

variable {Value : Type}
variable (ruby : Interpreter Value)

/-! ## The points of a session -/

end Interpreted

/-- A Ruby that evaluates nothing. -/
def Interpreter.bare : Interpreter Unit where
  version := [0x34]
  platform := [0x78]
  seconds _ := 0
  objects _ := (0, 0)
  raised _ := ⟨[0x45], none, none, false⟩
  evaluate _ := pure ()
  inspect _ := pure []
  load _ _ := pure ()
  editor _ := pure ()
  emptyEditor := pure ()

/-- A line that is typed and entered. -/
def Typed.line
    (text : Line)
    (printable : ∀ c ∈ text, 0x20 ≤ c ∧ c ≤ 0x7E) : Typed where
  keys := text.pmap Key.printable printable
  ending := .enter 0x0D (.inr rfl)

/-- Its view. -/
def View.empty : View where
  store _ := none
  readings := 0
  control := ⟨.prompt, []⟩

end RubyOnBareMetal.Shell
