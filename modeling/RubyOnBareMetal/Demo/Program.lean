import RubyOnBareMetal.Consoles.Drivers
import RubyOnBareMetal.Demo.Frames

namespace RubyOnBareMetal.Demo

open Foundation Consoles UefiConsole

/-!
# The program of `ruby/scripts/autodemo.rb`

The UEFI build evaluates this script.  It erases the screen and then draws one
frame over the other, and on the firmware's screen each frame is in its place.
-/

variable {height width : Nat}

/-- A text that strokes draw, from a column to another. -/
def Drawable
    (height width : Nat)
    (column : Nat)
    (text : List UInt8)
    (after : Nat) : Prop :=
  ∃ strokes : List PenStroke,
    strokes.flatMap PenStroke.bytes = text ∧
      (∀ stroke ∈ strokes, Readable stroke) ∧
        (PenStroke.columns height width).Admissible column strokes ∧
          (PenStroke.columns height width).run column strokes = after

namespace Drawable

/-- Texts are drawn one after the other. -/
theorem append
    {column middle after : Nat}
    {first second : List UInt8}
    (drawable : Drawable height width column first middle)
    (drawableSecond : Drawable height width middle second after) :
    Drawable height width column (first ++ second) after := by
  obtain ⟨strokes, bytes, readable, fit, leads⟩ := drawable
  obtain ⟨others, otherBytes, otherReadable, otherFit, otherLeads⟩ :=
    drawableSecond
  refine ⟨strokes ++ others, ?_, ?_, ?_, ?_⟩
  · rw [List.flatMap_append, bytes, otherBytes]
  · exact List.forall_mem_append.mpr ⟨readable, otherReadable⟩
  · rw [Machine.admissible_append, leads]
    exact ⟨fit, otherFit⟩
  · rw [Machine.run_append, leads, otherLeads]

/-- A stroke is drawn. -/
theorem stroke
    {column : Nat}
    {stroke : PenStroke}
    (readable : Readable stroke)
    (fits : stroke.Fits height width column) :
    Drawable height width column stroke.bytes
      (stroke.columnAfter width column) :=
  ⟨[stroke], List.append_nil _, List.forall_mem_singleton.mpr readable,
    ⟨fits, trivial⟩, rfl⟩

/-- Nothing is drawn by no strokes. -/
theorem nothing (column : Nat) :
    Drawable height width column [] column :=
  ⟨[], rfl, List.forall_mem_nil _, trivial, rfl⟩

/-- Characters inside the margin are drawn one after the other. -/
theorem characters
    {column : Nat}
    {text : List UInt8}
    (areCharacters : ∀ c ∈ text, Terminal.IsCharacter c)
    (fits : column + text.length ≤ width) :
    Drawable height width column text (column + text.length) := by
  induction text generalizing column with
  | nil =>
      exact nothing column
  | cons c rest inductionHypothesis =>
      obtain ⟨first, others⟩ := List.forall_mem_cons.mp areCharacters
      rw [List.length_cons] at fits
      have drawn : Drawable height width column [c] (column + 1) := by
        have single :=
          @stroke height width column (.character c first) trivial trivial
        rw [PenStroke.columnAfter, if_pos (by omega)] at single
        exact single
      have narrower : column + 1 + rest.length ≤ width := by omega
      have behind :
          column + 1 + rest.length = column + (rest.length + 1) := by
        omega
      have whole := drawn.append (inductionHypothesis others narrower)
      rw [behind] at whole
      exact whole

/-- Rows with their line ends are drawn if none is full. -/
theorem rows
    {rows : List (List UInt8)}
    (areCharacters : ∀ row ∈ rows, ∀ c ∈ row, Terminal.IsCharacter c)
    (narrow : ∀ row ∈ rows, row.length < width) :
    Drawable height width 0 (rows.flatMap (· ++ [0x0A])) 0 := by
  induction rows with
  | nil =>
      exact nothing 0
  | cons row rest inductionHypothesis =>
      obtain ⟨first, others⟩ := List.forall_mem_cons.mp areCharacters
      obtain ⟨firstNarrow, restNarrow⟩ := List.forall_mem_cons.mp narrow
      have text : Drawable height width 0 row (0 + row.length) :=
        characters first (by omega)
      have notFull : 0 + row.length < width := by omega
      have ended : Drawable height width (0 + row.length) [0x0A] 0 :=
        @stroke height width _ .lineEnd trivial notFull
      rw [List.flatMap_cons]
      exact (text.append ended).append (inductionHypothesis others restNarrow)

end Drawable

namespace Wanderer

variable (trig : Trigonometry)

/-- The frames before a number. -/
def frames (count : Nat) : List UInt8 :=
  (List.range count).flatMap fun frame =>
    (atFrame trig frame).renderFrame trig frame

/-- `print "\e[2J\e[H"` and the frames of the loop before a number. -/
def program (count : Nat) : List UInt8 :=
  PenStroke.erase.bytes ++ frames trig count

end Wanderer

end RubyOnBareMetal.Demo
