import RubyOnBareMetal.Foundation.Stream
import RubyOnBareMetal.Foundation.Terminal

namespace Foundation

/-!
# Graphic rendition

A terminal shows each character with the attributes that the `SGR` sequences
before it have selected.
-/

/-- The attributes of a character; a colour that is missing is the default. -/
structure Rendition where
  bold : Bool
  underline : Bool
  reverse : Bool
  foreground : Option Nat
  background : Option Nat
  deriving Repr, DecidableEq

namespace Rendition

/-- The default attributes. -/
def plain : Rendition where
  bold := false
  underline := false
  reverse := false
  foreground := none
  background := none

/-- The parameters of `SGR`, one after the other. -/
def select (rendition : Rendition) : List Nat → Rendition
  | [] => rendition
  | 0 :: rest => plain.select rest
  | 1 :: rest => { rendition with bold := true }.select rest
  | 4 :: rest => { rendition with underline := true }.select rest
  | 7 :: rest => { rendition with reverse := true }.select rest
  | 22 :: rest => { rendition with bold := false }.select rest
  | 24 :: rest => { rendition with underline := false }.select rest
  | 27 :: rest => { rendition with reverse := false }.select rest
  | 38 :: 5 :: colour :: rest =>
      { rendition with foreground := some colour }.select rest
  | 39 :: rest => { rendition with foreground := none }.select rest
  | 48 :: 5 :: colour :: rest =>
      { rendition with background := some colour }.select rest
  | 49 :: rest => { rendition with background := none }.select rest
  | _ :: rest => rendition.select rest

end Rendition

/-- A terminal that shows characters, and has read part of a sequence. -/
structure Printer where
  rendition : Rendition
  state : TerminalState
  deriving Repr, DecidableEq

namespace Printer

/-- A byte of a character; the control characters are not shown. -/
abbrev IsVisible (c : UInt8) : Prop :=
  0x20 ≤ c ∧ c ≠ 0x7F

/-- The characters of a text. -/
def visible (text : List UInt8) : List UInt8 :=
  text.filter fun c => IsVisible c

/-- The final byte of `SGR`. -/
abbrev sgrFinal : UInt8 := 0x6D

/-- Characters between sequences are shown, `SGR` selects attributes. -/
def printer : Machine Printer UInt8 (List (UInt8 × Rendition)) where
  step printer c :=
    if c = 0x1B then
      ([], { printer with state := .escape })
    else
      match printer.state with
      | .ground =>
          (if IsVisible c then [(c, printer.rendition)] else [], printer)
      | .escape =>
          ([],
            { printer with
              state := if c = 0x5B then .control [] else .ground })
      | .control body =>
          ([],
            if Terminal.IsBody c then
              { printer with state := .control (body ++ [c]) }
            else if c = sgrFinal then
              {
                rendition :=
                  printer.rendition.select
                    ((Terminal.controlParams body).map (·.getD 0))
                state := .ground
              }
            else
              { printer with state := .ground })
  admits _ _ := True

/-- A terminal between sequences. -/
def ready (rendition : Rendition) : Printer where
  rendition := rendition
  state := .ground

/-- Between two `ready` states bytes show some characters. -/
abbrev Shows
    (bytes : List UInt8)
    (before after : Rendition)
    (shown : List (UInt8 × Rendition)) : Prop :=
  printer.output (ready before) bytes = shown ∧
    printer.run (ready before) bytes = ready after

/-- What is written in parts is shown in parts. -/
theorem Shows.append
    {first second : List UInt8}
    {before middle after : Rendition}
    {shown shownLater : List (UInt8 × Rendition)}
    (showsFirst : Shows first before middle shown)
    (showsSecond : Shows second middle after shownLater) :
    Shows (first ++ second) before after (shown ++ shownLater) := by
  obtain ⟨output, run⟩ := showsFirst
  obtain ⟨outputLater, runLater⟩ := showsSecond
  constructor
  · rw [Machine.output_append, run, output, outputLater]
  · rw [Machine.run_append, run, runLater]

/-- Nothing is shown of nothing. -/
theorem shows_nil (rendition : Rendition) :
    Shows [] rendition rendition [] :=
  ⟨rfl, rfl⟩

/-- A text is shown with the attributes that are selected. -/
theorem shows_text
    {text : List UInt8}
    (noEscape : 0x1B ∉ text)
    (rendition : Rendition) :
    Shows text rendition rendition
      ((visible text).map fun c => (c, rendition)) := by
  induction text with
  | nil =>
      exact shows_nil rendition
  | cons c rest inductionHypothesis =>
      obtain ⟨notEscape, noEscapeRest⟩ := not_or.mp
        (fun member => noEscape (List.mem_cons.mpr member))
      have stepped :
          printer.step (ready rendition) c =
            (if IsVisible c then [(c, rendition)] else [],
              ready rendition) := by
        simp only [printer, ready, if_neg (Ne.symm notEscape)]
      have first :
          Shows [c] rendition rendition
            (if IsVisible c then [(c, rendition)] else []) := by
        constructor
        · rw [Machine.output_cons, stepped, Machine.output_nil,
            List.append_nil]
        · rw [Machine.run, stepped, Machine.run]
      have whole := first.append (inductionHypothesis noEscapeRest)
      rw [visible, List.filter_cons]
      by_cases isVisible : IsVisible c
      · rw [if_pos isVisible] at whole
        rw [if_pos (decide_eq_true isVisible), List.map_cons]
        exact whole
      · rw [if_neg isVisible] at whole
        rw [if_neg (fun shown => isVisible (of_decide_eq_true shown))]
        exact whole

/-- The bytes of a body are collected. -/
theorem collects_body
    {body : List UInt8}
    (bodyBytes : ∀ c ∈ body, Terminal.IsBody c)
    (rendition : Rendition)
    (collected : List UInt8) :
    printer.output ⟨rendition, .control collected⟩ body = [] ∧
      printer.run ⟨rendition, .control collected⟩ body =
        ⟨rendition, .control (collected ++ body)⟩ := by
  induction body generalizing collected with
  | nil =>
      rw [List.append_nil]
      exact ⟨rfl, rfl⟩
  | cons c rest inductionHypothesis =>
      obtain ⟨isBody, restBytes⟩ := List.forall_mem_cons.mp bodyBytes
      have notEscape : c ≠ 0x1B := by
        rintro rfl
        exact absurd isBody (by decide)
      have stepped :
          printer.step ⟨rendition, .control collected⟩ c =
            ([], ⟨rendition, .control (collected ++ [c])⟩) := by
        simp only [printer, if_neg notEscape, if_pos isBody]
      obtain ⟨output, run⟩ :=
        inductionHypothesis restBytes (collected ++ [c])
      rw [Machine.output_cons, Machine.run, stepped, output, run,
        List.append_assoc]
      exact ⟨rfl, rfl⟩

/-- An `SGR` sequence shows nothing and selects attributes. -/
theorem shows_sgr
    {body : List UInt8}
    (bodyBytes : ∀ c ∈ body, Terminal.IsBody c)
    (rendition : Rendition) :
    Shows (Terminal.sequence body sgrFinal) rendition
      (rendition.select ((Terminal.controlParams body).map (·.getD 0)))
      [] := by
  obtain ⟨output, run⟩ := collects_body bodyBytes rendition []
  have opened :
      printer.run (ready rendition) [0x1B, 0x5B] =
        ⟨rendition, .control []⟩ :=
    rfl
  have silent : printer.output (ready rendition) [0x1B, 0x5B] = [] :=
    rfl
  have split :
      Terminal.sequence body sgrFinal =
        [0x1B, 0x5B] ++ (body ++ [sgrFinal]) :=
    rfl
  rw [Shows, split, Machine.output_append, Machine.run_append, opened,
    silent, Machine.output_append, Machine.run_append, run, output,
    List.nil_append]
  exact ⟨rfl, rfl⟩

/-- A colour of the palette is the third of three parameters. -/
theorem controlParams_palette
    {selector : List UInt8}
    (noSeparator : 0x3B ∉ selector)
    (nonempty : selector ≠ [])
    (colour : Nat) :
    Terminal.controlParams
        (selector ++ 0x3B :: 0x35 :: 0x3B :: decimalDigits colour) =
      [some (decimalValue selector), some 5, some colour] := by
  have split :
      (0x35 :: 0x3B :: decimalDigits colour).splitOn 0x3B =
        [0x35] :: (decimalDigits colour).splitOn 0x3B :=
    List.splitOn_append_cons_self_of_not_mem
      (show (0x3B : UInt8) ∉ [0x35] by decide) (decimalDigits colour)
  have single :
      (decimalDigits colour).splitOn 0x3B = [decimalDigits colour] := by
    refine List.splitOn_eq_singleton fun member => ?_
    exact absurd (decimalDigits_digit member) (by decide)
  rw [Terminal.controlParams,
    List.splitOn_append_cons_self_of_not_mem noSeparator, split, single]
  simp only [List.map_cons, List.map_nil, if_neg nonempty,
    if_neg (decimalDigits_ne_nil colour), decimalValue_decimalDigits]
  rfl

end Printer

end Foundation
