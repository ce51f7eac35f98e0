import Mathlib.Data.List.Basic

namespace Foundation

/-!
# Line endings

A line feed is sent as a carriage return and a line feed.  The receiver takes
the carriage return in front of a line feed away again and so gets what was
sent, carriage returns of its own included.
-/

variable {Byte : Type} [DecidableEq Byte]
variable (cr lf : Byte)

/-- Put a carriage return in front of every line feed. -/
def endLines (text : List Byte) : List Byte :=
  text.flatMap fun c => if c = lf then [cr, lf] else [c]

/-- Take the carriage return in front of every line feed away. -/
def joinLines : List Byte → List Byte
  | [] => []
  | [c] => [c]
  | c :: d :: rest =>
      if c = cr ∧ d = lf then
        lf :: joinLines rest
      else
        c :: joinLines (d :: rest)

@[simp] theorem endLines_nil : endLines cr lf [] = [] :=
  rfl

theorem endLines_cons (c : Byte) (rest : List Byte) :
    endLines cr lf (c :: rest) =
      (if c = lf then [cr, lf] else [c]) ++ endLines cr lf rest :=
  List.flatMap_cons

/-- The text of a concatenation is concatenated. -/
theorem endLines_append (first second : List Byte) :
    endLines cr lf (first ++ second) =
      endLines cr lf first ++ endLines cr lf second :=
  List.flatMap_append

variable {cr lf}

/-- A text without a line feed is sent as it is. -/
theorem endLines_eq_self
    {text : List Byte}
    (noFeed : ∀ c ∈ text, c ≠ lf) :
    endLines cr lf text = text := by
  induction text with
  | nil =>
      rfl
  | cons c rest inductionHypothesis =>
      obtain ⟨first, others⟩ := List.forall_mem_cons.mp noFeed
      rw [endLines_cons, if_neg first, inductionHypothesis others]
      rfl

/-- No text begins with a line feed. -/
theorem head?_endLines_ne
    (different : cr ≠ lf)
    (text : List Byte) :
    (endLines cr lf text).head? ≠ some lf := by
  cases text with
  | nil =>
      exact fun same => by cases same
  | cons c rest =>
      rw [endLines_cons]
      split
      · exact fun same => different (Option.some.inj same)
      · next notFeed => exact fun same => notFeed (Option.some.inj same)

/-- A character in front of no line feed is kept. -/
theorem joinLines_cons_of_head?
    (c : Byte)
    {rest : List Byte}
    (noFeed : rest.head? ≠ some lf) :
    joinLines cr lf (c :: rest) = c :: joinLines cr lf rest := by
  cases rest with
  | nil =>
      rfl
  | cons d rest =>
      have notFeed : d ≠ lf := fun same => noFeed (congrArg some same)
      rw [joinLines, if_neg fun both => notFeed both.2]

/-- The receiver gets what was sent. -/
theorem joinLines_endLines
    (different : cr ≠ lf)
    (text : List Byte) :
    joinLines cr lf (endLines cr lf text) = text := by
  induction text with
  | nil =>
      rfl
  | cons c rest inductionHypothesis =>
      rw [endLines_cons]
      by_cases feed : c = lf
      · rw [if_pos feed]
        change joinLines cr lf (cr :: lf :: endLines cr lf rest) = c :: rest
        rw [joinLines, if_pos ⟨rfl, rfl⟩, inductionHypothesis, feed]
      · rw [if_neg feed]
        change joinLines cr lf (c :: endLines cr lf rest) = c :: rest
        rw [joinLines_cons_of_head? c (head?_endLines_ne different rest),
          inductionHypothesis]

end Foundation
