import RubyOnBareMetal.Foundation.Zipper
import RubyOnBareMetal.Shell.LineReader

namespace RubyOnBareMetal.Shell

open Foundation

/-!
# What a line reader is for

The reference is an editor that keeps a line as the characters on either side
of its cursor and the history as the lines above and below it.  A recalled
line is edited on a copy: when it is left the history has the line itself.
-/

/-! ## Keys -/

/-- The keys that edit a line. -/
inductive Key where
  | printable (c : UInt8) (range : 0x20 ≤ c ∧ c ≤ 0x7E)
  | erase (c : UInt8) (delOrBs : c = 0x7F ∨ c = 0x08)
  | up
  | down
  | right
  | left
  | sequence
      (inner : List UInt8)
      (final : UInt8)
      (innerBytes : ∀ c ∈ inner, isInner c = true)
      (finalByte : 0x40 ≤ final ∧ final ≤ 0x7E)
      (notArrow : inner = [] → final ∉ [0x41, 0x42, 0x43, 0x44])
  | ignored
      (c : UInt8)
      (control : c < 0x20)
      (noMeaning : c ∉ [0x03, 0x04, 0x08, 0x0A, 0x0D, 0x1B])

/-- The bytes of a key. -/
def Key.encode : Key → List UInt8
  | .printable c _ => [c]
  | .erase c _ => [c]
  | .up => [0x1B, 0x5B, 0x41]
  | .down => [0x1B, 0x5B, 0x42]
  | .right => [0x1B, 0x5B, 0x43]
  | .left => [0x1B, 0x5B, 0x44]
  | .sequence inner final _ _ _ => 0x1B :: 0x5B :: (inner ++ [final])
  | .ignored c _ _ => [c]

/-! ## The reference editor -/

/-- A line of characters. -/
abbrev Text := List UInt8

/-- The draft is edited, or a copy of a recalled line of the history. -/
inductive Place where
  | draft
  | recalled (line : Text) (newer : List Text) (draft : Text)
  deriving Repr, DecidableEq

/-- The draft that is kept while a recalled line is edited. -/
def Place.saved? : Place → Option Text
  | .draft => none
  | .recalled _ _ kept => some kept

/-- The line that is edited and the lines of the history above and below. -/
structure Editor where
  line : Zipper UInt8
  older : List Text
  place : Place
  deriving Repr, DecidableEq

namespace Editor

/-- An empty draft below the whole history. -/
def start (history : List Text) : Editor where
  line := .atEnd []
  older := history.reverse
  place := .draft

/-- The history, which the editor takes apart but never changes. -/
def history (editor : Editor) : List Text :=
  editor.older.reverse ++
    match editor.place with
    | .draft => []
    | .recalled line newer _ => line :: newer

/-- The draft: the line itself, or what it was when it was left. -/
def draft (editor : Editor) : Text :=
  match editor.place with
  | .draft => editor.line.toList
  | .recalled _ _ draft => draft

/-- Leave the line for the one above it, unless it is the first. -/
def up (editor : Editor) : Editor :=
  match editor.older with
  | [] => editor
  | line :: older =>
      {
        line := .atEnd line
        older := older
        place :=
          match editor.place with
          | .draft => .recalled line [] editor.line.toList
          | .recalled left newer draft =>
              .recalled line (left :: newer) draft
      }

/-- Leave the line for the one below it, unless it is the draft. -/
def down (editor : Editor) : Editor :=
  match editor.place with
  | .draft => editor
  | .recalled left [] draft =>
      {
        line := .atEnd draft
        older := left :: editor.older
        place := .draft
      }
  | .recalled left (line :: newer) draft =>
      {
        line := .atEnd line
        older := left :: editor.older
        place := .recalled line newer draft
      }

/-- What a key does. -/
def press (editor : Editor) : Key → Editor
  | .printable c _ => { editor with line := editor.line.insert c }
  | .erase _ _ => { editor with line := editor.line.eraseLeft }
  | .up => editor.up
  | .down => editor.down
  | .right => { editor with line := editor.line.moveRight }
  | .left => { editor with line := editor.line.moveLeft }
  | .sequence _ _ _ _ _ => editor
  | .ignored _ _ _ => editor

/-- What keys do, one after the other. -/
def type (editor : Editor) (keys : List Key) : Editor :=
  keys.foldl press editor

@[simp] theorem type_nil (editor : Editor) : editor.type [] = editor :=
  rfl

@[simp] theorem type_cons
    (editor : Editor)
    (key : Key)
    (keys : List Key) :
    editor.type (key :: keys) = (editor.press key).type keys :=
  rfl

/-- No key changes the history. -/
theorem history_press
    (editor : Editor)
    (key : Key) :
    (editor.press key).history = editor.history := by
  rcases editor with ⟨line, older, place⟩
  cases key with
  | up =>
      cases older with
      | nil => rfl
      | cons above older =>
          cases place <;> simp [press, up, history]
  | down =>
      cases place with
      | draft => rfl
      | recalled left newer draft =>
          cases newer <;> simp [press, down, history]
  | printable c range => rfl
  | erase c delOrBs => rfl
  | right => rfl
  | left => rfl
  | sequence inner final innerBytes finalByte notArrow => rfl
  | ignored c control noMeaning => rfl

/-- The history of an editor is the one it was started with. -/
theorem history_type
    (editor : Editor)
    (keys : List Key) :
    (editor.type keys).history = editor.history := by
  induction keys generalizing editor with
  | nil =>
      rfl
  | cons key keys inductionHypothesis =>
      rw [type_cons, inductionHypothesis, history_press]

/-- The history as it was at the start. -/
theorem history_start (lines : List Text) :
    (start lines).history = lines := by
  simp [history, start]

/-- A key keeps the draft unless it edits the draft itself. -/
theorem draft_press
    {editor : Editor}
    {key : Key}
    (kept : editor.place ≠ .draft ∨ key = .up ∨ key = .down) :
    (editor.press key).draft = editor.draft := by
  rcases editor with ⟨line, older, place⟩
  cases place with
  | draft =>
      rcases kept with elsewhere | rfl | rfl
      · exact absurd rfl elsewhere
      · cases older <;> rfl
      · rfl
  | recalled left newer draft =>
      cases key with
      | up => cases older <;> rfl
      | down =>
          cases newer with
          | nil => exact Zipper.toList_atEnd draft
          | cons _ _ => rfl
      | printable c range => rfl
      | erase c delOrBs => rfl
      | right => rfl
      | left => rfl
      | sequence inner final innerBytes finalByte notArrow => rfl
      | ignored c control noMeaning => rfl

/-- Keys can be typed in parts. -/
theorem type_append
    (editor : Editor)
    (first second : List Key) :
    editor.type (first ++ second) = (editor.type first).type second :=
  List.foldl_append

/-- Only Up leaves the draft. -/
theorem up_of_left
    {editor : Editor}
    {key : Key}
    (atDraft : editor.place = .draft)
    (left : (editor.press key).place ≠ .draft) :
    key = .up := by
  rcases editor with ⟨line, older, place⟩
  cases key with
  | up => rfl
  | down =>
      cases place with
      | draft => exact absurd rfl left
      | recalled _ _ _ => cases atDraft
  | printable c range => exact absurd atDraft left
  | erase c delOrBs => exact absurd atDraft left
  | right => exact absurd atDraft left
  | left => exact absurd atDraft left
  | sequence inner final innerBytes finalByte notArrow =>
      exact absurd atDraft left
  | ignored c control noMeaning => exact absurd atDraft left

/-- Only Down comes back to the draft, and to its end. -/
theorem line_of_back
    {editor : Editor}
    {key : Key}
    (away : editor.place ≠ .draft)
    (back : (editor.press key).place = .draft) :
    (editor.press key).line = .atEnd editor.draft := by
  rcases editor with ⟨line, older, place⟩
  cases place with
  | draft => exact absurd rfl away
  | recalled left newer draft =>
      cases key with
      | up => cases older <;> cases back
      | down =>
          cases newer with
          | nil => rfl
          | cons _ _ => cases back
      | printable c range => cases back
      | erase c delOrBs => cases back
      | right => cases back
      | left => cases back
      | sequence inner final innerBytes finalByte notArrow => cases back
      | ignored c control noMeaning => cases back

/-- Keys that stay away from the draft keep it. -/
theorem draft_away
    {editor : Editor}
    {keys : List Key}
    (away :
      ∀ visited, visited <+: keys → (editor.type visited).place ≠ .draft) :
    (editor.type keys).draft = editor.draft := by
  induction keys generalizing editor with
  | nil =>
      rfl
  | cons key keys inductionHypothesis =>
      have awayLater :
          ∀ visited,
            visited <+: keys →
            ((editor.press key).type visited).place ≠ .draft := by
        intro visited isPrefix
        exact away (key :: visited) (List.cons_prefix_cons.mpr ⟨rfl, isPrefix⟩)
      have awayNow : editor.place ≠ .draft :=
        away [] (List.nil_prefix)
      rw [type_cons, inductionHypothesis awayLater,
        draft_press (.inl awayNow)]

/-- A key that leaves the draft, keys away from it and one that comes back. -/
structure Excursion
    (editor : Editor)
    (first : Key)
    (middle : List Key)
    (last : Key) : Prop where
  atDraft : editor.place = .draft
  away :
    ∀ visited,
      visited <+: middle →
      ((editor.press first).type visited).place ≠ .draft
  back : (((editor.press first).type middle).press last).place = .draft

/-- The draft is restored when an excursion comes back to it. -/
theorem excursion_restores_draft
    {editor : Editor}
    {first last : Key}
    {middle : List Key}
    (excursion : Excursion editor first middle last) :
    (((editor.press first).type middle).press last).line =
      .atEnd editor.line.toList := by
  have leaves : first = .up :=
    up_of_left excursion.atDraft (excursion.away [] List.nil_prefix)
  have kept : (editor.press first).draft = editor.line.toList := by
    rw [draft_press (.inr (.inl leaves)), draft, excursion.atDraft]
  rw [line_of_back (excursion.away middle List.prefix_rfl) excursion.back,
    draft_away excursion.away, kept]

/-! ## What an editor shows -/

/-- A whole line written anew, with the cursor moved to its place. -/
def repaint (prompt : Text) (line : Zipper UInt8) : List UInt8 :=
  clearLine ++ prompt ++ line.toList ++
    if line.right = [] then [] else stepsLeft line.right.length

/-- What is written for a key; most keys repaint the line they change. -/
def written (prompt : Text) (editor : Editor) (key : Key) : List UInt8 :=
  match key with
  | .printable c _ =>
      if editor.line.right = [] then
        [c]
      else
        repaint prompt (editor.press key).line
  | .erase _ _ =>
      if editor.line.left = [] then
        []
      else
        repaint prompt (editor.press key).line
  | .up =>
      if editor.older = [] then
        []
      else
        repaint prompt (editor.press key).line
  | .down =>
      if editor.place = .draft then
        []
      else
        repaint prompt (editor.press key).line
  | .right => if editor.line.right = [] then [] else stepRight
  | .left => if editor.line.left = [] then [] else stepLeft
  | .sequence _ _ _ _ _ => []
  | .ignored _ _ _ => []

end Editor

end RubyOnBareMetal.Shell
