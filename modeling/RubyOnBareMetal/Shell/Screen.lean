import Mathlib.Logic.Function.Basic
import RubyOnBareMetal.Shell.LineRefinement

namespace RubyOnBareMetal.Shell

open Foundation

/-!
# The line on the terminal

One line of a terminal without local echo, as far as `read_line` uses it.
What the terminal shows is a function of all that was written, and after each
key it is the prompt and the buffer, with the cursor at its place in them.
-/

/-! ## A terminal line -/

/-- Whether the next byte is a character or a part of a sequence. -/
inductive ScreenState where
  | normal
  | escape
  | control (number : Option Nat)
  deriving Repr, DecidableEq

/-- A line with the characters in its columns; a blank column has none. -/
structure Screen where
  width : Nat
  cells : Nat → Option UInt8
  column : Nat
  state : ScreenState

/-- An empty line with the cursor in the first column. -/
def Screen.empty (width : Nat) : Screen where
  width := width
  cells _ := none
  column := 0
  state := .normal

/-- A character of one column. -/
abbrev IsPrintable (c : UInt8) : Prop :=
  0x20 ≤ c ∧ c ≤ 0x7E

/-- Print a character; the cursor stays inside the line. -/
def Screen.print (screen : Screen) (c : UInt8) : Screen :=
  { screen with
    cells := Function.update screen.cells screen.column (some c)
    column := min (screen.column + 1) (screen.width - 1) }

/-- ESC `[` and a final byte: `K`, `C` or `D`; a missing number is one. -/
def Screen.execute
    (screen : Screen)
    (number : Option Nat)
    (final : UInt8) : Screen :=
  if final = 0x4B ∧ number = none then
    { screen with
      cells := fun column =>
        if column < screen.column then screen.cells column else none }
  else if final = 0x43 then
    { screen with
      column :=
        min (screen.column + max 1 (number.getD 1)) (screen.width - 1) }
  else if final = 0x44 then
    { screen with column := screen.column - max 1 (number.getD 1) }
  else
    screen

/-- What a byte does. -/
def Screen.feed (screen : Screen) (c : UInt8) : Screen :=
  match screen.state with
  | .normal =>
      if c = 0x0D then
        { screen with column := 0 }
      else if c = 0x1B then
        { screen with state := .escape }
      else if IsPrintable c then
        screen.print c
      else
        screen
  | .escape =>
      if c = 0x5B then
        { screen with state := .control none }
      else
        { screen with state := .normal }
  | .control number =>
      if IsDigit c then
        { screen with
          state := .control (some (number.getD 0 * 10 + (c.toNat - 0x30))) }
      else
        { screen.execute number c with state := .normal }

/-- What bytes do, one after the other. -/
def Screen.display (screen : Screen) (bytes : List UInt8) : Screen :=
  bytes.foldl Screen.feed screen

/-- The line shows a text and nothing else, with the cursor in a column. -/
structure Shows
    (screen : Screen)
    (text : Text)
    (column : Nat) : Prop where
  cells : screen.cells = fun place => text[place]?
  column : screen.column = column
  state : screen.state = .normal

/-! ## Single writes -/

/-- Bytes can be written in parts. -/
theorem display_append
    (screen : Screen)
    (first second : List UInt8) :
    screen.display (first ++ second) =
      (screen.display first).display second :=
  List.foldl_append

/-- No byte changes the width of the line. -/
theorem feed_width
    (screen : Screen)
    (c : UInt8) :
    (screen.feed c).width = screen.width := by
  have executed (number : Option Nat) :
      (screen.execute number c).width = screen.width := by
    simp only [Screen.execute]
    split
    · rfl
    · split
      · rfl
      · split <;> rfl
  cases state : screen.state with
  | normal =>
      simp only [Screen.feed, state]
      split
      · rfl
      · split
        · rfl
        · split <;> rfl
  | escape =>
      simp only [Screen.feed, state]
      split <;> rfl
  | control number =>
      simp only [Screen.feed, state]
      split
      · rfl
      · exact executed number

/-- The line keeps its width. -/
@[simp] theorem display_width
    (screen : Screen)
    (bytes : List UInt8) :
    (screen.display bytes).width = screen.width := by
  induction bytes generalizing screen with
  | nil =>
      rfl
  | cons c bytes inductionHypothesis =>
      exact (inductionHypothesis (screen.feed c)).trans (feed_width screen c)

/-- No character starts a sequence. -/
theorem printable_not_control :
    ∀ c : UInt8, IsPrintable c → c ≠ 0x0D ∧ c ≠ 0x1B :=
  forall_byte (by decide +kernel)

/-- A text with one more character, as the contents of columns. -/
theorem update_append
    (text : Text)
    (c : UInt8) :
    Function.update (fun place => text[place]?) text.length (some c) =
      fun place => (text ++ [c])[place]? := by
  funext place
  rcases Nat.lt_trichotomy place text.length with before | rfl | after
  · rw [Function.update_of_ne (Nat.ne_of_lt before),
      List.getElem?_append_left before]
  · rw [Function.update_self, List.getElem?_concat_length]
  · rw [Function.update_of_ne (Nat.ne_of_gt after),
      List.getElem?_eq_none (Nat.le_of_lt after),
      List.getElem?_eq_none]
    rw [List.length_append]
    exact after

/-- Characters written at the end of the line are added to it. -/
theorem shows_text
    {screen : Screen}
    {shown text : Text}
    (shows : Shows screen shown shown.length)
    (printable : ∀ c ∈ text, IsPrintable c)
    (fits : shown.length + text.length < screen.width) :
    Shows (screen.display text) (shown ++ text)
      (shown ++ text).length := by
  induction text generalizing screen shown with
  | nil =>
      rw [List.append_nil]
      exact shows
  | cons c text inductionHypothesis =>
      obtain ⟨printableNow, printableLater⟩ :=
        List.forall_mem_cons.mp printable
      obtain ⟨notReturn, notEscape⟩ := printable_not_control c printableNow
      obtain ⟨cells, column, state⟩ := shows
      have fed : screen.feed c = screen.print c := by
        simp only [Screen.feed, state, if_neg notReturn, if_neg notEscape,
          if_pos printableNow]
      have inside : shown.length + 1 ≤ screen.width - 1 := by
        rw [List.length_cons] at fits
        omega
      have printed :
          Shows (screen.print c) (shown ++ [c]) (shown ++ [c]).length := by
        refine ⟨?_, ?_, state⟩
        · change Function.update screen.cells screen.column (some c) = _
          rw [cells, column, update_append]
        · change min (screen.column + 1) (screen.width - 1) = _
          rw [column, Nat.min_eq_left inside, List.length_append]
          rfl
      have fitsLater :
          (shown ++ [c]).length + text.length < (screen.print c).width := by
        rw [List.length_append, List.length_singleton, Nat.add_assoc,
          Nat.add_comm 1]
        exact fits
      have rest := inductionHypothesis printed printableLater fitsLater
      rw [List.append_assoc] at rest
      change Shows ((screen.feed c).display text) _ _
      rw [fed]
      exact rest

/-- CR and ESC `[ K` empty the line. -/
theorem shows_clearLine
    {screen : Screen}
    (state : screen.state = .normal) :
    Shows (screen.display clearLine) [] 0 := by
  rcases screen with ⟨width, cells, column, _⟩
  obtain rfl := state
  refine ⟨?_, rfl, rfl⟩
  funext place
  rfl

/-- ESC `[ C` moves the cursor to the right. -/
theorem shows_stepRight
    {screen : Screen}
    {text : Text}
    {column : Nat}
    (shows : Shows screen text column)
    (fits : column + 1 < screen.width) :
    Shows (screen.display stepRight) text (column + 1) := by
  rcases screen with ⟨width, cells, _, _⟩
  obtain ⟨rfl, rfl, rfl⟩ := shows
  refine ⟨rfl, ?_, rfl⟩
  exact Nat.min_eq_left (Nat.le_sub_one_of_lt fits)

/-- ESC `[ D` moves the cursor to the left. -/
theorem shows_stepLeft
    {screen : Screen}
    {text : Text}
    {column : Nat}
    (shows : Shows screen text column) :
    Shows (screen.display stepLeft) text (column - 1) := by
  rcases screen with ⟨width, cells, _, _⟩
  obtain ⟨rfl, rfl, rfl⟩ := shows
  exact ⟨rfl, rfl, rfl⟩

/-- Digits inside a sequence make a number. -/
theorem display_digits
    {digits : List UInt8}
    (areDigits : ∀ c ∈ digits, IsDigit c)
    {screen : Screen}
    {number : Nat}
    (state : screen.state = .control (some number)) :
    screen.display digits =
      { screen with
        state :=
          .control
            (some
              (digits.foldl
                (fun number c => number * 10 + (c.toNat - 0x30))
                number)) } := by
  induction digits generalizing screen number with
  | nil =>
      rw [List.foldl_nil, ← state]
      rfl
  | cons c digits inductionHypothesis =>
      obtain ⟨digit, digitsLater⟩ := List.forall_mem_cons.mp areDigits
      have fed :
          screen.feed c =
            { screen with
              state :=
                .control (some (number * 10 + (c.toNat - 0x30))) } := by
        simp only [Screen.feed, state, if_pos digit, Option.getD_some]
      change (screen.feed c).display digits = _
      rw [fed, inductionHypothesis digitsLater rfl]
      rfl

/-- The decimal text of a number is read as that number. -/
theorem display_decimalText
    {screen : Screen}
    (state : screen.state = .control none)
    (number : Nat) :
    screen.display (decimalText number) =
      { screen with state := .control (some number) } := by
  have value := decimalValue_decimalDigits number
  have areDigits : ∀ c ∈ decimalDigits number, IsDigit c :=
    fun _ => decimalDigits_digit
  change screen.display (decimalDigits number) = _
  cases digits : decimalDigits number with
  | nil =>
      exact absurd digits (decimalDigits_ne_nil number)
  | cons c rest =>
      rw [digits] at value areDigits
      obtain ⟨digit, digitsLater⟩ := List.forall_mem_cons.mp areDigits
      have fed :
          screen.feed c =
            { screen with
              state := .control (some (0 * 10 + (c.toNat - 0x30))) } := by
        simp only [Screen.feed, state, if_pos digit, Option.getD_none]
      change (screen.feed c).display rest = _
      rw [fed, display_digits digitsLater rfl]
      exact congrArg
        (fun read => { screen with state := .control (some read) }) value

/-- ESC `[ n D` moves the cursor to the left by as many columns. -/
theorem shows_stepsLeft
    {screen : Screen}
    {text : Text}
    {column columns : Nat}
    (shows : Shows screen text column)
    (positive : 0 < columns) :
    Shows (screen.display (stepsLeft columns)) text
      (column - columns) := by
  rcases screen with ⟨width, cells, start, _⟩
  obtain ⟨rfl, rfl, rfl⟩ := shows
  rw [stepsLeft, display_append, display_append,
    display_decimalText rfl columns]
  refine ⟨rfl, ?_, rfl⟩
  change start - max 1 columns = start - columns
  rw [Nat.max_eq_right positive]

/-- A repainted line is shown, whatever the line showed before. -/
theorem shows_repaint
    {screen : Screen}
    (state : screen.state = .normal)
    {prompt : Text}
    {line : Zipper UInt8}
    (printablePrompt : ∀ c ∈ prompt, IsPrintable c)
    (printableLine : ∀ c ∈ line.toList, IsPrintable c)
    (fits : prompt.length + line.toList.length < screen.width) :
    Shows (screen.display (Editor.repaint prompt line))
      (prompt ++ line.toList) (prompt.length + line.index) := by
  have printable : ∀ c ∈ prompt ++ line.toList, IsPrintable c :=
    List.forall_mem_append.mpr ⟨printablePrompt, printableLine⟩
  have fitsText :
      ([] : Text).length + (prompt ++ line.toList).length <
        screen.width := by
    rw [List.length_nil, Nat.zero_add, List.length_append]
    exact fits
  have written :=
    shows_text (shows_clearLine state) printable (by rwa [display_width])
  have length := line.length_eq
  by_cases atEnd : line.right = []
  · have column :
        (prompt ++ line.toList).length = prompt.length + line.index := by
      rw [List.length_append, length, atEnd]
      rfl
    rw [Editor.repaint, if_pos atEnd, List.append_nil, List.append_assoc,
      display_append, ← column]
    exact written
  · have positive : 0 < line.right.length :=
      List.length_pos_iff.mpr atEnd
    have column :
        (prompt ++ line.toList).length - line.right.length =
          prompt.length + line.index := by
      rw [List.length_append, length]
      omega
    have moved := shows_stepsLeft written positive
    rw [Editor.repaint, if_neg atEnd, List.append_assoc, List.append_assoc,
      display_append, ← List.append_assoc, display_append, ← column]
    exact moved

/-! ## Keys -/

/-- Everything that the editor may show is printable. -/
structure PlainEditor (editor : Editor) : Prop where
  line : ∀ c ∈ editor.line.toList, IsPrintable c
  history : ∀ line ∈ editor.history, ∀ c ∈ line, IsPrintable c
  saved : ∀ draft ∈ editor.place.saved?, ∀ c ∈ draft, IsPrintable c

/-- A line is recalled as it was stored. -/
theorem printable_atEnd
    {line : Text}
    (printable : ∀ c ∈ line, IsPrintable c) :
    ∀ c ∈ (Zipper.atEnd line).toList, IsPrintable c := by
  rwa [Zipper.toList_atEnd]

/-- Keys keep the line printable. -/
theorem printable_line_press
    {editor : Editor}
    (plain : PlainEditor editor)
    (key : Key) :
    ∀ c ∈ (editor.press key).line.toList, IsPrintable c := by
  rcases editor with ⟨⟨left, right⟩, older, place⟩
  obtain ⟨plainLine, plainHistory, plainSaved⟩ := plain
  cases key with
  | printable c range =>
      have parts :
          (∀ d ∈ left.reverse, IsPrintable d) ∧
            ∀ d ∈ right, IsPrintable d :=
        List.forall_mem_append.mp plainLine
      have inserted :
          ∀ d ∈ (c :: left).reverse ++ right, IsPrintable d := by
        rw [List.reverse_cons, List.append_assoc]
        exact List.forall_mem_append.mpr
          ⟨parts.1, List.forall_mem_cons.mpr ⟨range, parts.2⟩⟩
      exact inserted
  | erase c delOrBs =>
      intro d member
      refine plainLine d ?_
      rcases List.mem_append.mp member with inLeft | inRight
      · exact List.mem_append_left _
          (List.mem_reverse.mpr
            (List.mem_of_mem_tail (List.mem_reverse.mp inLeft)))
      · exact List.mem_append_right _ inRight
  | up =>
      cases older with
      | nil => exact plainLine
      | cons line older =>
          exact printable_atEnd
            (plainHistory line
              (List.mem_append_left _
                (List.mem_reverse.mpr List.mem_cons_self)))
  | down =>
      cases place with
      | draft => exact plainLine
      | recalled recalled newer draft =>
          cases newer with
          | nil => exact printable_atEnd (plainSaved draft rfl)
          | cons line newer =>
              exact printable_atEnd
                (plainHistory line
                  (List.mem_append_right _
                    (List.mem_cons_of_mem _ List.mem_cons_self)))
  | right =>
      change ∀ d ∈ (Zipper.mk left right).moveRight.toList, IsPrintable d
      rw [Zipper.toList_moveRight]
      exact plainLine
  | left =>
      change ∀ d ∈ (Zipper.mk left right).moveLeft.toList, IsPrintable d
      rw [Zipper.toList_moveLeft]
      exact plainLine
  | sequence inner final innerBytes finalByte notArrow => exact plainLine
  | ignored c control noMeaning => exact plainLine

/-- Keys keep the draft printable that is set aside. -/
theorem printable_saved_press
    {editor : Editor}
    (plain : PlainEditor editor)
    (key : Key) :
    ∀ draft ∈ (editor.press key).place.saved?,
      ∀ c ∈ draft, IsPrintable c := by
  rcases editor with ⟨line, older, place⟩
  cases key with
  | up =>
      cases older with
      | nil => exact plain.saved
      | cons above older =>
          cases place with
          | draft =>
              rintro draft ⟨⟩
              exact plain.line
          | recalled recalled newer draft => exact plain.saved
  | down =>
      cases place with
      | draft => exact plain.saved
      | recalled recalled newer draft =>
          cases newer with
          | nil => exact fun _ none => nomatch none
          | cons _ _ => exact plain.saved
  | printable c range => exact plain.saved
  | erase c delOrBs => exact plain.saved
  | right => exact plain.saved
  | left => exact plain.saved
  | sequence inner final innerBytes finalByte notArrow =>
      exact plain.saved
  | ignored c control noMeaning => exact plain.saved

/-- Keys keep everything printable. -/
theorem plain_press
    {editor : Editor}
    (plain : PlainEditor editor)
    (key : Key) :
    PlainEditor (editor.press key) where
  line := printable_line_press plain key
  history := by
    rw [Editor.history_press]
    exact plain.history
  saved := printable_saved_press plain key

/-- The screen shows the prompt and the line of the editor. -/
abbrev ShowsEditor
    (screen : Screen)
    (prompt : Text)
    (editor : Editor) : Prop :=
  Shows screen (prompt ++ editor.line.toList)
    (prompt.length + editor.line.index)

/-- A character at the end of the line is written without a repaint. -/
theorem shows_appended
    {screen : Screen}
    {prompt left : Text}
    {c : UInt8}
    (shows :
      Shows screen (prompt ++ (Zipper.mk left []).toList)
        (prompt.length + (Zipper.mk left []).index))
    (printable : IsPrintable c)
    (fits :
      prompt.length + (Zipper.mk (c :: left) []).toList.length <
        screen.width) :
    Shows (screen.display [c]) (prompt ++ (Zipper.mk (c :: left) []).toList)
      (prompt.length + (Zipper.mk (c :: left) []).index) := by
  have column (characters : Text) :
      prompt.length + (Zipper.mk characters []).index =
        (prompt ++ characters.reverse).length := by
    simp [Zipper.index]
  have text (characters : Text) :
      (Zipper.mk characters []).toList = characters.reverse :=
    List.append_nil _
  rw [text, column] at shows ⊢
  rw [text, List.length_reverse, List.length_cons] at fits
  have room :
      (prompt ++ left.reverse).length + [c].length < screen.width := by
    rw [List.length_append, List.length_reverse, Nat.add_assoc]
    exact fits
  rw [List.reverse_cons, ← List.append_assoc]
  exact shows_text shows (List.forall_mem_singleton.mpr printable) room

/-- What is written for a key shows what the key does. -/
theorem shows_press
    {screen : Screen}
    {prompt : Text}
    {editor : Editor}
    {key : Key}
    (shows : ShowsEditor screen prompt editor)
    (printablePrompt : ∀ c ∈ prompt, IsPrintable c)
    (plain : PlainEditor (editor.press key))
    (fits :
      prompt.length + (editor.press key).line.toList.length <
        screen.width) :
    ShowsEditor (screen.display (editor.written prompt key)) prompt
      (editor.press key) := by
  have repainted :=
    shows_repaint shows.state printablePrompt plain.line fits
  rcases editor with ⟨⟨left, right⟩, older, place⟩
  cases key with
  | printable c range =>
      by_cases atEnd : right = []
      · rw [Editor.written, if_pos atEnd]
        subst atEnd
        exact shows_appended shows range fits
      · rw [Editor.written, if_neg atEnd]
        exact repainted
  | erase c delOrBs =>
      by_cases atStart : left = []
      · rw [Editor.written, if_pos atStart]
        subst atStart
        exact shows
      · rw [Editor.written, if_neg atStart]
        exact repainted
  | up =>
      by_cases first : older = []
      · rw [Editor.written, if_pos first]
        subst first
        exact shows
      · rw [Editor.written, if_neg first]
        exact repainted
  | down =>
      by_cases last : place = .draft
      · rw [Editor.written, if_pos last]
        subst last
        exact shows
      · rw [Editor.written, if_neg last]
        exact repainted
  | right =>
      cases right with
      | nil => exact shows
      | cons c right =>
          have line := Zipper.toList_moveRight ⟨left, c :: right⟩
          have length := Zipper.length_eq ⟨left, c :: right⟩
          have room : prompt.length + left.length + 1 < screen.width := by
            change
              prompt.length +
                  (Zipper.mk left (c :: right)).moveRight.toList.length <
                screen.width at fits
            rw [line, length] at fits
            change
              prompt.length + (left.length + (right.length + 1)) <
                screen.width at fits
            omega
          change Shows (screen.display stepRight)
            (prompt ++ (Zipper.mk left (c :: right)).moveRight.toList)
            (prompt.length + left.length + 1)
          rw [line]
          exact shows_stepRight shows room
  | left =>
      cases left with
      | nil => exact shows
      | cons c left =>
          change Shows (screen.display stepLeft)
            (prompt ++ (Zipper.mk (c :: left) right).moveLeft.toList)
            (prompt.length + (left.length + 1) - 1)
          rw [Zipper.toList_moveLeft]
          exact shows_stepLeft shows
  | sequence inner final innerBytes finalByte notArrow =>
      exact shows
  | ignored c control noMeaning => exact shows

/-! ## Any keys -/

/-- A line that shows the editor still does so after any keys that fit. -/
theorem passes_show
    (keys : List Key)
    {start : Screen}
    {reader : LineReader}
    {editor : Editor}
    {rest : List UInt8}
    (represents : Represents reader editor)
    (input : reader.input = keys.flatMap Key.encode ++ rest)
    (shows : ShowsEditor (start.display reader.output) reader.prompt editor)
    (printablePrompt : ∀ c ∈ reader.prompt, IsPrintable c)
    (plain : PlainEditor editor)
    (fits :
      ∀ typed,
        typed <+: keys →
        reader.prompt.length + (editor.type typed).line.toList.length <
          start.width) :
    ∃ next, passes keys.length reader = .again next ∧
      Represents next (editor.type keys) ∧
      ShowsEditor (start.display next.output) reader.prompt
        (editor.type keys) := by
  induction keys generalizing reader editor with
  | nil =>
      exact ⟨reader, rfl, represents, shows⟩
  | cons key keys inductionHypothesis =>
      rw [List.flatMap_cons, List.append_assoc] at input
      obtain ⟨next, passed, follows⟩ := pass_follows represents input
      have samePrompt : next.prompt = reader.prompt := follows.prompt
      have plainNext := plain_press plain key
      have fitsNow :
          reader.prompt.length + (editor.press key).line.toList.length <
            (start.display reader.output).width := by
        rw [display_width]
        exact fits [key] (List.cons_prefix_cons.mpr ⟨rfl, List.nil_prefix⟩)
      have showsNext :
          ShowsEditor (start.display next.output) next.prompt
            (editor.press key) := by
        rw [samePrompt, follows.output, display_append]
        exact shows_press shows printablePrompt plainNext fitsNow
      have fitsLater :
          ∀ typed,
            typed <+: keys →
            next.prompt.length +
                ((editor.press key).type typed).line.toList.length <
              start.width := by
        intro typed isPrefix
        rw [samePrompt]
        exact fits (key :: typed)
          (List.cons_prefix_cons.mpr ⟨rfl, isPrefix⟩)
      obtain ⟨last, passedLater, represented, shown⟩ :=
        inductionHypothesis follows.represents follows.input showsNext
          (by rwa [samePrompt]) plainNext fitsLater
      rw [samePrompt] at shown
      refine ⟨last, ?_, represented, shown⟩
      rw [List.length_cons, passes, passed]
      exact passedLater

/-- The editor starts with nothing but the history. -/
theorem plain_start
    {history : List Text}
    (printable : ∀ line ∈ history, ∀ c ∈ line, IsPrintable c) :
    PlainEditor (.start history) where
  line := fun _ member => nomatch member
  history := by
    rw [Editor.history_start]
    exact printable
  saved := fun _ none => nomatch none

/-- The prompt is shown on an empty line. -/
theorem shows_start
    {width : Nat}
    {prompt : Text}
    {history : List Text}
    (printable : ∀ c ∈ prompt, IsPrintable c)
    (fits : prompt.length < width) :
    ShowsEditor ((Screen.empty width).display prompt) prompt
      (.start history) := by
  have blank : Shows (Screen.empty width) [] ([] : Text).length :=
    ⟨rfl, rfl, rfl⟩
  have room : ([] : Text).length + prompt.length < width := by
    rw [List.length_nil, Nat.zero_add]
    exact fits
  have shown := shows_text blank printable room
  rw [List.nil_append] at shown
  change Shows _ (prompt ++ []) prompt.length
  rw [List.append_nil]
  exact shown

/--
On an empty line of a terminal that is wide enough for the prompt and the
buffer after every key, the line shows after each key exactly the prompt and
the buffer, and the cursor of the terminal stands at the cursor of the buffer.
-/
theorem screen_shows_line
    (width : Nat)
    (prompt : Text)
    (history : List Text)
    (keys : List Key)
    (later : List UInt8)
    (printablePrompt : ∀ c ∈ prompt, IsPrintable c)
    (printableHistory : ∀ line ∈ history, ∀ c ∈ line, IsPrintable c)
    (fits :
      ∀ count ≤ keys.length,
        ∀ reader,
          passes count
              (.start prompt history
                (keys.flatMap Key.encode ++ later)) =
            .again reader →
          prompt.length + reader.buf.length < width) :
    ∀ count ≤ keys.length,
      ∃ reader,
        passes count
            (.start prompt history
              (keys.flatMap Key.encode ++ later)) =
          .again reader ∧
        ((Screen.empty width).display reader.output).cells =
          (fun place => (prompt ++ reader.buf)[place]?) ∧
        (((Screen.empty width).display reader.output).column : Int) =
          prompt.length + reader.cursor := by
  have represents :=
    represents_start prompt history (keys.flatMap Key.encode ++ later)
  have parts (typed others : List Key) (split : typed ++ others = keys) :
      keys.flatMap Key.encode ++ later =
        typed.flatMap Key.encode ++
          (others.flatMap Key.encode ++ later) := by
    rw [← List.append_assoc, ← List.flatMap_append, split]
  have fitsEditor :
      ∀ typed,
        typed <+: keys →
        prompt.length +
            ((Editor.start history).type typed).line.toList.length <
          width := by
    rintro typed ⟨others, split⟩
    obtain ⟨reader, passed, _, represented⟩ :=
      passes_follow typed represents (parts typed others split)
    have inside : typed.length ≤ keys.length := by
      rw [← split, List.length_append]
      exact Nat.le_add_right _ _
    rw [← represented.buf]
    exact fits typed.length inside reader passed
  intro count inside
  have isPrefix := List.take_prefix count keys
  have shows : ShowsEditor ((Screen.empty width).display prompt) prompt
      (.start history) :=
    shows_start printablePrompt (fitsEditor [] List.nil_prefix)
  obtain ⟨reader, passed, represented, shown⟩ :=
    passes_show (keys.take count) represents
      (parts _ _ (List.take_append_drop count keys)) shows printablePrompt
      (plain_start printableHistory)
      (fun typed typedPrefix =>
        fitsEditor typed (typedPrefix.trans isPrefix))
  rw [List.length_take_of_le inside] at passed
  refine ⟨reader, passed, ?_, ?_⟩
  · rw [represented.buf]
    exact shown.cells
  · rw [shown.column, represented.cursor]
    exact Int.natCast_add _ _

/-- `$a` on a line of four columns, after a character and the left arrow. -/
theorem screen_shows_short_line :
    ∃ reader,
      passes 2
          (.start [0x24] []
            ([Key.printable 0x61 (by decide +kernel), .left].flatMap
              Key.encode ++ [])) =
        .again reader ∧
      ((Screen.empty 4).display reader.output).cells =
        (fun place => ([0x24] ++ reader.buf)[place]?) ∧
      (((Screen.empty 4).display reader.output).column : Int) =
        ([0x24] : Text).length + reader.cursor := by
  refine screen_shows_line 4 [0x24] []
    [.printable 0x61 (by decide +kernel), .left] []
    (by decide +kernel) (by decide) ?_ 2 (by decide)
  intro count inside reader passed
  have few : count = 0 ∨ count = 1 ∨ count = 2 := by
    change count ≤ 2 at inside
    omega
  rcases few with rfl | rfl | rfl
  · cases passed
    decide
  · cases passed
    decide
  · cases passed
    decide

end RubyOnBareMetal.Shell
