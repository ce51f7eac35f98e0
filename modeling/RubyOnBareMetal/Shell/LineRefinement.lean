import RubyOnBareMetal.Shell.LineEditor

namespace RubyOnBareMetal.Shell

open Foundation

/-!
# The line reader is a line editor

The variables of `read_line` stand for the reference editor: `buf` and
`cursor` for the two sides of its line, `history_index` for the lines above.
Each pass of the loop takes the bytes of one key and does to the variables
what the key does to the editor.
-/

/-! ## The line reader as an editor -/

/-- The variables of the line reader that stand for an editor. -/
structure Represents (reader : LineReader) (editor : Editor) : Prop where
  buf : reader.buf = editor.line.toList
  cursor : reader.cursor = editor.line.index
  history : reader.history = editor.history
  historyIndex : reader.historyIndex = editor.older.length
  savedInput : ∀ draft ∈ editor.place.saved?, reader.savedInput = draft

/-- A pass that takes the bytes of a key and does what the editor does. -/
structure Follows
    (reader : LineReader)
    (editor : Editor)
    (key : Key)
    (next : LineReader) : Prop where
  input : next.input = reader.input
  prompt : next.prompt = reader.prompt
  output :
    next.output = reader.output ++ editor.written reader.prompt key
  represents : Represents next (editor.press key)

/-- A repainted line is the line of the editor. -/
theorem redraw_eq
    {reader : LineReader}
    {line : Zipper UInt8}
    (buf : reader.buf = line.toList)
    (cursor : reader.cursor = line.index) :
    redraw reader = reader.write (Editor.repaint reader.prompt line) := by
  have length := line.length_eq
  by_cases atEnd : line.right = []
  · have last : ¬reader.cursor < line.toList.length := by
      rw [cursor, length, atEnd]
      exact Int.lt_irrefl _
    simp only [redraw, LineReader.write, if_neg last, Editor.repaint, buf,
      if_pos atEnd, List.append_nil]
  · have positive := List.length_pos_iff.mpr atEnd
    have before : reader.cursor < line.toList.length := by
      rw [cursor, length]
      omega
    have columns :
        (line.toList.length : Int) - reader.cursor = line.right.length := by
      rw [cursor, length]
      omega
    simp only [redraw, LineReader.write, if_pos before, columns,
      Editor.repaint, buf, if_neg atEnd, List.append_assoc]

/-- The line that Up and Down show is repainted with the cursor at its end. -/
theorem showLine_some
    (reader : LineReader)
    (line : Text) :
    showLine reader (some line) =
      .again
        ({ reader with buf := line, cursor := line.length }.write
          (Editor.repaint reader.prompt (.atEnd line))) := by
  have painted :
      redraw { reader with buf := line, cursor := line.length } =
        { reader with buf := line, cursor := line.length }.write
          (Editor.repaint reader.prompt (.atEnd line)) :=
    redraw_eq (Zipper.toList_atEnd line).symm
      (congrArg Nat.cast (Zipper.index_atEnd line).symm)
  exact congrArg Pass.again painted

/-- The line of the history right above. -/
theorem element?_above
    {history older newer : List Text}
    {line : Text}
    (shape : history = (line :: older).reverse ++ newer) :
    Ruby.element? history older.length = some line := by
  rw [Ruby.element?_ofNat, shape, List.reverse_cons, List.append_assoc,
    List.getElem?_append_right (by simp)]
  simp

/-- A key without effect is followed by doing nothing. -/
theorem follows_refl
    {reader : LineReader}
    {editor : Editor}
    {key : Key}
    (represents : Represents reader editor)
    (nothing : editor.written reader.prompt key = [])
    (same : editor.press key = editor) :
    Follows reader editor key reader where
  input := rfl
  prompt := rfl
  output := by rw [nothing, List.append_nil]
  represents := by rwa [same]

/-- A reader that shows a line at its end stands for an editor at that line. -/
theorem represents_shown
    (reader : LineReader)
    {editor : Editor}
    {line : Text}
    (atEnd : editor.line = .atEnd line)
    (history : reader.history = editor.history)
    (historyIndex : reader.historyIndex = editor.older.length)
    (savedInput :
      ∀ draft ∈ editor.place.saved?, reader.savedInput = draft)
    (bytes : List UInt8) :
    Represents
      ({ reader with buf := line, cursor := line.length }.write bytes)
      editor where
  buf := by
    rw [atEnd]
    exact (Zipper.toList_atEnd line).symm
  cursor := by
    rw [atEnd]
    exact congrArg Nat.cast (Zipper.index_atEnd line).symm
  history := history
  historyIndex := historyIndex
  savedInput := savedInput

/-- A branch that shows another line follows a key that goes to it. -/
theorem shown_follows
    {reader moved : LineReader}
    {editor : Editor}
    {key : Key}
    {line : Text}
    {outcome : Pass}
    (shown : outcome = showLine moved (some line))
    (unwritten :
      moved.input = reader.input ∧ moved.prompt = reader.prompt ∧
        moved.output = reader.output)
    (written :
      editor.written reader.prompt key =
        Editor.repaint reader.prompt (.atEnd line))
    (atEnd : (editor.press key).line = .atEnd line)
    (history : moved.history = (editor.press key).history)
    (historyIndex :
      moved.historyIndex = (editor.press key).older.length)
    (savedInput :
      ∀ draft ∈ (editor.press key).place.saved?,
        moved.savedInput = draft) :
    ∃ next, outcome = .again next ∧ Follows reader editor key next := by
  obtain ⟨input, prompt, output⟩ := unwritten
  rw [shown, showLine_some]
  refine ⟨_, rfl, input, prompt, ?_, ?_⟩
  · rw [written, ← output, ← prompt]
    rfl
  · exact represents_shown moved atEnd history historyIndex savedInput _

/-- No key changes the history. -/
theorem Represents.history_kept
    {reader : LineReader}
    {editor : Editor}
    (represents : Represents reader editor)
    (key : Key) :
    reader.history = (editor.press key).history := by
  rw [Editor.history_press]
  exact represents.history

/-- The history holds the line above, right before the index. -/
theorem Represents.line_above
    {reader : LineReader}
    {line : Zipper UInt8}
    {above : Text}
    {older : List Text}
    {place : Place}
    (represents : Represents reader ⟨line, above :: older, place⟩) :
    (0 < reader.history.length ∧ 0 < reader.historyIndex) ∧
      reader.historyIndex - 1 = older.length ∧
        Ruby.element? reader.history (reader.historyIndex - 1) =
          some above := by
  have historyIndex := represents.historyIndex
  have history := represents.history
  have previous : reader.historyIndex - 1 = older.length := by
    rw [historyIndex, List.length_cons, Int.natCast_succ]
    exact Int.add_sub_cancel _ 1
  refine ⟨?_, previous, ?_⟩
  · rw [historyIndex, history, List.length_cons]
    simp only [Editor.history, List.length_append, List.length_reverse,
      List.length_cons]
    omega
  · rw [previous]
    exact element?_above history

/-- The branch of the up arrow goes to the line above. -/
theorem arrowUp_follows
    {reader : LineReader}
    {editor : Editor}
    (represents : Represents reader editor) :
    ∃ next, arrowUp reader = .again next ∧
      Follows reader editor .up next := by
  have sameHistory := represents.history_kept .up
  have historyIndex := represents.historyIndex
  have history := represents.history
  rcases editor with ⟨line, older, place⟩
  cases older with
  | nil =>
      have first : ¬(0 < reader.history.length ∧ 0 < reader.historyIndex) := by
        rw [historyIndex]
        rintro ⟨_, above⟩
        exact Int.lt_irrefl _ above
      exact ⟨reader, if_neg first, follows_refl represents rfl rfl⟩
  | cons above older =>
      obtain ⟨notFirst, previous, found⟩ := represents.line_above
      cases place with
      | draft =>
          have last : reader.historyIndex = reader.history.length := by
            rw [historyIndex, history]
            simp [Editor.history]
          have shown :
              arrowUp reader =
                showLine
                  { reader with
                    savedInput := reader.buf
                    historyIndex := reader.historyIndex - 1 }
                  (some above) := by
            simp only [arrowUp, if_pos notFirst, if_pos last, found]
          have saved : ∀ draft ∈ some line.toList, reader.buf = draft := by
            rintro draft ⟨⟩
            exact represents.buf
          exact shown_follows shown ⟨rfl, rfl, rfl⟩ rfl rfl
            sameHistory previous saved
      | recalled left newer draft =>
          have inside : reader.historyIndex ≠ reader.history.length := by
            rw [historyIndex, history]
            simp only [Editor.history, List.length_append,
              List.length_reverse, List.length_cons]
            omega
          have shown :
              arrowUp reader =
                showLine
                  { reader with historyIndex := reader.historyIndex - 1 }
                  (some above) := by
            simp only [arrowUp, if_pos notFirst, if_neg inside, found]
          exact shown_follows shown ⟨rfl, rfl, rfl⟩ rfl rfl
            sameHistory previous represents.savedInput

/-- The index of a recalled line is inside the history. -/
theorem Represents.recalled_inside
    {reader : LineReader}
    {line : Zipper UInt8}
    {left draft : Text}
    {older newer : List Text}
    (represents :
      Represents reader ⟨line, older, .recalled left newer draft⟩) :
    reader.historyIndex + 1 = (left :: older).length ∧
      (reader.history.length : Int) =
        reader.historyIndex + 1 + newer.length := by
  have index : reader.historyIndex = older.length :=
    represents.historyIndex
  rw [represents.history, index]
  constructor
  · rw [List.length_cons, Int.natCast_succ]
  · simp only [Editor.history, List.length_append, List.length_reverse,
      List.length_cons]
    omega

/-- The branch of the down arrow goes to the line below. -/
theorem arrowDown_follows
    {reader : LineReader}
    {editor : Editor}
    (represents : Represents reader editor) :
    ∃ next, arrowDown reader = .again next ∧
      Follows reader editor .down next := by
  have sameHistory := represents.history_kept .down
  have history := represents.history
  rcases editor with ⟨line, older, place⟩
  cases place with
  | draft =>
      have last : ¬reader.historyIndex < reader.history.length := by
        rw [represents.historyIndex, history]
        simp [Editor.history]
      exact ⟨reader, if_neg last, follows_refl represents rfl rfl⟩
  | recalled left newer draft =>
      obtain ⟨next, length⟩ := represents.recalled_inside
      have inside : reader.historyIndex < reader.history.length := by
        omega
      have saved : reader.savedInput = draft :=
        represents.savedInput draft rfl
      cases newer with
      | nil =>
          have last :
              reader.historyIndex + 1 = reader.history.length := by
            rw [length]
            exact (Int.add_zero _).symm
          have shown :
              arrowDown reader =
                showLine
                  { reader with historyIndex := reader.historyIndex + 1 }
                  (some draft) := by
            simp only [arrowDown, if_pos inside, if_pos last, saved]
          exact shown_follows shown ⟨rfl, rfl, rfl⟩ rfl rfl
            sameHistory next (by intro _ none; cases none)
      | cons below newer =>
          have notLast :
              reader.historyIndex + 1 ≠ reader.history.length := by
            rw [length, List.length_cons]
            omega
          have found :
              Ruby.element? reader.history (reader.historyIndex + 1) =
                some below := by
            rw [next]
            have shape :
                reader.history = (below :: left :: older).reverse ++ newer := by
              rw [history]
              simp [Editor.history]
            exact element?_above shape
          have shown :
              arrowDown reader =
                showLine
                  { reader with historyIndex := reader.historyIndex + 1 }
                  (some below) := by
            simp only [arrowDown, if_pos inside, if_neg notLast, found]
          exact shown_follows shown ⟨rfl, rfl, rfl⟩ rfl rfl
            sameHistory next represents.savedInput

/-- The branch of the right arrow moves over a character. -/
theorem arrowRight_follows
    {reader : LineReader}
    {editor : Editor}
    (represents : Represents reader editor) :
    ∃ next, arrowRight reader = .again next ∧
      Follows reader editor .right next := by
  rcases editor with ⟨⟨left, right⟩, older, place⟩
  obtain ⟨buf, cursor, history, historyIndex, savedInput⟩ := represents
  have length := Zipper.length_eq ⟨left, right⟩
  cases right with
  | nil =>
      have last : ¬reader.cursor < reader.buf.length := by
        rw [buf, cursor, length]
        exact Int.lt_irrefl _
      exact ⟨reader, if_neg last,
        follows_refl ⟨buf, cursor, history, historyIndex, savedInput⟩
          rfl rfl⟩
  | cons c right =>
      have inside : reader.cursor < reader.buf.length := by
        rw [buf, cursor, length]
        exact Int.lt_add_of_pos_right _ (Int.natCast_pos.mpr (Nat.succ_pos _))
      refine ⟨_, if_pos inside, rfl, rfl, rfl, ?_⟩
      exact {
        buf := buf.trans (Zipper.toList_moveRight ⟨left, c :: right⟩).symm
        cursor := congrArg (· + 1) cursor
        history := history
        historyIndex := historyIndex
        savedInput := savedInput
      }

/-- With nothing before it the cursor stands at the beginning. -/
theorem Represents.cursor_first
    {reader : LineReader}
    {right : Text}
    {older : List Text}
    {place : Place}
    (represents : Represents reader ⟨⟨[], right⟩, older, place⟩) :
    ¬0 < reader.cursor := by
  rw [represents.cursor]
  exact Int.lt_irrefl _

/-- Before the cursor there are the characters of the line up to it. -/
theorem Represents.cursor_inside
    {reader : LineReader}
    {c : UInt8}
    {left right : Text}
    {older : List Text}
    {place : Place}
    (represents : Represents reader ⟨⟨c :: left, right⟩, older, place⟩) :
    0 < reader.cursor ∧ reader.cursor - 1 = left.length := by
  have index : reader.cursor = (left.length : Int) + 1 :=
    represents.cursor
  rw [index, Int.add_sub_cancel]
  exact ⟨by omega, rfl⟩

/-- The branch of the left arrow moves back over a character. -/
theorem arrowLeft_follows
    {reader : LineReader}
    {editor : Editor}
    (represents : Represents reader editor) :
    ∃ next, arrowLeft reader = .again next ∧
      Follows reader editor .left next := by
  rcases editor with ⟨⟨left, right⟩, older, place⟩
  cases left with
  | nil =>
      exact ⟨reader, if_neg represents.cursor_first,
        follows_refl represents rfl rfl⟩
  | cons c left =>
      obtain ⟨inside, previous⟩ := represents.cursor_inside
      refine ⟨_, if_pos inside, rfl, rfl, rfl, ?_⟩
      exact {
        buf :=
          represents.buf.trans
            (Zipper.toList_moveLeft ⟨c :: left, right⟩).symm
        cursor := previous
        history := represents.history
        historyIndex := represents.historyIndex
        savedInput := represents.savedInput
      }

/-- The characters from the cursor on are cut out of `buf`. -/
theorem sliceFrom?_cursor
    {reader : LineReader}
    {editor : Editor}
    (represents : Represents reader editor) :
    Ruby.sliceFrom? reader.buf reader.cursor = some editor.line.right := by
  rw [represents.buf, represents.cursor,
    Ruby.sliceFrom?_ofNat editor.line.index_le_length,
    editor.line.drop_index]

/-- The branch of DEL and BS removes the character before the cursor. -/
theorem eraseLeft_follows
    {reader : LineReader}
    {editor : Editor}
    (represents : Represents reader editor)
    {c : UInt8}
    (delOrBs : c = 0x7F ∨ c = 0x08) :
    ∃ next, eraseLeft reader = .again next ∧
      Follows reader editor (.erase c delOrBs) next := by
  have after := sliceFrom?_cursor represents
  rcases editor with ⟨⟨left, right⟩, older, place⟩
  cases left with
  | nil =>
      exact ⟨reader, if_neg represents.cursor_first,
        follows_refl represents rfl rfl⟩
  | cons removed left =>
      obtain ⟨inside, previous⟩ := represents.cursor_inside
      have before :
          Ruby.sliceBefore reader.buf left.length = left.reverse := by
        rw [Ruby.sliceBefore_ofNat, represents.buf]
        simp [Zipper.toList]
      have painted :
          redraw
              { reader with
                buf := left.reverse ++ right
                cursor := left.length } =
            { reader with
              buf := left.reverse ++ right
              cursor := left.length }.write
                (Editor.repaint reader.prompt ⟨left, right⟩) :=
        redraw_eq rfl rfl
      have erased :
          eraseLeft reader =
            .again
              ({ reader with
                buf := left.reverse ++ right
                cursor := left.length }.write
                  (Editor.repaint reader.prompt ⟨left, right⟩)) := by
        simp only [eraseLeft, if_pos inside, after, previous, before, painted]
      refine ⟨_, erased, rfl, rfl, rfl, ?_⟩
      exact {
        buf := rfl
        cursor := rfl
        history := represents.history
        historyIndex := represents.historyIndex
        savedInput := represents.savedInput
      }

/-- The branch of a character puts it before the cursor. -/
theorem insertCharacter_inserts
    {reader : LineReader}
    {editor : Editor}
    (represents : Represents reader editor)
    (c : UInt8) :
    ∃ next, insertCharacter reader c = .again next ∧
      next.input = reader.input ∧
      next.prompt = reader.prompt ∧
      next.output =
        reader.output ++
          (if editor.line.right = [] then
            [c]
          else
            Editor.repaint reader.prompt (editor.line.insert c)) ∧
      Represents next { editor with line := editor.line.insert c } := by
  have after := sliceFrom?_cursor represents
  rcases editor with ⟨⟨left, right⟩, older, place⟩
  obtain ⟨buf, cursor, history, historyIndex, savedInput⟩ := represents
  have before : Ruby.sliceBefore reader.buf reader.cursor = left.reverse := by
    rw [buf, cursor, Ruby.sliceBefore_ofNat, Zipper.take_index]
  have index : reader.cursor = left.length := cursor
  let inserted : LineReader :=
    { reader with
      buf := left.reverse ++ [c] ++ right
      cursor := reader.cursor + 1 }
  have insertedBuf :
      inserted.buf = (Zipper.mk (c :: left) right).toList := by
    simp [inserted, Zipper.toList]
  have insertedCursor :
      inserted.cursor = (Zipper.mk (c :: left) right).index :=
    congrArg (· + 1) index
  have represented (bytes : List UInt8) :
      Represents (inserted.write bytes)
        ⟨⟨c :: left, right⟩, older, place⟩ :=
    ⟨insertedBuf, insertedCursor, history, historyIndex, savedInput⟩
  have length := Zipper.length_eq ⟨c :: left, right⟩
  cases right with
  | nil =>
      have last : inserted.cursor = inserted.buf.length := by
        rw [insertedCursor, insertedBuf, length]
        rfl
      have appended :
          insertCharacter reader c = .again (inserted.write [c]) := by
        simp only [insertCharacter, after, before]
        exact if_pos last
      exact ⟨_, appended, rfl, rfl, rfl, represented _⟩
  | cons next right =>
      have notLast : inserted.cursor ≠ inserted.buf.length := by
        rw [insertedCursor, insertedBuf, length]
        simp
        omega
      have drawn :
          insertCharacter reader c =
            .again
              (inserted.write
                (Editor.repaint reader.prompt
                  ⟨c :: left, next :: right⟩)) := by
        simp only [insertCharacter, after, before]
        exact (if_neg notLast).trans
          (congrArg Pass.again (redraw_eq insertedBuf insertedCursor))
      exact ⟨_, drawn, rfl, rfl, rfl, represented _⟩

/-- A printable character is inserted as the editor does it. -/
theorem insertCharacter_follows
    {reader : LineReader}
    {editor : Editor}
    (represents : Represents reader editor)
    {c : UInt8}
    (range : 0x20 ≤ c ∧ c ≤ 0x7E) :
    ∃ next, insertCharacter reader c = .again next ∧
      Follows reader editor (.printable c range) next := by
  obtain ⟨next, passed, input, prompt, output, represented⟩ :=
    insertCharacter_inserts represents c
  exact ⟨next, passed, input, prompt, output, represented⟩

/-! ## One key -/

/-- A final byte ends an unknown sequence. -/
theorem skipSequence_final
    {final : UInt8}
    (ends : isInner final = false)
    (rest : List UInt8) :
    skipSequence final rest = some rest := by
  cases rest <;> simp [skipSequence, ends]

/-- An unknown sequence is skipped up to its final byte. -/
theorem skipSequence_append
    {inner : List UInt8}
    {final : UInt8}
    (innerBytes : ∀ c ∈ inner, isInner c = true)
    (ends : isInner final = false)
    (rest : List UInt8)
    {c3 : UInt8}
    {others : List UInt8}
    (shape : inner ++ [final] = c3 :: others) :
    skipSequence c3 (others ++ rest) = some rest := by
  induction inner generalizing c3 others with
  | nil =>
      obtain ⟨rfl, rfl⟩ := List.cons.inj shape
      exact skipSequence_final ends rest
  | cons c inner inductionHypothesis =>
      obtain ⟨rfl, tail⟩ := List.cons.inj shape
      obtain ⟨innerNow, innerLater⟩ := List.forall_mem_cons.mp innerBytes
      cases others with
      | nil =>
          exact absurd tail (List.append_ne_nil_of_right_ne_nil _
            (List.cons_ne_nil _ _))
      | cons d others =>
          rw [List.cons_append, skipSequence, if_pos innerNow]
          exact inductionHypothesis innerLater tail

/-- A final byte is no byte from inside a sequence. -/
theorem final_not_inner :
    ∀ final : UInt8,
      0x40 ≤ final ∧ final ≤ 0x7E → isInner final = false :=
  forall_byte (by decide +kernel)

/-- A sequence that is no arrow does not start like one. -/
theorem sequence_head
    {inner : List UInt8}
    {final c3 : UInt8}
    {others : List UInt8}
    (innerBytes : ∀ c ∈ inner, isInner c = true)
    (notArrow : inner = [] → final ∉ [0x41, 0x42, 0x43, 0x44])
    (shape : inner ++ [final] = c3 :: others) :
    c3 ∉ [0x41, 0x42, 0x43, 0x44] := by
  cases inner with
  | nil =>
      obtain ⟨rfl, _⟩ := List.cons.inj shape
      exact notArrow rfl
  | cons c inner =>
      obtain ⟨rfl, _⟩ := List.cons.inj shape
      have innerNow := innerBytes c List.mem_cons_self
      intro arrow
      simp only [List.mem_cons, List.not_mem_nil, or_false] at arrow
      rcases arrow with rfl | rfl | rfl | rfl <;>
        exact absurd innerNow (by decide)

/-- A printable character has no other meaning. -/
theorem printable_plain :
    ∀ c : UInt8,
      0x20 ≤ c ∧ c ≤ 0x7E →
      ¬(c = 0x0A ∨ c = 0x0D) ∧ c ≠ 0x1B ∧ ¬(c = 0x7F ∨ c = 0x08) ∧
        c ≠ 0x03 ∧ c ≠ 0x04 ∧ 32 ≤ c :=
  forall_byte (by decide +kernel)

/-- A control byte that is ignored has no other meaning. -/
theorem ignored_plain :
    ∀ c : UInt8,
      c < 0x20 ∧ c ∉ [0x03, 0x04, 0x08, 0x0A, 0x0D, 0x1B] →
      ¬(c = 0x0A ∨ c = 0x0D) ∧ c ≠ 0x1B ∧ ¬(c = 0x7F ∨ c = 0x08) ∧
        c ≠ 0x03 ∧ c ≠ 0x04 ∧ ¬32 ≤ c :=
  forall_byte (by decide +kernel)

/-- The variables with the input that is left after a key. -/
abbrev LineReader.left (reader : LineReader) (rest : List UInt8) :
    LineReader :=
  { reader with input := rest }

/-- The variables that stand for an editor do not include the input. -/
theorem represents_left
    {reader : LineReader}
    {editor : Editor}
    (represents : Represents reader editor)
    (rest : List UInt8) :
    Represents (reader.left rest) editor where
  buf := represents.buf
  cursor := represents.cursor
  history := represents.history
  historyIndex := represents.historyIndex
  savedInput := represents.savedInput

/-- A pass takes the bytes of one key and does what the editor does. -/
theorem pass_follows
    {reader : LineReader}
    {editor : Editor}
    {key : Key}
    {rest : List UInt8}
    (represents : Represents reader editor)
    (input : reader.input = key.encode ++ rest) :
    ∃ next, pass reader = .again next ∧
      Follows (reader.left rest) editor key next := by
  have represented := represents_left represents rest
  cases key with
  | printable c range =>
      obtain ⟨notEnter, notEscape, notErase, notInterrupt, notEnd, atLeast⟩ :=
        printable_plain c range
      have passed :
          pass reader = insertCharacter (reader.left rest) c := by
        simp only [pass, input, Key.encode, List.singleton_append,
          if_neg notEnter, if_neg notEscape, if_neg notErase,
          if_neg notInterrupt, if_neg notEnd, if_pos atLeast]
      rw [passed]
      exact insertCharacter_follows represented range
  | erase c delOrBs =>
      have passed : pass reader = eraseLeft (reader.left rest) := by
        rcases delOrBs with rfl | rfl <;>
          simp only [pass, input, Key.encode, List.singleton_append] <;>
          rfl
      rw [passed]
      exact eraseLeft_follows represented delOrBs
  | up =>
      have passed : pass reader = arrowUp (reader.left rest) := by
        simp only [pass, input, Key.encode]
        rfl
      rw [passed]
      exact arrowUp_follows represented
  | down =>
      have passed : pass reader = arrowDown (reader.left rest) := by
        simp only [pass, input, Key.encode]
        rfl
      rw [passed]
      exact arrowDown_follows represented
  | right =>
      have passed : pass reader = arrowRight (reader.left rest) := by
        simp only [pass, input, Key.encode]
        rfl
      rw [passed]
      exact arrowRight_follows represented
  | left =>
      have passed : pass reader = arrowLeft (reader.left rest) := by
        simp only [pass, input, Key.encode]
        rfl
      rw [passed]
      exact arrowLeft_follows represented
  | sequence inner final innerBytes finalByte notArrow =>
      have ends := final_not_inner final finalByte
      cases shape : inner ++ [final] with
      | nil =>
          exact absurd shape (List.append_ne_nil_of_right_ne_nil _
            (List.cons_ne_nil _ _))
      | cons c3 others =>
          have skipped := skipSequence_append innerBytes ends rest shape
          have notListed := sequence_head innerBytes notArrow shape
          simp only [List.mem_cons, List.not_mem_nil, or_false,
            not_or] at notListed
          obtain ⟨notUp, notDown, notRight, notLeft⟩ := notListed
          have passed : pass reader = .again (reader.left rest) := by
            simp only [pass, input, Key.encode, shape, List.cons_append,
              escapeSequence, if_true, if_neg notUp, if_neg notDown,
              if_neg notRight, if_neg notLeft, skipped]
            rfl
          exact ⟨_, passed, follows_refl represented rfl rfl⟩
  | ignored c control noMeaning =>
      obtain ⟨notEnter, notEscape, notErase, notInterrupt, notEnd, below⟩ :=
        ignored_plain c ⟨control, noMeaning⟩
      have passed : pass reader = .again (reader.left rest) := by
        simp only [pass, input, Key.encode, List.singleton_append,
          if_neg notEnter, if_neg notEscape, if_neg notErase,
          if_neg notInterrupt, if_neg notEnd, if_neg below]
      exact ⟨_, passed, follows_refl represented rfl rfl⟩

/-! ## Any keys -/

/-- The loop after the bytes of some keys, before anything that follows. -/
theorem passes_follow
    (keys : List Key)
    {reader : LineReader}
    {editor : Editor}
    {rest : List UInt8}
    (represents : Represents reader editor)
    (input : reader.input = keys.flatMap Key.encode ++ rest) :
    ∃ next, passes keys.length reader = .again next ∧
      next.input = rest ∧
      Represents next (editor.type keys) := by
  induction keys generalizing reader editor with
  | nil =>
      exact ⟨reader, rfl, input, represents⟩
  | cons key keys inductionHypothesis =>
      rw [List.flatMap_cons, List.append_assoc] at input
      obtain ⟨next, passed, follows⟩ := pass_follows represents input
      obtain ⟨last, passedLater, left, represented⟩ :=
        inductionHypothesis follows.represents follows.input
      refine ⟨last, ?_, left, represented⟩
      rw [List.length_cons, passes, passed]
      exact passedLater

/-- Passes go on where the passes before them stopped. -/
theorem passes_add
    (first second : Nat)
    (reader : LineReader) :
    passes (first + second) reader =
      match passes first reader with
      | .again reader => passes second reader
      | .returned line reader => .returned line reader
      | .raised failure reader => .raised failure reader := by
  induction first generalizing reader with
  | zero =>
      rw [Nat.zero_add, passes]
  | succ first inductionHypothesis =>
      rw [Nat.succ_add, passes, passes]
      cases pass reader with
      | again reader => exact inductionHypothesis reader
      | returned line reader => rfl
      | raised failure reader => rfl

/-- The variables before the loop stand for an empty draft. -/
theorem represents_start
    (prompt : Text)
    (history : List Text)
    (input : List UInt8) :
    Represents (.start prompt history input) (.start history) where
  buf := rfl
  cursor := rfl
  history := (Editor.history_start history).symm
  historyIndex := by simp [LineReader.start, Editor.start]
  savedInput := fun _ none => nomatch none

/-- Every key has a byte. -/
theorem length_le_encode (keys : List Key) :
    keys.length ≤ (keys.flatMap Key.encode).length := by
  induction keys with
  | nil =>
      exact Nat.le_refl 0
  | cons key keys inductionHypothesis =>
      have positive : 0 < key.encode.length := by
        cases key <;> exact Nat.succ_pos _
      rw [List.flatMap_cons, List.length_append, List.length_cons]
      omega

/-- The line and the position in it and in the history are inside bounds. -/
structure InBounds (reader : LineReader) : Prop where
  cursorNonneg : 0 ≤ reader.cursor
  cursorLe : reader.cursor ≤ reader.buf.length
  historyIndexNonneg : 0 ≤ reader.historyIndex
  historyIndexLe : reader.historyIndex ≤ reader.history.length

/-- Variables that stand for an editor are inside bounds. -/
theorem inBounds_of_represents
    {reader : LineReader}
    {editor : Editor}
    (represents : Represents reader editor) :
    InBounds reader where
  cursorNonneg := by
    rw [represents.cursor]
    exact Int.natCast_nonneg _
  cursorLe := by
    rw [represents.cursor, represents.buf]
    exact Int.ofNat_le.mpr editor.line.index_le_length
  historyIndexNonneg := by
    rw [represents.historyIndex]
    exact Int.natCast_nonneg _
  historyIndexLe := by
    rw [represents.historyIndex, represents.history, Editor.history,
      List.length_append, List.length_reverse]
    exact Int.ofNat_le.mpr (Nat.le_add_right _ _)

/-- CR and LF return the line. -/
theorem pass_enter
    {reader : LineReader}
    {enter : UInt8}
    {later : List UInt8}
    (input : reader.input = enter :: later)
    (isEnter : enter = 0x0A ∨ enter = 0x0D) :
    pass reader =
      .returned reader.buf ((reader.left later).write [0x0A]) := by
  simp only [pass, input, if_pos isEnter]

/--
For every prompt, history and keys, ended by CR or LF, the loop comes back
after each key with its indices inside bounds and the history as it was, and
`read_line` returns the line of the reference editor, which keeps the draft
over every excursion into the history.
-/
theorem read_line_refines_editor
    (prompt : Text)
    (history : List Text)
    (keys : List Key)
    (enter : UInt8)
    (isEnter : enter = 0x0A ∨ enter = 0x0D)
    (later : List UInt8) :
    (∀ count ≤ keys.length,
      ∃ reader,
        passes count
            (.start prompt history
              (keys.flatMap Key.encode ++ enter :: later)) =
          .again reader ∧
        InBounds reader ∧
        reader.history = history ∧
        reader.buf =
          ((Editor.start history).type (keys.take count)).line.toList ∧
        reader.cursor =
          ((Editor.start history).type (keys.take count)).line.index) ∧
    (∃ reader,
      readLine prompt history
          (keys.flatMap Key.encode ++ enter :: later) =
        .returned ((Editor.start history).type keys).line.toList reader ∧
      reader.input = later ∧
      reader.history = history) ∧
    ∀ before first middle last,
      keys = before ++ first :: (middle ++ [last]) →
      Editor.Excursion ((Editor.start history).type before)
        first middle last →
      ((Editor.start history).type keys).line =
        .atEnd ((Editor.start history).type before).line.toList := by
  have sameHistory (some : List Key) :
      ((Editor.start history).type some).history = history := by
    rw [Editor.history_type, Editor.history_start]
  refine ⟨?_, ?_, ?_⟩
  · intro count inside
    have parts :
        keys.flatMap Key.encode ++ enter :: later =
          (keys.take count).flatMap Key.encode ++
            ((keys.drop count).flatMap Key.encode ++ enter :: later) := by
      rw [← List.append_assoc, ← List.flatMap_append,
        List.take_append_drop]
    obtain ⟨reader, passed, _, represents⟩ :=
      passes_follow (keys.take count)
        (represents_start prompt history _) parts
    rw [List.length_take_of_le inside] at passed
    exact ⟨reader, passed, inBounds_of_represents represents,
      represents.history.trans (sameHistory _), represents.buf,
      represents.cursor⟩
  · obtain ⟨reader, passed, input, represents⟩ :=
      passes_follow keys (represents_start prompt history _) rfl
    have enough :
        keys.length + 1 ≤
          (keys.flatMap Key.encode ++ enter :: later).length + 1 := by
      rw [List.length_append]
      exact Nat.succ_le_succ
        (Nat.le_trans (length_le_encode keys) (Nat.le_add_right _ _))
    obtain ⟨more, total⟩ := Nat.exists_eq_add_of_le enough
    refine ⟨(reader.left later).write [0x0A], ?_, rfl,
      represents.history.trans (sameHistory keys)⟩
    rw [readLine, total, Nat.add_assoc, passes_add, passed]
    dsimp only
    rw [Nat.add_comm 1 more, passes, pass_enter input isEnter]
    dsimp only
    rw [represents.buf]
  · rintro before first middle last rfl excursion
    rw [Editor.type_append, Editor.type_cons, Editor.type_append]
    exact Editor.excursion_restores_draft excursion

/-- A recalled `l`, completed to `ls`, is returned although a draft was begun. -/
theorem read_line_completes_recalled :
    ∃ reader,
      readLine [0x24] [[0x6C]]
          ([Key.printable 0x61 (by decide), .up,
            .printable 0x73 (by decide)].flatMap Key.encode ++ [0x0D]) =
        .returned [0x6C, 0x73] reader ∧
      reader.input = [] ∧
      reader.history = [[0x6C]] :=
  (read_line_refines_editor [0x24] [[0x6C]]
    [.printable 0x61 (by decide), .up, .printable 0x73 (by decide)]
    0x0D (.inr rfl) []).2.1

end RubyOnBareMetal.Shell
