import RubyOnBareMetal.Shell.LineRefinement
import RubyOnBareMetal.TerminalAdapter.Decoding
import RubyOnBareMetal.UefiConsole.Absorption

namespace RubyOnBareMetal.Shell

open Foundation
open UefiConsole (StandardSequence)

/-!
# Where a control sequence ends

`read_line` goes on while it finds bytes from inside a sequence,
`read_csi_sequence` of the terminal adapter until it finds a byte that ends
one.  On sequences of the standard the two stop at the same place.
-/

/-! ## The states that `read_line` reaches -/

/-- A branch that follows a key leaves the variables of an editor. -/
theorem represented_of_follows
    {reader next : LineReader}
    {editor : Editor}
    {key : Key}
    {outcome : Pass}
    (follows :
      ∃ other, outcome = .again other ∧ Follows reader editor key other)
    (passed : outcome = .again next) :
    ∃ after, Represents next after := by
  obtain ⟨other, same, represents⟩ := follows
  obtain rfl := Pass.again.inj (same.symm.trans passed)
  exact ⟨_, represents.represents⟩

/-- So does the branch of ESC, whatever follows it. -/
theorem escapeSequence_represented
    {reader next : LineReader}
    {editor : Editor}
    (represents : Represents reader editor)
    (passed : escapeSequence reader = .again next) :
    ∃ after, Represents next after := by
  unfold escapeSequence at passed
  split at passed
  · cases passed
  · next c2 rest _ =>
      have afterTwo := represents_left represents rest
      dsimp only at passed
      split at passed
      · split at passed
        · cases passed
        · next c3 others _ =>
            have afterThree := represents_left represents others
            split at passed
            · exact represented_of_follows (arrowUp_follows afterThree) passed
            split at passed
            · exact
                represented_of_follows (arrowDown_follows afterThree) passed
            split at passed
            · exact
                represented_of_follows (arrowRight_follows afterThree) passed
            split at passed
            · exact
                represented_of_follows (arrowLeft_follows afterThree) passed
            split at passed
            · cases passed
            · obtain rfl := Pass.again.inj passed
              exact ⟨editor, represents_left represents _⟩
      · obtain rfl := Pass.again.inj passed
        exact ⟨editor, afterTwo⟩

/-- So does every pass that goes on. -/
theorem pass_represented
    {reader next : LineReader}
    {editor : Editor}
    (represents : Represents reader editor)
    (passed : pass reader = .again next) :
    ∃ after, Represents next after := by
  unfold pass at passed
  split at passed
  · cases passed
  · next c rest _ =>
      have left := represents_left represents rest
      dsimp only at passed
      split at passed
      · cases passed
      split at passed
      · exact escapeSequence_represented left passed
      split at passed
      · next delOrBs =>
          exact
            represented_of_follows (eraseLeft_follows left delOrBs) passed
      split at passed
      · cases passed
      split at passed
      · cases passed
      split at passed
      · obtain ⟨other, same, -, -, -, represented⟩ :=
          insertCharacter_inserts left c
        obtain rfl := Pass.again.inj (same.symm.trans passed)
        exact ⟨_, represented⟩
      · obtain rfl := Pass.again.inj passed
        exact ⟨editor, left⟩

/-- Whatever is read, the variables are those of an editor. -/
theorem passes_represented
    {count : Nat}
    {reader next : LineReader}
    {editor : Editor}
    (represents : Represents reader editor)
    (passed : passes count reader = .again next) :
    ∃ after, Represents next after := by
  induction count generalizing reader editor with
  | zero =>
      obtain rfl := Pass.again.inj passed
      exact ⟨editor, represents⟩
  | succ count inductionHypothesis =>
      rw [passes] at passed
      cases first : pass reader with
      | again middle =>
          rw [first] at passed
          obtain ⟨later, represented⟩ := pass_represented represents first
          exact inductionHypothesis represented passed
      | returned line middle =>
          rw [first] at passed
          cases passed
      | raised failure middle =>
          rw [first] at passed
          cases passed

/-! ## The line after an arrow -/

/-- Repainting changes neither the line nor the place in it. -/
theorem redraw_buf (reader : LineReader) :
    (redraw reader).buf = reader.buf := by
  unfold redraw
  dsimp only
  split <;> rfl

/-- An element found by its index is one of the list. -/
theorem mem_of_element?
    {history : List Text}
    {index : Int}
    {line : Text}
    (found : Ruby.element? history index = some line) :
    line ∈ history := by
  unfold Ruby.element? at found
  split at found
  · exact List.mem_of_getElem? found
  · cases found

/-- A line that is shown is the line of the variables. -/
theorem showLine_buf
    {reader next : LineReader}
    {line? : Option Text}
    (passed : showLine reader line? = .again next) :
    line? = some next.buf := by
  cases line? with
  | none =>
      cases passed
  | some line =>
      obtain rfl := Pass.again.inj passed
      rw [redraw_buf]

/-- Up and Down keep the line or put another one of the editor's in place. -/
theorem arrowUp_buf
    {reader next : LineReader}
    (passed : arrowUp reader = .again next) :
    next.buf = reader.buf ∨ next.buf ∈ reader.history := by
  unfold arrowUp at passed
  split at passed
  · have shown := showLine_buf passed
    have same (saved : LineReader) :
        (if reader.historyIndex = reader.history.length then
            { reader with savedInput := reader.buf }
          else
            reader).history = reader.history := by
      split <;> rfl
    right
    dsimp only at shown
    rw [same reader] at shown
    exact mem_of_element? shown
  · obtain rfl := Pass.again.inj passed
    exact .inl rfl

theorem arrowDown_buf
    {reader next : LineReader}
    (passed : arrowDown reader = .again next) :
    next.buf = reader.buf ∨ next.buf = reader.savedInput ∨
      next.buf ∈ reader.history := by
  unfold arrowDown at passed
  split at passed
  · dsimp only at passed
    split at passed
    · have shown := showLine_buf passed
      exact .inr (.inl (Option.some.inj shown).symm)
    · have shown := showLine_buf passed
      exact .inr (.inr (mem_of_element? shown))
  · obtain rfl := Pass.again.inj passed
    exact .inl rfl

/-- Right and Left keep it. -/
theorem arrowRight_buf
    {reader next : LineReader}
    (passed : arrowRight reader = .again next) :
    next.buf = reader.buf := by
  unfold arrowRight at passed
  split at passed <;>
    · obtain rfl := Pass.again.inj passed
      rfl

theorem arrowLeft_buf
    {reader next : LineReader}
    (passed : arrowLeft reader = .again next) :
    next.buf = reader.buf := by
  unfold arrowLeft at passed
  split at passed <;>
    · obtain rfl := Pass.again.inj passed
      rfl

/-! ## The two readers -/

/-- The sequence is one of the four arrows. -/
def IsArrow (sequence : StandardSequence) : Prop :=
  sequence.body = [] ∧ sequence.final ∈ [0x41, 0x42, 0x43, 0x44]
  deriving Decidable

/-- What `read_line` does with the bytes of a sequence. -/
structure Passes
    (sequence : StandardSequence)
    (reader after : LineReader) :
    Prop where
  history : after.history = reader.history
  line :
    after.buf = reader.buf ∨
      (sequence.body = [] ∧ sequence.final ∈ [0x41, 0x42] ∧
        (after.buf = reader.savedInput ∨ after.buf ∈ reader.history))
  still :
    ¬IsArrow sequence →
    after.cursor = reader.cursor ∧
      after.historyIndex = reader.historyIndex

/-- The bytes inside a sequence are those that `read_line` skips. -/
theorem body_inner (sequence : StandardSequence) :
    ∀ c ∈ sequence.body, isInner c = true := by
  have parameter :
      ∀ c : UInt8, 0x30 ≤ c ∧ c ≤ 0x3F → isInner c = true :=
    forall_byte (by decide +kernel)
  have intermediate :
      ∀ c : UInt8, 0x20 ≤ c ∧ c ≤ 0x2F → isInner c = true :=
    forall_byte (by decide +kernel)
  rw [StandardSequence.body, List.forall_mem_append]
  exact ⟨fun c isParameter =>
      parameter c (sequence.parameterRange c isParameter),
    fun c isIntermediate =>
      intermediate c (sequence.intermediateRange c isIntermediate)⟩

/-- A sequence that is no arrow is passed over. -/
theorem pass_other
    {reader : LineReader}
    {editor : Editor}
    {sequence : StandardSequence}
    {rest : List UInt8}
    (represents : Represents reader editor)
    (input : reader.input = sequence.bytes ++ rest)
    (notArrow : ¬IsArrow sequence) :
    ∃ after, pass reader = .again after ∧ after.input = rest ∧
      Passes sequence reader after := by
  have plain :
      sequence.body = [] →
        sequence.final ∉ [0x41, 0x42, 0x43, 0x44] :=
    fun nothingInside isFinal => notArrow ⟨nothingInside, isFinal⟩
  have encoded :
      reader.input =
        (Key.sequence sequence.body sequence.final (body_inner sequence)
          sequence.finalRange plain).encode ++ rest :=
    input
  obtain ⟨after, passed, follows⟩ := pass_follows represents encoded
  have represented : Represents after editor := follows.represents
  refine ⟨after, passed, follows.input, ?_, .inl ?_, fun _ => ⟨?_, ?_⟩⟩
  · rw [represented.history, represents.history]
  · rw [represented.buf, represents.buf]
  · rw [represented.cursor, represents.cursor]
  · rw [represented.historyIndex, represents.historyIndex]

/-- An arrow is taken with its branch. -/
theorem pass_arrow
    {reader : LineReader}
    {sequence : StandardSequence}
    {rest : List UInt8}
    (input : reader.input = sequence.bytes ++ rest)
    (nothingInside : sequence.body = []) :
    (sequence.final = 0x41 → pass reader = arrowUp (reader.left rest)) ∧
      (sequence.final = 0x42 → pass reader = arrowDown (reader.left rest)) ∧
      (sequence.final = 0x43 →
        pass reader = arrowRight (reader.left rest)) ∧
      (sequence.final = 0x44 →
        pass reader = arrowLeft (reader.left rest)) := by
  have bytes : sequence.bytes = [0x1B, 0x5B, sequence.final] := by
    rw [StandardSequence.bytes, nothingInside]
    rfl
  rw [bytes] at input
  refine ⟨?_, ?_, ?_, ?_⟩ <;>
    · intro isFinal
      rw [isFinal] at input
      simp only [pass, input]
      rfl

/-- Every sequence is taken whole, and no byte of it enters the line. -/
theorem pass_sequence
    {reader : LineReader}
    {editor : Editor}
    {sequence : StandardSequence}
    {rest : List UInt8}
    (represents : Represents reader editor)
    (input : reader.input = sequence.bytes ++ rest) :
    ∃ after, pass reader = .again after ∧ after.input = rest ∧
      Passes sequence reader after := by
  by_cases arrow : IsArrow sequence
  · obtain ⟨nothingInside, isFinal⟩ := arrow
    obtain ⟨up, down, right, left⟩ := pass_arrow input nothingInside
    have represented := represents_left represents rest
    have history
        {key : Key} {after : LineReader}
        (follows : Follows (reader.left rest) editor key after) :
        after.history = reader.history := by
      rw [follows.represents.history, Editor.history_press,
        represents.history]
    have stirred
        {after : LineReader} (moved : ¬IsArrow sequence) :
        after.cursor = reader.cursor ∧
          after.historyIndex = reader.historyIndex :=
      absurd ⟨nothingInside, isFinal⟩ moved
    simp only [List.mem_cons, List.not_mem_nil, or_false] at isFinal
    rcases isFinal with isUp | isDown | isRight | isLeft
    · obtain ⟨after, passed, follows⟩ := arrowUp_follows represented
      refine ⟨after, (up isUp).trans passed, follows.input,
        history follows, ?_, stirred⟩
      refine (arrowUp_buf passed).imp_right fun recalled => ?_
      exact ⟨nothingInside, by simp [isUp], .inr recalled⟩
    · obtain ⟨after, passed, follows⟩ := arrowDown_follows represented
      refine ⟨after, (down isDown).trans passed, follows.input,
        history follows, ?_, stirred⟩
      refine (arrowDown_buf passed).imp_right fun recalled => ?_
      exact ⟨nothingInside, by simp [isDown], recalled⟩
    · obtain ⟨after, passed, follows⟩ := arrowRight_follows represented
      have kept := arrowRight_buf passed
      exact ⟨after, (right isRight).trans passed, follows.input,
        history follows, .inl kept, stirred⟩
    · obtain ⟨after, passed, follows⟩ := arrowLeft_follows represented
      have kept := arrowLeft_buf passed
      exact ⟨after, (left isLeft).trans passed, follows.input,
        history follows, .inl kept, stirred⟩
  · exact pass_other represents input arrow

/-- From a sequence `getch` takes one key and the bytes of the sequence. -/
theorem getch_sequence
    (sequence : StandardSequence)
    (rest : List UInt8)
    (pendingByte : Option UInt8) :
    ∃ code,
      TerminalAdapter.getch ⟨sequence.bytes ++ rest, pendingByte⟩ =
        (some (.integer code), ⟨rest, pendingByte⟩) := by
  have notFinal :
      ∀ c : UInt8, isInner c = true → TerminalAdapter.isFinal c = false :=
    forall_byte (by decide +kernel)
  have ends : TerminalAdapter.isFinal sequence.final = true :=
    decide_eq_true sequence.finalRange
  have read :=
    TerminalAdapter.readParams_append
      (fun c inside => notFinal c (body_inner sequence c inside)) ends rest
  refine ⟨(TerminalAdapter.csiKeys.lookup
    (sequence.body ++ [sequence.final])).getD 0x1B, ?_⟩
  have bytes :
      sequence.bytes ++ rest =
        0x1B :: 0x5B :: (sequence.body ++ sequence.final :: rest) := by
    simp [StandardSequence.bytes, UefiConsole.escapeByte,
      UefiConsole.bracket]
  rw [bytes]
  simp [TerminalAdapter.getch, TerminalAdapter.readByte,
    TerminalAdapter.handleInputByte, TerminalAdapter.readCsiSequence, read]

/--
Wherever `read_line` comes to a control sequence, with any input behind it,
it and `getch` both take the bytes of the sequence and no others.  The line,
the cursor and the place in the history change for an arrow only, the line to
another one that was kept; `getch` returns one key.
-/
theorem control_sequences_delimited_alike
    {prompt : Text}
    {history : List Text}
    {input : List UInt8}
    {count : Nat}
    {reader : LineReader}
    (reached :
      passes count (.start prompt history input) = .again reader)
    {sequence : StandardSequence}
    {rest : List UInt8}
    (next : reader.input = sequence.bytes ++ rest)
    (pendingByte : Option UInt8) :
    (∃ after, pass reader = .again after ∧ after.input = rest ∧
      Passes sequence reader after) ∧
      ∃ code,
        TerminalAdapter.getch ⟨reader.input, pendingByte⟩ =
          (some (.integer code), ⟨rest, pendingByte⟩) := by
  obtain ⟨editor, represents⟩ :=
    passes_represented (represents_start prompt history input) reached
  refine ⟨pass_sequence represents next, ?_⟩
  rw [next]
  exact getch_sequence sequence rest pendingByte

/-- `ESC [ 1 ; 5 SPACE q`, with a parameter list and an intermediate byte. -/
def shapeSequence : StandardSequence where
  parameterBytes := [0x31, 0x3B, 0x35]
  intermediateBytes := [0x20]
  final := 0x71
  parameterRange := by decide +kernel
  intermediateRange := by decide +kernel
  finalRange := by decide +kernel

/-- Typed after an `a` and before a `b`. -/
theorem control_sequences_delimited_alike_typed :
    ∃ reader,
      passes 1
          (.start [0x24] [[0x6C]]
            (0x61 :: shapeSequence.bytes ++ [0x62])) =
        .again reader ∧
      (∃ after, pass reader = .again after ∧ after.input = [0x62] ∧
        Passes shapeSequence reader after) ∧
      ∃ code,
        TerminalAdapter.getch ⟨reader.input, none⟩ =
          (some (.integer code), ⟨[0x62], none⟩) := by
  have reached :
      passes 1
          (.start [0x24] [[0x6C]]
            (0x61 :: shapeSequence.bytes ++ [0x62])) =
        .again _ :=
    rfl
  exact ⟨_, reached, control_sequences_delimited_alike reached rfl none⟩

end RubyOnBareMetal.Shell
