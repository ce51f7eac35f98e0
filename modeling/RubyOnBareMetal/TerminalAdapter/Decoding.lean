import RubyOnBareMetal.Foundation.Decoder
import RubyOnBareMetal.TerminalAdapter.Keyboard

namespace RubyOnBareMetal.TerminalAdapter

open Foundation

/-!
# Decoding undoes the encoding of keys

Every key is encoded so that the reader it reaches takes its bytes and no
more: control sequences end at their only final byte, and the first byte of a
character announces how many follow.
-/

/-- A key as it is pressed; a special key is one of its listed sequences. -/
inductive Keystroke where
  | printable (c : UInt8) (range : 0x20 ≤ c ∧ c ≤ 0x7E)
  | control (c : UInt8) (range : (c ≤ 0x1F ∧ c ≠ 0x1B) ∨ c = 0x7F)
  | character (c : Char) (range : 0x80 ≤ c.toNat)
  | csi (params : List UInt8) (code : Nat)
      (listed : (params, code) ∈ csiKeys)
  | ss3 (c : UInt8) (code : Nat) (listed : (c, code) ∈ ss3Keys)

/-- The bytes that the terminal sends for a key. -/
def Keystroke.encode : Keystroke → List UInt8
  | .printable c _ => [c]
  | .control c _ => [c]
  | .character c _ => String.utf8EncodeChar c
  | .csi params _ _ => 0x1B :: 0x5B :: params
  | .ss3 c _ _ => [0x1B, 0x4F, c]

/-- What the editor expects for a key. -/
def Keystroke.value : Keystroke → Value
  | .printable c _ => .string [c]
  | .control c _ => .integer c.toNat
  | .character c _ => .string (String.utf8EncodeChar c)
  | .csi _ code _ => .integer code
  | .ss3 _ code _ => .integer code

/-! ## Special keys -/

/-- The parameters are read up to the first final byte. -/
theorem readParams_append
    {body : List UInt8}
    {final : UInt8}
    (inner : ∀ b ∈ body, isFinal b = false)
    (ends : isFinal final = true)
    (rest : List UInt8) :
    readParams (body ++ final :: rest) = (body ++ [final], rest) := by
  induction body with
  | nil =>
      simp [readParams, ends]
  | cons b body inductionHypothesis =>
      obtain ⟨notFinal, innerRest⟩ := List.forall_mem_cons.mp inner
      simp [readParams, notFinal, inductionHypothesis innerRest]

/-- Every listed sequence ends at its only final byte. -/
theorem csiKeys_terminated :
    ∀ entry ∈ csiKeys,
      ∃ final ∈ entry.1.getLast?,
        isFinal final = true ∧
          ∀ b ∈ entry.1.dropLast, isFinal b = false := by
  decide +kernel

/-- No listed sequence hides another. -/
theorem csiKeys_distinct :
    ∀ entry ∈ csiKeys, csiKeys.lookup entry.1 = some entry.2 := by
  decide +kernel

theorem ss3Keys_distinct :
    ∀ entry ∈ ss3Keys, ss3Keys.lookup entry.1 = some entry.2 := by
  decide +kernel

/-- A listed control sequence is read as its key. -/
theorem readCsiSequence_listed
    {params : List UInt8}
    {code : Nat}
    (listed : (params, code) ∈ csiKeys)
    (rest : List UInt8)
    (pendingByte : Option UInt8) :
    readCsiSequence ⟨params ++ rest, pendingByte⟩ =
      (.integer code, ⟨rest, pendingByte⟩) := by
  obtain ⟨final, last, ends, inner⟩ := csiKeys_terminated _ listed
  have shape : params.dropLast ++ [final] = params :=
    List.dropLast_append_getLast? final last
  have read := readParams_append inner ends rest
  rw [← List.singleton_append, ← List.append_assoc, shape] at read
  simp [readCsiSequence, read, csiKeys_distinct _ listed]

/-! ## Characters -/

/-- The continuation bytes of a character. -/
abbrev Continues (b : UInt8) : Prop :=
  b &&& 0xC0 = 0x80

/-- The loop takes the continuation bytes it was told to expect. -/
theorem readContinuation_append
    {tail : List UInt8}
    (continues : ∀ b ∈ tail, Continues b)
    (rest : List UInt8)
    (pendingByte : Option UInt8)
    (bytes : List UInt8) :
    readContinuation tail.length ⟨tail ++ rest, pendingByte⟩ bytes =
      (bytes ++ tail, ⟨rest, pendingByte⟩) := by
  induction tail generalizing bytes with
  | nil =>
      simp [readContinuation]
  | cons b tail inductionHypothesis =>
      obtain ⟨continuesNow, continuesLater⟩ :=
        List.forall_mem_cons.mp continues
      simp [readContinuation, readByte, continuesNow,
        inductionHypothesis continuesLater]

/-- Six bits make a continuation byte. -/
theorem continues_ofNat :
    ∀ low < 0x40, Continues (UInt8.ofNat (low + 0x80)) := by
  decide

/-- A first byte is above ASCII and announces the length. -/
abbrev Announces (firstByte : UInt8) (length : Nat) : Prop :=
  0x80 ≤ firstByte ∧ expectedLength? firstByte = some length

theorem announces_two :
    ∀ high < 0x20, Announces (UInt8.ofNat (high + 0xC0)) 2 := by
  decide

theorem announces_three :
    ∀ high < 0x10, Announces (UInt8.ofNat (high + 0xE0)) 3 := by
  decide

theorem announces_four :
    ∀ high < 0x08, Announces (UInt8.ofNat (high + 0xF0)) 4 := by
  decide

/-- UTF-8 announces the length of a character and continues it. -/
theorem utf8EncodeChar_shape {c : Char} (range : 0x80 ≤ c.toNat) :
    ∃ firstByte tail,
      String.utf8EncodeChar c = firstByte :: tail ∧
        Announces firstByte (tail.length + 1) ∧
        ∀ b ∈ tail, Continues b := by
  have continues (n : Nat) :
      Continues (UInt8.ofNat (n % 0x40 + 0x80)) :=
    continues_ofNat _ (Nat.mod_lt _ (by omega))
  change 0x80 ≤ c.val.toNat at range
  unfold String.utf8EncodeChar
  dsimp only
  rw [if_neg (by omega)]
  split
  · refine ⟨_, _, rfl, announces_two _ (Nat.mod_lt _ (by omega)), ?_⟩
    simp only [List.forall_mem_cons]
    exact ⟨continues _, List.forall_mem_nil _⟩
  · split
    · refine ⟨_, _, rfl, announces_three _ (Nat.mod_lt _ (by omega)), ?_⟩
      simp only [List.forall_mem_cons]
      exact ⟨continues _, continues _, List.forall_mem_nil _⟩
    · refine ⟨_, _, rfl, announces_four _ (Nat.mod_lt _ (by omega)), ?_⟩
      simp only [List.forall_mem_cons]
      exact ⟨continues _, continues _, continues _, List.forall_mem_nil _⟩

/-- A whole character is read as a string. -/
theorem handleInputByte_character
    {firstByte : UInt8}
    {tail : List UInt8}
    (announces : Announces firstByte (tail.length + 1))
    (continues : ∀ b ∈ tail, Continues b)
    (rest : List UInt8)
    (pendingByte : Option UInt8) :
    handleInputByte ⟨tail ++ rest, pendingByte⟩ firstByte =
      (.string (firstByte :: tail), ⟨rest, none⟩) := by
  obtain ⟨aboveAscii, length⟩ := announces
  have notEscape : firstByte ≠ 0x1B := by
    rintro rfl
    exact absurd aboveAscii (by decide)
  unfold handleInputByte
  rw [if_neg notEscape]
  dsimp only
  rw [if_pos aboveAscii]
  simp [readUtf8Char, length, readContinuation_append continues]

/-! ## Keys -/

/-- From the encoding of a key `getch` takes the key and nothing else. -/
theorem getch_encode
    (key : Keystroke)
    (rest : List UInt8)
    (pendingByte : Option UInt8) :
    ∃ laterPending,
      getch ⟨key.encode ++ rest, pendingByte⟩ =
        (some key.value, ⟨rest, laterPending⟩) := by
  cases key with
  | printable c range =>
      have notEscape : c ≠ 0x1B := by
        rintro rfl
        exact absurd range (by decide)
      have ascii : ¬0x80 ≤ c := by
        have atMost := range.2
        rw [UInt8.le_iff_toNat_le] at atMost ⊢
        change c.toNat ≤ 126 at atMost
        change ¬128 ≤ c.toNat
        omega
      refine ⟨none, ?_⟩
      simp [getch, readByte, Keystroke.encode, Keystroke.value,
        handleInputByte, notEscape, ascii, range]
  | control c range =>
      have value :
          c ≠ 0x1B ∧ ¬0x80 ≤ c ∧ ¬(0x20 ≤ c ∧ c ≤ 0x7E) := by
        rcases range with ⟨low, notEscape⟩ | rfl
        · refine ⟨notEscape, ?_, ?_⟩
          · rw [UInt8.le_iff_toNat_le] at low ⊢
            change c.toNat ≤ 31 at low
            change ¬128 ≤ c.toNat
            omega
          · rw [UInt8.le_iff_toNat_le] at low
            rw [UInt8.le_iff_toNat_le]
            change c.toNat ≤ 31 at low
            change ¬(32 ≤ c.toNat ∧ _)
            omega
        · decide
      obtain ⟨notEscape, ascii, notPrintable⟩ := value
      refine ⟨none, ?_⟩
      simp only [getch, readByte, Keystroke.encode, Keystroke.value,
        handleInputByte, List.cons_append, List.nil_append,
        if_neg notEscape, if_neg ascii, if_neg notPrintable]
  | character c range =>
      obtain ⟨firstByte, tail, shape, announces, continues⟩ :=
        utf8EncodeChar_shape range
      refine ⟨none, ?_⟩
      simp only [getch, readByte, Keystroke.encode, Keystroke.value, shape,
        List.cons_append,
        handleInputByte_character announces continues]
  | csi params code listed =>
      refine ⟨pendingByte, ?_⟩
      simp only [getch, readByte, Keystroke.encode, Keystroke.value,
        handleInputByte, List.cons_append, if_true,
        readCsiSequence_listed listed]
  | ss3 c code listed =>
      have found := ss3Keys_distinct _ listed
      refine ⟨pendingByte, ?_⟩
      simp [getch, readByte, Keystroke.encode, Keystroke.value,
        handleInputByte, readSs3Sequence, found]

/--
From the concatenated encodings of any keys, repeated calls of `getch` return
the keys in order, one for each keystroke, and then `nil`.
-/
theorem getch_decodes_keystrokes
    (keys : List Keystroke)
    (pendingByte : Option UInt8)
    (more : Nat) :
    keyboard.responses ⟨keys.flatMap Keystroke.encode, pendingByte⟩
        (List.replicate (keys.length + more) ()) =
      keys.map (fun key => some key.value) ++
        List.replicate more none := by
  have decodes :
      ∀ {adapter : Adapter} (key : Keystroke) rest,
        adapter.input = key.encode ++ rest →
        (keyboard.step adapter ()).1 = some key.value ∧
          (keyboard.step adapter ()).2.input = rest := by
    intro adapter key rest stream
    obtain ⟨laterPending, taken⟩ :=
      getch_encode key rest adapter.pendingByte
    rw [← stream] at taken
    change (getch ⟨adapter.input, adapter.pendingByte⟩).1 = _ ∧
      (getch ⟨adapter.input, adapter.pendingByte⟩).2.input = rest
    rw [taken]
    exact ⟨rfl, rfl⟩
  exact keyboard.responses_decode decodes getch_ends keys rfl more

end RubyOnBareMetal.TerminalAdapter
