import RubyOnBareMetal.UefiConsole.KeyInput

namespace RubyOnBareMetal.UefiConsole

open Foundation

/-!
# Which characters can be told apart

`uefi_console_getc` turns the 16 bits of a character into one byte.  What the
bytes of a run say about the characters typed depends on which characters can
be typed at all.
-/

/-- The key that a stroke delivers. -/
def Stroke.key? : Stroke → Option InputKey
  | .success key => some key
  | .failure _ _ => none

/-- The keys that are typed, in order. -/
def typedKeys (strokes : List Stroke) : List InputKey :=
  strokes.filterMap Stroke.key?

/-- The intended translation, CR to LF. -/
def translated (character : UInt16) : UInt16 :=
  if character = 0x0D then 0x0A else character

/-- Keys with characters of a repertoire, and polls that find no key yet. -/
def Typed (repertoire : UInt16 → Prop) (strokes : List Stroke) : Prop :=
  ∀ stroke ∈ strokes,
    match stroke with
    | .success key =>
        key.unicodeChar ≠ 0 ∧ repertoire key.unicodeChar
    | .failure status _ => status = efiNotReady

/-- The responses to reads of these lengths, from boot. -/
def readResponses
    (strokes : List Stroke)
    (lengths : List Nat) :
    List InputResult :=
  keyInput.responses (.boot true strokes) (lengths.map .read)

/-- The bytes that they deliver. -/
def deliveredBytes
    (strokes : List Stroke)
    (lengths : List Nat) :
    List UInt8 :=
  (readResponses strokes lengths).flatMap InputResult.handed

/-- Every read has returned. -/
def AllReturned (strokes : List Stroke) (lengths : List Nat) : Prop :=
  .waiting ∉ readResponses strokes lengths
  deriving Decidable

/-- Equal bytes come from equal characters, up to the translation. -/
def Determined (repertoire : UInt16 → Prop) : Prop :=
  ∀ strokes strokes' lengths lengths',
    Typed repertoire strokes →
    Typed repertoire strokes' →
    AllReturned strokes lengths →
    AllReturned strokes' lengths' →
    deliveredBytes strokes lengths = deliveredBytes strokes' lengths' →
    ((typedKeys strokes).take (deliveredBytes strokes lengths).length).map
        (fun key => translated key.unicodeChar) =
      ((typedKeys strokes').take
        (deliveredBytes strokes' lengths').length).map
          (fun key => translated key.unicodeChar)

/-- No character outside ASCII is delivered as a byte of ASCII. -/
def Undisguised (repertoire : UInt16 → Prop) : Prop :=
  ∀ strokes lengths,
    Typed repertoire strokes →
    AllReturned strokes lengths →
    ∀ (index : Nat) (key : InputKey) (byte : UInt8),
      (typedKeys strokes)[index]? = some key →
      (deliveredBytes strokes lengths)[index]? = some byte →
      0x80 ≤ key.unicodeChar →
      0x80 ≤ byte

/-- No two characters of the repertoire have the same low byte. -/
def DistinctLowBytes (repertoire : UInt16 → Prop) : Prop :=
  ∀ first second,
    first ≠ 0 →
    second ≠ 0 →
    repertoire first →
    repertoire second →
    (translated first).toUInt8 = (translated second).toUInt8 →
    translated first = translated second

/-- None outside ASCII has the low byte of one in it. -/
def HighLowBytes (repertoire : UInt16 → Prop) : Prop :=
  ∀ character,
    repertoire character →
    0x80 ≤ character →
    0x80 ≤ character.toUInt8

/-! ## What the reads deliver -/

/-- The byte of a key is the low byte of its translated character. -/
theorem keyByte_eq (key : InputKey) :
    keyByte key = (translated key.unicodeChar).toUInt8 := by
  unfold keyByte keyChar translated
  split
  · decide
  · split
    · rw [Int32.toUInt32_ofNat', UInt32.toUInt8_ofNat',
        UInt8.ofNat_toNat]
    · next zero =>
        rw [not_not.mp zero]
        decide

/-- The keys still to come follow the keys read. -/
structure Ahead (keys : List InputKey) (keyboard : Keyboard) : Prop where
  input : keyboard.conIn = true
  order : keyboard.held ++ typedKeys keyboard.strokes = keys
  patient :
    ∀ stroke ∈ keyboard.strokes,
      stroke.isSuccess = true ∨ stroke.isNotReady = true

section Calls

variable {keys : List InputKey} {keyboard : Keyboard}

/-- Waiting skips no key. -/
theorem typedKeys_dropWhile (strokes : List Stroke) :
    typedKeys (strokes.dropWhile Stroke.isNotReady) = typedKeys strokes := by
  induction strokes with
  | nil =>
      rfl
  | cons stroke later inductionHypothesis =>
      cases stroke with
      | success key =>
          rfl
      | failure status notSuccess =>
          rw [List.dropWhile_cons]
          split
          · exact inductionHypothesis
          · rfl

/-- What is left after waiting starts with a key. -/
theorem dropWhile_starts_with_key
    {strokes later : List Stroke}
    {stroke : Stroke}
    (patient :
      ∀ stroke ∈ strokes,
        stroke.isSuccess = true ∨ stroke.isNotReady = true)
    (waited :
      strokes.dropWhile Stroke.isNotReady = stroke :: later) :
    (∃ key, stroke = .success key) ∧
      ∀ stroke ∈ later,
        stroke.isSuccess = true ∨ stroke.isNotReady = true := by
  have suffix : stroke :: later <:+ strokes :=
    waited ▸ List.dropWhile_suffix _
  have stops : ¬stroke.isNotReady = true := by
    have head := List.head?_dropWhile_not Stroke.isNotReady strokes
    rw [waited] at head
    simpa using head
  constructor
  · cases stroke with
    | success key =>
        exact ⟨key, rfl⟩
    | failure status notSuccess =>
        have either := patient _ (suffix.subset List.mem_cons_self)
        exact absurd (either.resolve_left Bool.false_ne_true) stops
  · exact fun other isLater =>
      patient other (suffix.subset (List.mem_cons_of_mem _ isLater))

/-- Probing for a key keeps the order. -/
theorem Ahead.dataReady
    (ahead : Ahead keys keyboard) :
    Ahead keys (dataReady keyboard).2 := by
  obtain ⟨input, order, patient⟩ := ahead
  unfold UefiConsole.dataReady
  rw [if_neg (by simp [input])]
  split
  · exact ⟨input, order, patient⟩
  · next notPending =>
      have empty : keyboard.pendingKeyValid = false := by
        simpa using notPending
      split
      · exact ⟨input, order, patient⟩
      · next stroke later strokes =>
          rw [strokes] at order patient
          have laterPatient := (List.forall_mem_cons.mp patient).2
          cases stroke with
          | success key =>
              refine ⟨input, ?_, laterPatient⟩
              simpa [Keyboard.held, empty, readKeyStroke, typedKeys,
                Stroke.key?] using order
          | failure status notSuccess =>
              simp only [readKeyStroke, notSuccess, if_false]
              exact ⟨input, order, laterPatient⟩

/-- Taking a key keeps it, too. -/
theorem Ahead.getc
    (ahead : Ahead keys keyboard)
    {c : Int32}
    (returned : (getc keyboard).1 = some c) :
    Ahead keys (getc keyboard).2 := by
  obtain ⟨input, order, patient⟩ := ahead
  revert returned
  unfold UefiConsole.getc
  rw [if_neg (by simp [input])]
  split
  · next pending =>
      intro returned
      refine ⟨input, ?_, patient⟩
      simpa [takePending, Keyboard.held, pending] using order
  · next notPending =>
      have empty : keyboard.pendingKeyValid = false := by
        simpa using notPending
      have skipped := typedKeys_dropWhile keyboard.strokes
      rw [pollKeyStroke_eq]
      cases waited : keyboard.strokes.dropWhile Stroke.isNotReady with
      | nil =>
          intro returned
          cases returned
      | cons stroke later =>
          obtain ⟨⟨key, rfl⟩, laterPatient⟩ :=
            dropWhile_starts_with_key patient waited
          intro returned
          rw [waited] at skipped
          refine ⟨input, ?_, laterPatient⟩
          rw [← skipped] at order
          simpa [takePending, readKeyStroke, Keyboard.held, empty, typedKeys,
            Stroke.key?] using order

/-- So do the later bytes of a read. -/
theorem Ahead.readMore
    (ahead : Ahead keys keyboard)
    {room : Nat}
    {bytes : List UInt8}
    (returned : (readMore room keyboard).1 = some bytes) :
    Ahead keys (readMore room keyboard).2 := by
  induction room generalizing keyboard bytes with
  | zero =>
      exact ahead
  | succ room inductionHypothesis =>
      have probed := ahead.dataReady
      rcases probe : UefiConsole.dataReady keyboard with ⟨isReady?, ready⟩
      rw [probe] at probed
      rcases isReady? with _ | _ | _
      · simp [UefiConsole.readMore, probe] at returned
      · simpa [UefiConsole.readMore, probe] using probed
      rcases got : UefiConsole.getc ready with ⟨c?, next⟩
      cases c? with
      | none =>
          simp [UefiConsole.readMore, probe, got] at returned
      | some c =>
          have taken : Ahead keys next := by
            simpa [got] using probed.getc (congrArg Prod.fst got)
          obtain ⟨more, moreReturned, -⟩ :
              ∃ more, (UefiConsole.readMore room next).1 = some more ∧
                c.toUInt32.toUInt8 :: more = bytes := by
            simpa [UefiConsole.readMore, probe, got] using returned
          simpa [UefiConsole.readMore, probe, got] using
            inductionHypothesis taken moreReturned

/-- So does a read that returns. -/
theorem Ahead.read
    (ahead : Ahead keys keyboard)
    {length : Nat}
    (returns : (keyInput.step keyboard (.read length)).1 ≠ .waiting) :
    Ahead keys (keyInput.step keyboard (.read length)).2 := by
  cases length with
  | zero =>
      exact ahead
  | succ room =>
      rcases got : UefiConsole.getc keyboard with ⟨c?, next⟩
      cases c? with
      | none =>
          simp [keyInput, UefiConsole.read, got] at returns
      | some c =>
          have taken : Ahead keys next := by
            simpa [got] using ahead.getc (congrArg Prod.fst got)
          rcases more : UefiConsole.readMore room next with ⟨bytes?, after⟩
          cases bytes? with
          | none =>
              simp [keyInput, UefiConsole.read, got, more] at returns
          | some bytes =>
              simpa [keyInput, UefiConsole.read, got, more] using
                taken.readMore (congrArg Prod.fst more)

end Calls

/-- After reads that have returned the keys still to come follow. -/
theorem ahead_run
    {keys : List InputKey}
    {keyboard : Keyboard}
    {lengths : List Nat}
    (ahead : Ahead keys keyboard)
    (returned :
      .waiting ∉ keyInput.responses keyboard (lengths.map .read)) :
    Ahead keys (keyInput.run keyboard (lengths.map .read)) := by
  induction lengths generalizing keyboard with
  | nil =>
      exact ahead
  | cons length rest inductionHypothesis =>
      rw [List.map_cons, Machine.responses_cons, List.mem_cons,
        not_or] at returned
      obtain ⟨returns, restReturned⟩ := returned
      exact inductionHypothesis (ahead.read (Ne.symm returns)) restReturned

/-- The bytes delivered are those of the first keys typed. -/
theorem deliveredBytes_eq
    {repertoire : UInt16 → Prop}
    {strokes : List Stroke}
    {lengths : List Nat}
    (typed : Typed repertoire strokes)
    (returned : AllReturned strokes lengths) :
    deliveredBytes strokes lengths =
      ((typedKeys strokes).take (deliveredBytes strokes lengths).length).map
        keyByte := by
  have patient (stroke : Stroke) (isStroke : stroke ∈ strokes) :
      stroke.isSuccess = true ∨ stroke.isNotReady = true := by
    have one := typed stroke isStroke
    cases stroke with
    | success key =>
        exact .inl rfl
    | failure status notSuccess =>
        exact .inr (decide_eq_true one)
  have ahead : Ahead (typedKeys strokes) (.boot true strokes) :=
    ⟨rfl, rfl, patient⟩
  have order := (ahead_run ahead returned).order
  have handed : _ = deliveredBytes strokes lengths :=
    delivered_keys_handed returned
  rw [Keyboard.held, List.append_assoc] at order
  rw [← handed, List.length_map, ← order, List.take_left]

/-- The keys of such strokes have characters of the repertoire. -/
theorem typed_key
    {repertoire : UInt16 → Prop}
    {strokes : List Stroke}
    (typed : Typed repertoire strokes)
    {key : InputKey}
    (isTyped : key ∈ typedKeys strokes) :
    key.unicodeChar ≠ 0 ∧ repertoire key.unicodeChar := by
  obtain ⟨stroke, isStroke, delivers⟩ := List.mem_filterMap.mp isTyped
  have one := typed stroke isStroke
  cases stroke with
  | success other =>
      cases delivers
      exact one
  | failure status notSuccess =>
      cases delivers

/-! ## What they determine -/

/-- A function of the elements is determined where it is for each pair. -/
theorem map_eq_of_map_eq
    {Element Code Value : Type}
    {code : Element → Code}
    {value : Element → Value}
    {first second : List Element}
    (determined :
      ∀ left ∈ first, ∀ right ∈ second,
        code left = code right → value left = value right)
    (same : first.map code = second.map code) :
    first.map value = second.map value := by
  induction first generalizing second with
  | nil =>
      rw [List.map_eq_nil_iff.mp same.symm]
  | cons left restLeft inductionHypothesis =>
      cases second with
      | nil =>
          cases same
      | cons right restRight =>
          obtain ⟨sameHead, sameTail⟩ := List.cons.inj same
          rw [List.map_cons, List.map_cons,
            determined left List.mem_cons_self right List.mem_cons_self
              sameHead,
            inductionHypothesis
              (fun element isLeft other isRight =>
                determined element (List.mem_cons_of_mem _ isLeft) other
                  (List.mem_cons_of_mem _ isRight))
              sameTail]

/-- Distinct low bytes determine the characters typed. -/
theorem determined_of_distinct
    {repertoire : UInt16 → Prop}
    (distinct : DistinctLowBytes repertoire) :
    Determined repertoire := by
  intro strokes strokes' lengths lengths' typed typed' returned returned' same
  have bytes := deliveredBytes_eq typed returned
  have bytes' := deliveredBytes_eq typed' returned'
  refine map_eq_of_map_eq ?_ (bytes.symm.trans (same.trans bytes'))
  intro left isLeft right isRight sameByte
  obtain ⟨leftNonzero, leftInside⟩ :=
    typed_key typed (List.mem_of_mem_take isLeft)
  obtain ⟨rightNonzero, rightInside⟩ :=
    typed_key typed' (List.mem_of_mem_take isRight)
  rw [keyByte_eq, keyByte_eq] at sameByte
  exact distinct _ _ leftNonzero rightNonzero leftInside rightInside sameByte

/-- A character outside ASCII is not translated. -/
theorem translated_of_high
    {character : UInt16}
    (outside : 0x80 ≤ character) :
    translated character = character := by
  refine if_neg ?_
  rintro rfl
  exact absurd outside (by decide)

/-- High low bytes keep characters outside ASCII apart from those in it. -/
theorem undisguised_of_high
    {repertoire : UInt16 → Prop}
    (high : HighLowBytes repertoire) :
    Undisguised repertoire := by
  intro strokes lengths typed returned index key byte isKey isByte outside
  have bytes := deliveredBytes_eq typed returned
  have isKeyByte : byte = keyByte key := by
    have inBytes := List.getElem?_eq_some_iff.mp isByte
    obtain ⟨inside, -⟩ := inBytes
    rw [bytes, List.getElem?_map, List.getElem?_take_of_lt inside,
      isKey] at isByte
    exact (Option.some.inj isByte).symm
  obtain ⟨-, inRepertoire⟩ := typed_key typed (List.mem_of_getElem? isKey)
  rw [isKeyByte, keyByte_eq, translated_of_high outside]
  exact high _ inRepertoire outside

/-- One key, read as one byte. -/
theorem one_key
    {repertoire : UInt16 → Prop}
    {character : UInt16}
    (nonzero : character ≠ 0)
    (inside : repertoire character) :
    Typed repertoire [.success ⟨0, character⟩] ∧
      AllReturned [.success ⟨0, character⟩] [1] ∧
      deliveredBytes [.success ⟨0, character⟩] [1] =
        [(translated character).toUInt8] := by
  have responses :
      readResponses [.success ⟨0, character⟩] [1] =
        [.bytes [keyByte ⟨0, character⟩]] :=
    rfl
  refine ⟨?_, ?_, ?_⟩
  · intro stroke isStroke
    rw [List.mem_singleton.mp isStroke]
    exact ⟨nonzero, inside⟩
  · rw [AllReturned, responses]
    simp
  · rw [deliveredBytes, responses, ← keyByte_eq ⟨0, character⟩]
    rfl

/--
The bytes that reads deliver determine the characters typed, up to CR and LF,
and show none outside ASCII as one in it, exactly if the characters that can
be typed have distinct low bytes, and those outside ASCII high ones.
-/
theorem typed_characters_determined_iff (repertoire : UInt16 → Prop) :
    Determined repertoire ∧ Undisguised repertoire ↔
      DistinctLowBytes repertoire ∧ HighLowBytes repertoire := by
  constructor
  · rintro ⟨determined, undisguised⟩
    constructor
    · intro first second firstNonzero secondNonzero isFirst isSecond same
      obtain ⟨typed, returned, bytes⟩ := one_key firstNonzero isFirst
      obtain ⟨typed', returned', bytes'⟩ := one_key secondNonzero isSecond
      have characters :=
        determined _ _ _ _ typed typed' returned returned'
          (by rw [bytes, bytes', same])
      rw [bytes, bytes'] at characters
      exact (List.cons.inj characters).1
    · intro character inside outside
      have nonzero : character ≠ 0 := by
        rintro rfl
        exact absurd outside (by decide)
      obtain ⟨typed, returned, bytes⟩ := one_key nonzero inside
      have high :=
        undisguised _ _ typed returned 0 ⟨0, character⟩
          (translated character).toUInt8 rfl (by rw [bytes]; rfl) outside
      rwa [translated_of_high outside] at high
  · rintro ⟨distinct, high⟩
    exact ⟨determined_of_distinct distinct, undisguised_of_high high⟩

/-- The character U+0103 is read as Ctrl-C. -/
theorem typed_character_read_as_control :
    readResponses [.success ⟨0, 0x103⟩] [1] = [.bytes [0x03]] ∧
      readResponses [.success ⟨0, 0x003⟩] [1] = [.bytes [0x03]] ∧
      ¬(Determined (fun _ => True) ∧ Undisguised (fun _ => True)) := by
  refine ⟨by decide, by decide, ?_⟩
  rintro ⟨-, undisguised⟩
  have typed : Typed (fun _ => True) [.success ⟨0, 0x103⟩] := by
    intro stroke isStroke
    rw [List.mem_singleton.mp isStroke]
    exact ⟨by decide, trivial⟩
  have high :=
    undisguised [.success ⟨0, 0x103⟩] [1] typed (by decide) 0 ⟨0, 0x103⟩ 0x03
      rfl (by decide) (by decide)
  exact absurd high (by decide)

end RubyOnBareMetal.UefiConsole
