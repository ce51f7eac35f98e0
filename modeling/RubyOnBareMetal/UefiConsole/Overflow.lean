import Mathlib.Algebra.Group.Int.Defs
import RubyOnBareMetal.Foundation.Ruby
import RubyOnBareMetal.UefiConsole.Absorption

namespace RubyOnBareMetal.UefiConsole

open Foundation

/-!
# Numbers that do not fit into an `int`

Two sums of the parser have no guard: a digit is added to ten times the
number read so far, and every parameter is counted.  They are exact for as
long as no parameter reaches `2 ^ 31` and no sequence ends that many, and then
the firmware gets the coordinates that were asked for.
-/

/-- The sums that a byte causes stay in the range of an `int`. -/
def SumsFit (console : Console) (c : UInt8) : Prop :=
  console.ansiState = .csi →
    (isDigit c →
      console.csiCur.toInt * 10 + (c.toNat - 0x30 : Nat) < 2 ^ 31) ∧
    (c = semicolon ∨ isFinal c → console.csiN.toInt + 1 < 2 ^ 31)

/-- The parser, for streams whose sums fit. -/
def fittingParser : Machine Console UInt8 (List FirmwareCall) where
  step := parser.step
  admits := SumsFit

/-- A sequence with the final byte `H` or `f` sets the position it names. -/
def PositionsExact (start : Console) (stream : List UInt8) : Prop :=
  ∀ earlier body final later,
    stream = earlier ++ escapeByte :: bracket :: (body ++ final :: later) →
    (parser.run start earlier).ansiState = .normal →
    (∀ c ∈ body, BodyByte c) →
    final = finalCup ∨ final = finalHvp →
    start.conOut?.isSome →
    ∃ column row,
      (parser.step
        (parser.run start (earlier ++ escapeByte :: bracket :: body))
        final).1 =
        [.setCursorPosition column row] ∧
      column.toNat = coordinate (parameters body) 1 - 1 ∧
      row.toNat = coordinate (parameters body) 0 - 1

/-- All sums of a stream fit, and the positions it sets are exact. -/
def NumbersExact (start : Console) (stream : List UInt8) : Prop :=
  fittingParser.Admissible start stream ∧ PositionsExact start stream

/--
In every control sequence of a stream, complete or not, the parameters are
below `2 ^ 31`, and so is the number of those that have ended.
-/
def NumbersSmall (stream : List UInt8) : Prop :=
  ∀ earlier body later,
    stream = earlier ++ escapeByte :: bracket :: (body ++ later) →
    Whole earlier →
    (∀ c ∈ body, BodyByte c) →
    Small (pieces body) ∧
      ∀ c rest,
        later = c :: rest →
        c = semicolon ∨ isFinal c →
        (pieces body).length < 2 ^ 31

instance (console : Console) (c : UInt8) :
    Decidable (fittingParser.admits console c) :=
  inferInstanceAs
    (Decidable
      (console.ansiState = .csi →
        (isDigit c →
          console.csiCur.toInt * 10 + (c.toNat - 0x30 : Nat) < 2 ^ 31) ∧
        (c = semicolon ∨ isFinal c → console.csiN.toInt + 1 < 2 ^ 31)))

/-! ## One byte more -/

/-- The sums of a stream and of one more byte. -/
theorem fits_append
    {console : Console}
    {first second : List UInt8} :
    fittingParser.Admissible console (first ++ second) ↔
      fittingParser.Admissible console first ∧
        fittingParser.Admissible (parser.run console first) second := by
  rw [fittingParser.admissible_append]
  exact and_congr_right fun _ => by
    rw [fittingParser, parser.run_promise]

/-- The sums of one byte. -/
theorem fits_singleton {console : Console} {c : UInt8} :
    fittingParser.Admissible console [c] ↔ SumsFit console c :=
  and_iff_left trivial

/-- With small numbers so far the sums are those of the numbers. -/
theorem Accumulated.sumsFit_iff
    {console : Console}
    {out? : Option TextOutput}
    {done : List (List UInt8)}
    {digits : List UInt8}
    (accumulated : Accumulated console out? done digits)
    (small : decimal digits < 2 ^ 31)
    (counted : done.length < 2 ^ 31)
    (c : UInt8) :
    SumsFit console c ↔
      (isDigit c → decimal (digits ++ [c]) < 2 ^ 31) ∧
        (c = semicolon ∨ isFinal c → done.length + 1 < 2 ^ 31) := by
  rw [SumsFit, accumulated.current, accumulated.count, toInt_ofNat small,
    toInt_ofNat counted, decimal_append_singleton]
  simp only [accumulated.state, forall_const]
  norm_cast

/-- The pieces of a body after another byte. -/
theorem pieces_append_singleton
    {body : List UInt8}
    {done : List (List UInt8)}
    {digits : List UInt8}
    (split : pieces body = done ++ [digits])
    (c : UInt8) :
    (isDigit c → pieces (body ++ [c]) = done ++ [digits ++ [c]]) ∧
      (c = semicolon →
        pieces (body ++ [c]) = done ++ [digits] ++ [[]]) ∧
      (isSkipped c → pieces (body ++ [c]) = done ++ [digits]) := by
  unfold pieces at split ⊢
  rw [List.filter_append]
  refine ⟨fun digit => ?_, ?_, fun skipped => ?_⟩
  · obtain ⟨notSeparator, kept, -⟩ := isDigit_ne digit
    rw [List.filter_cons_of_pos (by simp [kept]), List.filter_nil]
    exact Ruby.splitOn_concat split notSeparator
  · rintro rfl
    rw [List.filter_cons_of_pos (by decide), List.filter_nil,
      List.splitOn_append_cons_self, split, List.splitOn_nil]
  · rw [List.filter_cons_of_neg (by simp [skipped]), List.filter_nil,
      List.append_nil, split]

/-- The numbers of a body are small, and few of them have ended. -/
abbrev SmallBody (body : List UInt8) : Prop :=
  Small (pieces body) ∧ (pieces body).length ≤ 2 ^ 31

/-- A body stays small as long as its next byte is. -/
theorem smallBody_append_iff
    {body : List UInt8}
    {done : List (List UInt8)}
    {digits : List UInt8}
    (split : pieces body = done ++ [digits])
    {c : UInt8}
    (known : BodyByte c) :
    SmallBody (body ++ [c]) ↔
      SmallBody body ∧
        (isDigit c → decimal (digits ++ [c]) < 2 ^ 31) ∧
          (c = semicolon ∨ isFinal c → done.length + 1 < 2 ^ 31) := by
  obtain ⟨afterDigit, afterSemicolon, afterSkipped⟩ :=
    pieces_append_singleton split c
  have notFinal : ¬isFinal c := fun final =>
    known.elim (isFinal_ne final).1
      (Or.elim · (isFinal_ne final).2.1 (isFinal_ne final).2.2)
  unfold SmallBody Small
  rcases known with digit | rfl | skipped
  · obtain ⟨notSeparator, -, -⟩ := isDigit_ne digit
    have grows : decimal digits ≤ decimal (digits ++ [c]) := by
      rw [decimal_append_singleton]
      omega
    rw [afterDigit digit, split]
    simp only [List.forall_mem_append, List.forall_mem_singleton,
      List.length_append, List.length_singleton, digit, notSeparator,
      notFinal, forall_const, Bool.false_eq_true, or_self, false_implies,
      and_true]
    constructor
    · rintro ⟨⟨doneSmall, lastSmall⟩, counted⟩
      exact ⟨⟨⟨doneSmall, by omega⟩, counted⟩, lastSmall⟩
    · rintro ⟨⟨⟨doneSmall, -⟩, counted⟩, lastSmall⟩
      exact ⟨⟨doneSmall, lastSmall⟩, counted⟩
  · have emptySmall : decimal [] < 2 ^ 31 := Nat.two_pow_pos 31
    rw [afterSemicolon rfl, split]
    simp only [List.forall_mem_append, List.forall_mem_singleton,
      List.length_append, List.length_singleton, emptySmall, and_true,
      semicolon_ne.1, Bool.false_eq_true, false_implies, true_and, true_or,
      forall_const]
    constructor
    · rintro ⟨small, counted⟩
      exact ⟨⟨small, by omega⟩, by omega⟩
    · rintro ⟨⟨small, -⟩, counted⟩
      exact ⟨small, by omega⟩
  · obtain ⟨notDigit, notSeparator⟩ := isSkipped_ne skipped
    rw [afterSkipped skipped, split]
    simp [notDigit, notSeparator, notFinal]

/-! ## Whole sequences -/

/-- The sums of one byte more are those of the last number of a small body. -/
theorem opened_sumsFit_iff
    {console : Console}
    (normal : console.ansiState = .normal)
    {body : List UInt8}
    (bodyBytes : ∀ c ∈ body, BodyByte c)
    (c : UInt8) :
    ∃ done digits,
      pieces body = done ++ [digits] ∧
        (SmallBody body →
          (SumsFit
              (parser.run console (escapeByte :: bracket :: body)) c ↔
            (isDigit c → decimal (digits ++ [c]) < 2 ^ 31) ∧
              (c = semicolon ∨ isFinal c → done.length + 1 < 2 ^ 31))) := by
  obtain ⟨-, done, digits, accumulated, split⟩ :=
    opened_accumulated normal bodyBytes
  refine ⟨done, digits, split.symm, ?_⟩
  rintro ⟨small, counted⟩
  rw [← split] at small counted
  have lastSmall : decimal digits < 2 ^ 31 := small digits (by simp)
  rw [List.length_append, List.length_singleton] at counted
  exact accumulated.sumsFit_iff lastSmall (by omega) c

/-- The sums inside a sequence fit exactly for a small body. -/
theorem body_fits_iff
    {console : Console}
    (normal : console.ansiState = .normal)
    {body : List UInt8}
    (bodyBytes : ∀ c ∈ body, BodyByte c) :
    fittingParser.Admissible
        (parser.run console [escapeByte, bracket]) body ↔
      SmallBody body := by
  induction body using List.reverseRecOn with
  | nil =>
      refine iff_of_true trivial ⟨?_, ?_⟩
      · exact List.forall_mem_singleton.mpr (Nat.two_pow_pos 31)
      · exact Nat.one_le_two_pow
  | append_singleton body c inductionHypothesis =>
      obtain ⟨earlierBytes, known⟩ := List.forall_mem_append.mp bodyBytes
      have lastKnown := known c List.mem_cons_self
      obtain ⟨done, digits, split, sums⟩ :=
        opened_sumsFit_iff normal earlierBytes c
      rw [fits_append, inductionHypothesis earlierBytes, fits_singleton,
        smallBody_append_iff split lastKnown]
      exact and_congr_right sums

/-- Outside control sequences nothing is added. -/
theorem sumsFit_of_ne_csi
    {console : Console}
    (outside : console.ansiState ≠ .csi)
    (c : UInt8) :
    SumsFit console c :=
  fun inside => absurd inside outside

/-- So the sums of a sequence fit exactly if those of its body do. -/
theorem opened_fits_iff
    {console : Console}
    (normal : console.ansiState = .normal)
    (rest : List UInt8) :
    fittingParser.Admissible console (escapeByte :: bracket :: rest) ↔
      fittingParser.Admissible
        (parser.run console [escapeByte, bracket]) rest := by
  have shape :
      escapeByte :: bracket :: rest =
        [escapeByte] ++ ([bracket] ++ rest) :=
    rfl
  have escaped : (parser.run console [escapeByte]).ansiState = .esc := by
    rw [run_ansiState, normal]
    rfl
  have first : SumsFit console escapeByte :=
    sumsFit_of_ne_csi (by simp [normal]) escapeByte
  have second : SumsFit (parser.run console [escapeByte]) bracket :=
    sumsFit_of_ne_csi (by rw [escaped]; decide) bracket
  rw [shape, fits_append, fits_append, fits_singleton, fits_singleton,
    and_iff_right first, and_iff_right second, ← parser.run_append]
  rfl

/-! ## Streams -/

/-- A part of a stream with small numbers has small numbers. -/
theorem NumbersSmall.dropLast
    {stream : List UInt8}
    {c : UInt8}
    (small : NumbersSmall (stream ++ [c])) :
    NumbersSmall stream := by
  intro earlier body later split whole bodyBytes
  have longer := small earlier body (later ++ [c]) (by simp [split]) whole
    bodyBytes
  refine ⟨longer.1, ?_⟩
  rintro d rest rfl ends
  exact longer.2 d (rest ++ [c]) rfl ends

/-- The sums of a stream fit exactly if its numbers are small. -/
theorem stream_fits_iff
    {start : Console}
    (normal : start.ansiState = .normal)
    (stream : List UInt8) :
    fittingParser.Admissible start stream ↔ NumbersSmall stream := by
  have stateAfter (earlier : List UInt8) :
      (parser.run start earlier).ansiState = .normal ↔ Whole earlier := by
    rw [run_ansiState, normal, foldl_normal_iff]
  constructor
  · rintro fits earlier body later rfl whole bodyBytes
    have normalAgain := (stateAfter earlier).mpr whole
    rw [fits_append, opened_fits_iff normalAgain, fits_append,
      body_fits_iff normalAgain bodyBytes] at fits
    obtain ⟨-, smallBody, laterFits⟩ := fits
    refine ⟨smallBody.1, ?_⟩
    rintro c rest rfl ends
    obtain ⟨done, digits, split, sums⟩ :=
      opened_sumsFit_iff normalAgain bodyBytes c
    rw [split, List.length_append, List.length_singleton]
    exact ((sums smallBody).mp laterFits.1).2 ends
  · intro small
    induction stream using List.reverseRecOn with
    | nil =>
        trivial
    | append_singleton stream c inductionHypothesis =>
        have fits := inductionHypothesis small.dropLast
        rw [fits_append, fits_singleton]
        refine ⟨fits, fun inside => ?_⟩
        obtain ⟨stretches, unfinished, rfl, leftOpen⟩ :=
          stream_stretches stream
        have state :=
          run_ansiState start (stretches.flatMap Stretch.bytes ++ unfinished)
        rw [inside, normal] at state
        rw [← state] at leftOpen
        obtain ⟨body, bodyBytes, rfl⟩ := leftOpen
        generalize earlierBytes :
          stretches.flatMap Stretch.bytes = earlier at *
        have whole : Whole earlier := ⟨stretches, earlierBytes.symm⟩
        have normalAgain := (stateAfter earlier).mpr whole
        -- the bytes before have counted no more than they may
        rw [fits_append, opened_fits_iff normalAgain,
          body_fits_iff normalAgain bodyBytes] at fits
        obtain ⟨done, digits, split, sums⟩ :=
          opened_sumsFit_iff normalAgain bodyBytes c
        rw [← parser.run_append] at sums
        refine (sums fits.2).mpr ⟨fun digit => ?_, fun ends => ?_⟩ inside
        · have longerBytes : ∀ b ∈ body ++ [c], BodyByte b := by
            simpa [or_imp, forall_and] using ⟨bodyBytes, .inl digit⟩
          have longer :=
            (small earlier (body ++ [c]) [] (by simp) whole longerBytes).1
          rw [(pieces_append_singleton split c).1 digit] at longer
          exact longer (digits ++ [c]) (by simp)
        · have few :=
            (small earlier body [c] (by simp) whole bodyBytes).2
              c [] rfl ends
          rw [split, List.length_append, List.length_singleton] at few
          exact few

/-! ## Positions -/

/-- `H` and `f` set the position that the parameters say. -/
theorem ansiExec_position
    {console : Console}
    (present : console.conOut?.isSome)
    {final : UInt8}
    (position : final = finalCup ∨ final = finalHvp) :
    (ansiExec console final).calls =
      [.setCursorPosition
        (uintn
          ((positionParam (ansiPushParam console).console 1).2 - 1))
        (uintn
          ((positionParam (ansiPushParam console).console 0).2 - 1))] := by
  obtain ⟨out, found⟩ := Option.isSome_iff_exists.mp present
  have stillFound := (ansiPushParam_counts console).2.trans found
  unfold ansiExec
  simp only [stillFound, if_pos position]

/-- Small numbers are passed to the firmware as they are. -/
theorem positions_exact
    {start : Console}
    (normal : start.ansiState = .normal)
    {stream : List UInt8}
    (small : NumbersSmall stream) :
    PositionsExact start stream := by
  rintro earlier body final later rfl normalAgain bodyBytes position present
  have whole : Whole earlier := by
    have state := run_ansiState start earlier
    rw [normal, normalAgain] at state
    exact (foldl_normal_iff earlier).mp state.symm
  have isFinal_final : isFinal final := by
    rcases position with rfl | rfl <;> decide
  obtain ⟨piecesSmall, ended⟩ :=
    small earlier body (final :: later) (by simp) whole bodyBytes
  have counted := ended final later rfl (.inr isFinal_final)
  obtain ⟨-, done, digits, accumulated, split⟩ :=
    opened_accumulated normalAgain bodyBytes
  have stillPresent :
      (parser.run start earlier).conOut?.isSome := by
    rw [Option.isSome_iff_ne_none, Ne, run_conOut_none,
      ← Ne, ← Option.isSome_iff_ne_none]
    exact present
  rw [← parser.run_append] at accumulated
  rw [← accumulated.output] at stillPresent
  obtain ⟨pushed, -⟩ := accumulated.push
  rw [split] at pushed
  have column :=
    pushed.uintn_position counted piecesSmall (Nat.one_lt_succ_succ 6)
  have row :=
    pushed.uintn_position counted piecesSmall (Nat.zero_lt_succ 7)
  have exactValue (index : Nat) :
      (UInt64.ofNat
        (coordinate (parameters body) index - 1)).toNat =
        coordinate (parameters body) index - 1 := by
    have coordinateSmall := coordinate_small piecesSmall index
    exact UInt64.toNat_ofNat_of_lt'
      ((Nat.sub_le _ 1).trans_lt (coordinateSmall.trans (by decide)))
  refine ⟨UInt64.ofNat (coordinate (parameters body) 1 - 1),
    UInt64.ofNat (coordinate (parameters body) 0 - 1), ?_,
    exactValue 1, exactValue 0⟩
  rw [step_final accumulated.state isFinal_final,
    ansiExec_position stillPresent position]
  exact congrArg₂ (fun x y => [FirmwareCall.setCursorPosition x y])
    column row

/--
From boot, the sums of a stream fit into an `int`, and the positions it sets
are those it names, if and only if in every control sequence, complete or
not, the parameters are below `2 ^ 31` and fewer than `2 ^ 31` of them have
ended.
-/
theorem numbers_exact_iff
    (uefiSystemTable : Option SystemTable)
    (beside : Int32 → Int32)
    (stream : List UInt8) :
    NumbersExact (.boot uefiSystemTable beside) stream ↔
      NumbersSmall stream := by
  have normal :
      (Console.boot uefiSystemTable beside).ansiState = .normal :=
    rfl
  unfold NumbersExact
  rw [stream_fits_iff normal]
  exact and_iff_left_of_imp (positions_exact normal)

/-- `ESC [ 4 2 9 4 9 6 7 2 9 8 H` moves to the second row. -/
theorem numbers_wrapped :
    ¬NumbersExact (.boot (some ⟨some ⟨some 7⟩⟩) fun _ => 0xCC)
      [0x1B, 0x5B, 0x34, 0x32, 0x39, 0x34, 0x39, 0x36, 0x37, 0x32, 0x39,
        0x38, 0x48] := by
  rintro ⟨-, exactPositions⟩
  obtain ⟨column, row, calls, -, rowValue⟩ :=
    exactPositions []
      [0x34, 0x32, 0x39, 0x34, 0x39, 0x36, 0x37, 0x32, 0x39, 0x38]
      finalCup [] rfl rfl (by decide +kernel) (.inl rfl) rfl
  have second :
      (parser.step
        (parser.run (.boot (some ⟨some ⟨some 7⟩⟩) fun _ => 0xCC)
          [0x1B, 0x5B, 0x34, 0x32, 0x39, 0x34, 0x39, 0x36, 0x37, 0x32,
            0x39, 0x38])
        finalCup).1 =
        [.setCursorPosition 0 1] := by
    decide +kernel
  have sameCalls := second.symm.trans calls
  cases sameCalls
  exact absurd rowValue (by decide +kernel)

end RubyOnBareMetal.UefiConsole
