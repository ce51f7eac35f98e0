import RubyOnBareMetal.UefiConsole.Tokens

namespace RubyOnBareMetal.UefiConsole

open Foundation

/-!
# The parser follows the tokens

Inside a control sequence the accumulators hold the parameters read so far
and the digits of the next one.  A push turns the digits into a parameter,
so that after the last one the array holds the pieces of the body, and what
`ansi_exec` computes from it is the interpretation of the token.
-/

/-! ## Small numbers as `int` -/

/-- A small number is its own value. -/
theorem toInt_ofNat {n : Nat} (small : n < 2 ^ 31) :
    (Int32.ofNat n).toInt = n :=
  Int32.toInt_ofNat_of_lt small

theorem ofNat_lt_ofNat_iff
    {a b : Nat}
    (smallLeft : a < 2 ^ 31)
    (smallRight : b < 2 ^ 31) :
    Int32.ofNat a < Int32.ofNat b ↔ a < b := by
  rw [Int32.lt_iff_toInt_lt, toInt_ofNat smallLeft, toInt_ofNat smallRight]
  omega

theorem ofNat_le_ofNat_iff
    {a b : Nat}
    (smallLeft : a < 2 ^ 31)
    (smallRight : b < 2 ^ 31) :
    Int32.ofNat a ≤ Int32.ofNat b ↔ a ≤ b := by
  rw [Int32.le_iff_toInt_le, toInt_ofNat smallLeft, toInt_ofNat smallRight]
  omega

theorem ofNat_eq_ofNat_iff
    {a b : Nat}
    (smallLeft : a < 2 ^ 31)
    (smallRight : b < 2 ^ 31) :
    Int32.ofNat a = Int32.ofNat b ↔ a = b := by
  rw [← Int32.toInt_inj, toInt_ofNat smallLeft, toInt_ofNat smallRight]
  omega

/-- The conversion to `UINTN` keeps small numbers. -/
theorem uintn_ofNat {n : Nat} (small : n < 2 ^ 31) :
    uintn (Int32.ofNat n) = UInt64.ofNat n := by
  unfold uintn
  rw [Int32.toInt64_ofNat' (by rw [Int32.toInt_maxValue]; omega),
    Int64.toUInt64_ofNat']

/-- The loop body of the parser is the interpretation of one parameter. -/
theorem sgrAttribute_ofNat
    (attr : UInt64)
    {p : Nat}
    (small : p < 2 ^ 31) :
    sgrAttribute attr (Int32.ofNat p) = sgr attr p := by
  have isZero : Int32.ofNat p = 0 ↔ p = 0 :=
    ofNat_eq_ofNat_iff small (Nat.two_pow_pos 31)
  have between (low high : Nat) (highSmall : high < 2 ^ 31)
      (lowSmall : low < 2 ^ 31) :
      (Int32.ofNat low ≤ Int32.ofNat p ∧
          Int32.ofNat p ≤ Int32.ofNat high) ↔
        (low ≤ p ∧ p ≤ high) :=
    and_congr (ofNat_le_ofNat_iff lowSmall small)
      (ofNat_le_ofNat_iff small highSmall)
  have foreground : (30 ≤ Int32.ofNat p ∧ Int32.ofNat p ≤ 37) ↔ _ :=
    between 30 37 (by omega) (by omega)
  have bright : (90 ≤ Int32.ofNat p ∧ Int32.ofNat p ≤ 97) ↔ _ :=
    between 90 97 (by omega) (by omega)
  have background : (40 ≤ Int32.ofNat p ∧ Int32.ofNat p ≤ 47) ↔ _ :=
    between 40 47 (by omega) (by omega)
  have brightBackground :
      (100 ≤ Int32.ofNat p ∧ Int32.ofNat p ≤ 107) ↔ _ :=
    between 100 107 (by omega) (by omega)
  have minus {low : Nat} (atLeast : low ≤ p) :
      uintn (Int32.ofNat p - Int32.ofNat low) = UInt64.ofNat (p - low) := by
    rw [← Int32.ofNat_sub p low atLeast, uintn_ofNat (by omega)]
  have minusPlus {low : Nat} (atLeast : low ≤ p) (atMost : p ≤ low + 7) :
      uintn (Int32.ofNat p - Int32.ofNat low + 8) =
        UInt64.ofNat (p - low + 8) := by
    have sum :
        Int32.ofNat p - Int32.ofNat low + 8 =
          Int32.ofNat (p - low + 8) := by
      rw [Int32.ofNat_add, Int32.ofNat_sub p low atLeast]
      rfl
    rw [sum, uintn_ofNat (by omega)]
  have color (atLeast : 30 ≤ p) :
      uintn (Int32.ofNat p - 30) = UInt64.ofNat (p - 30) :=
    minus atLeast
  have brightColor (range : 90 ≤ p ∧ p ≤ 97) :
      uintn (Int32.ofNat p - 90 + 8) = UInt64.ofNat (p - 90 + 8) :=
    minusPlus range.1 range.2
  have backgroundColor (atLeast : 40 ≤ p) :
      uintn (Int32.ofNat p - 40) = UInt64.ofNat (p - 40) :=
    minus atLeast
  have brightBackgroundColor (range : 100 ≤ p ∧ p ≤ 107) :
      uintn (Int32.ofNat p - 100 + 8) = UInt64.ofNat (p - 100 + 8) :=
    minusPlus range.1 range.2
  unfold sgrAttribute sgr
  simp only [isZero, foreground, bright, background, brightBackground]
  split
  · rfl
  · split
    · next range =>
        rw [color range.1]
    · split
      · next range =>
          rw [brightColor range]
      · split
        · next range =>
            rw [backgroundColor range.1]
        · split
          · next range =>
              rw [brightBackgroundColor range]
          · rfl

/-! ## Bytes of a body -/

theorem eq_iff_toNat {c d : UInt8} : c = d ↔ c.toNat = d.toNat :=
  UInt8.toNat_inj.symm

theorem isDigit_iff {c : UInt8} :
    isDigit c ↔ 48 ≤ c.toNat ∧ c.toNat ≤ 57 := by
  simp [isDigit, UInt8.le_iff_toNat_le]

theorem isSkipped_iff {c : UInt8} :
    isSkipped c ↔
      c.toNat = 63 ∨ c.toNat = 62 ∨ c.toNat = 61 ∨ c.toNat = 32 := by
  simp [isSkipped, eq_iff_toNat]

theorem isFinal_iff {c : UInt8} :
    isFinal c ↔ 64 ≤ c.toNat ∧ c.toNat ≤ 126 := by
  simp [isFinal, UInt8.le_iff_toNat_le]

theorem eq_semicolon_iff {c : UInt8} :
    c = semicolon ↔ c.toNat = 59 :=
  eq_iff_toNat

/-- A digit is neither a separator nor skipped. -/
theorem isDigit_ne {c : UInt8} (digit : isDigit c) :
    c ≠ semicolon ∧ ¬isSkipped c ∧ 0x30 ≤ c.toNat := by
  rw [isDigit_iff] at digit
  rw [Ne, eq_semicolon_iff, isSkipped_iff]
  omega

/-- A separator is neither a digit nor skipped. -/
theorem semicolon_ne : ¬isDigit semicolon ∧ ¬isSkipped semicolon := by
  decide

/-- A skipped byte is neither a digit nor a separator. -/
theorem isSkipped_ne {c : UInt8} (skipped : isSkipped c) :
    ¬isDigit c ∧ c ≠ semicolon := by
  rw [isSkipped_iff] at skipped
  rw [Ne, eq_semicolon_iff, isDigit_iff]
  omega

/-- A final byte is not a byte of a body. -/
theorem isFinal_ne {c : UInt8} (final : isFinal c) :
    ¬isDigit c ∧ c ≠ semicolon ∧ ¬isSkipped c := by
  rw [isFinal_iff] at final
  rw [Ne, eq_semicolon_iff, isDigit_iff, isSkipped_iff]
  omega

/-! ## A half read sequence -/

/-- What `ansi_push_param` stores for a parameter. -/
def paramValue (digits : List UInt8) : Int32 :=
  if digits = [] then -1 else Int32.ofNat (decimal digits)

/-- The accumulators hold the parameters before and the digits so far. -/
structure HalfRead
    (console : Console)
    (out? : Option TextOutput)
    (done : List (List UInt8))
    (digits : List UInt8) : Prop where
  state : console.ansiState = .csi
  output : console.conOut? = out?
  count : console.csiN = Int32.ofNat done.length
  stored :
    ∀ {index piece},
      done[index]? = some piece →
      console.csiParams (Int32.ofNat index) = paramValue piece
  current : console.csiCur = Int32.ofNat (decimal digits)
  seen : console.csiSeenDigit = !digits.isEmpty
  noSeparator : semicolon ∉ digits

/--
The same for any number of parameters: the digits are counted modulo the
word, and of the array only its eight elements are told, as long as the count
has not wrapped around.
-/
structure Accumulated
    (console : Console)
    (out? : Option TextOutput)
    (done : List (List UInt8))
    (digits : List UInt8) : Prop where
  state : console.ansiState = .csi
  output : console.conOut? = out?
  count : console.csiN = Int32.ofNat done.length
  stored :
    done.length ≤ 2 ^ 31 →
    ∀ {index piece},
      index < 8 →
      done[index]? = some piece →
      console.csiParams (Int32.ofNat index) = paramValue piece
  current : console.csiCur = Int32.ofNat (decimal digits)
  seen : console.csiSeenDigit = !digits.isEmpty
  noSeparator : semicolon ∉ digits

section Accumulating

variable {console : Console} {out? : Option TextOutput}
variable {done : List (List UInt8)} {digits : List UInt8}

theorem HalfRead.accumulated
    (half : HalfRead console out? done digits) :
    Accumulated console out? done digits where
  state := half.state
  output := half.output
  count := half.count
  stored := fun _ _ _ _ found => half.stored found
  current := half.current
  seen := half.seen
  noSeparator := half.noSeparator

/-- Up to eight parameters are told completely. -/
theorem Accumulated.halfRead
    (accumulated : Accumulated console out? done digits)
    (few : done.length ≤ 8) :
    HalfRead console out? done digits where
  state := accumulated.state
  output := accumulated.output
  count := accumulated.count
  stored := by
    intro index piece found
    obtain ⟨inside, -⟩ := List.getElem?_eq_some_iff.mp found
    exact accumulated.stored (by omega) (by omega) found
  current := accumulated.current
  seen := accumulated.seen
  noSeparator := accumulated.noSeparator

/-- A reset leaves nothing of an earlier sequence. -/
theorem accumulated_ansiReset (console : Console) :
    Accumulated { ansiReset console with ansiState := .csi }
      console.conOut? [] [] where
  state := rfl
  output := rfl
  count := rfl
  stored := by
    simp
  current := rfl
  seen := rfl
  noSeparator := by
    simp

/-- The accumulators after another digit. -/
def afterDigit (console : Console) (c : UInt8) : Console :=
  { console with
    csiCur := console.csiCur * 10 + (Int32.ofNat c.toNat - 0x30)
    csiSeenDigit := true }

/-- One more digit of a number. -/
theorem decimal_append_singleton (digits : List UInt8) (c : UInt8) :
    decimal (digits ++ [c]) =
      decimal digits * 10 + (c.toNat - 0x30) := by
  simp [decimal]

/-- Another digit belongs to the parameter that is being read. -/
theorem Accumulated.digit
    {c : UInt8}
    (accumulated : Accumulated console out? done digits)
    (isDigit_c : isDigit c) :
    Accumulated (afterDigit console c) out? done (digits ++ [c]) where
  state := accumulated.state
  output := accumulated.output
  count := accumulated.count
  stored := accumulated.stored
  current := by
    obtain ⟨-, -, atLeast⟩ := isDigit_ne isDigit_c
    rw [decimal_append_singleton, Int32.ofNat_add, Int32.ofNat_mul,
      Int32.ofNat_sub _ _ atLeast, ← accumulated.current]
    rfl
  seen := by
    simp [afterDigit]
  noSeparator := by
    obtain ⟨notSeparator, -, -⟩ := isDigit_ne isDigit_c
    simp [accumulated.noSeparator, notSeparator.symm]

/-- A push stores the next parameter at its index, if that is below eight. -/
theorem Accumulated.stored_push
    (accumulated : Accumulated console out? done digits)
    (fits : (done ++ [digits]).length ≤ 2 ^ 31)
    {index : Nat}
    {piece : List UInt8}
    (below : index < 8)
    (found : (done ++ [digits])[index]? = some piece) :
    (ansiPushParam console).console.csiParams (Int32.ofNat index) =
      paramValue piece := by
  rw [List.length_append, List.length_singleton] at fits
  have value :
      (if console.csiSeenDigit then console.csiCur else -1) =
        paramValue digits := by
    rw [accumulated.seen, accumulated.current]
    cases digits <;> rfl
  have inRange : console.csiN < maxParams ↔ done.length < 8 := by
    rw [accumulated.count]
    exact ofNat_lt_ofNat_iff (b := 8) (by omega) (by omega)
  have sameIndex : Int32.ofNat index = console.csiN ↔ index = done.length := by
    rw [accumulated.count]
    exact ofNat_eq_ofNat_iff (by omega) (by omega)
  unfold ansiPushParam
  dsimp only
  rw [value]
  by_cases last : index = done.length
  · have room : console.csiN < maxParams := inRange.mpr (last ▸ below)
    rw [last, List.getElem?_concat_length] at found
    cases found
    rw [if_pos room, sameIndex.mpr last]
    exact Function.update_self _ _ _
  · obtain ⟨inside, -⟩ := List.getElem?_eq_some_iff.mp found
    rw [List.length_append, List.length_singleton] at inside
    have before : index < done.length := by omega
    rw [List.getElem?_append_left before] at found
    have unchanged := accumulated.stored (by omega) below found
    split
    · exact (Function.update_of_ne (sameIndex.not.mpr last) _ _).trans
        unchanged
    · exact unchanged

/-- A push turns the digits into the next parameter. -/
theorem Accumulated.push
    (accumulated : Accumulated console out? done digits) :
    Accumulated (ansiPushParam console).console out?
        (done ++ [digits]) [] ∧
      (ansiPushParam console).calls = [] := by
  have stored := @accumulated.stored_push
  have counted :
      console.csiN + 1 = Int32.ofNat (done ++ [digits]).length := by
    rw [List.length_append, List.length_singleton, Int32.ofNat_add,
      ← accumulated.count]
    rfl
  unfold ansiPushParam at stored ⊢
  dsimp only at stored ⊢
  split at stored
  · next room =>
      rw [if_pos room]
      exact ⟨⟨accumulated.state, accumulated.output, counted, stored, rfl,
        rfl, by simp⟩, rfl⟩
  · next full =>
      rw [if_neg full]
      exact ⟨⟨accumulated.state, accumulated.output, counted, stored, rfl,
        rfl, by simp⟩, rfl⟩

/-- With room for it a push stores the digits as the next parameter. -/
theorem HalfRead.push
    (half : HalfRead console out? done digits)
    (room : done.length < 8) :
    HalfRead (ansiPushParam console).console out? (done ++ [digits]) [] ∧
      (ansiPushParam console).calls = [] := by
  obtain ⟨pushed, noCalls⟩ := half.accumulated.push
  refine ⟨pushed.halfRead ?_, noCalls⟩
  rw [List.length_append, List.length_singleton]
  omega

end Accumulating

/-- The body of a sequence makes no call and leaves its pieces behind. -/
theorem body_accumulated
    {body : List UInt8}
    (bodyBytes : ∀ c ∈ body, isDigit c ∨ c = semicolon ∨ isSkipped c)
    {console : Console}
    {out? : Option TextOutput}
    {done : List (List UInt8)}
    {digits : List UInt8}
    (accumulated : Accumulated console out? done digits) :
    parser.output console body = [] ∧
      ∃ before last,
        Accumulated (parser.run console body) out? before last ∧
          before ++ [last] =
            done ++
              (digits ++ body.filter fun c => !isSkipped c).splitOn
                semicolon := by
  induction body generalizing console done digits with
  | nil =>
      refine ⟨rfl, done, digits, accumulated, ?_⟩
      rw [List.filter_nil, List.append_nil,
        List.splitOn_eq_singleton accumulated.noSeparator]
  | cons c rest inductionHypothesis =>
      obtain ⟨first, restBytes⟩ := List.forall_mem_cons.mp bodyBytes
      rw [Machine.output_cons, Machine.run_cons]
      rcases first with digit | rfl | skipped
      · obtain ⟨-, kept, -⟩ := isDigit_ne digit
        have stepped :
            parser.step console c = ([], afterDigit console c) := by
          simp only [parser, parseByte, accumulated.state, digit, if_true,
            afterDigit]
        have shape :
            (digits ++ (c :: rest).filter fun c => !isSkipped c) =
              (digits ++ [c]) ++ rest.filter fun c => !isSkipped c := by
          simp [kept]
        rw [shape, stepped]
        exact inductionHypothesis restBytes (accumulated.digit digit)
      · obtain ⟨notDigit, kept⟩ := semicolon_ne
        have shape :
            (digits ++
                (semicolon :: rest).filter fun c => !isSkipped c).splitOn
                semicolon =
              digits ::
                (rest.filter fun c => !isSkipped c).splitOn semicolon := by
          rw [List.filter_cons_of_pos (by simp [kept])]
          exact List.splitOn_append_cons_self_of_not_mem
            accumulated.noSeparator _
        obtain ⟨pushed, noCalls⟩ := accumulated.push
        have stepped :
            parser.step console semicolon =
              ([], (ansiPushParam console).console) := by
          simp only [parser, parseByte, accumulated.state, notDigit,
            noCalls, Bool.false_eq_true, if_false, if_true]
        have later := inductionHypothesis restBytes pushed
        rw [shape, stepped]
        simpa using later
      · obtain ⟨notDigit, notSeparator⟩ := isSkipped_ne skipped
        have stepped : parser.step console c = ([], console) := by
          simp only [parser, parseByte, accumulated.state, notDigit,
            notSeparator, skipped, Bool.false_eq_true, if_false, if_true]
        have shape :
            ((c :: rest).filter fun c => !isSkipped c) =
              rest.filter fun c => !isSkipped c := by
          simp [skipped]
        rw [shape, stepped]
        exact inductionHypothesis restBytes accumulated

/-! ## Executing a whole sequence -/

/-- All parameters are small. -/
abbrev Small (done : List (List UInt8)) : Prop :=
  ∀ digits ∈ done, decimal digits < 2 ^ 31

/-- The parameter at an index of the pieces. -/
theorem parameter_map
    (done : List (List UInt8))
    (index : Nat) :
    parameter (done.map number?) index =
      (done[index]?).bind number? := by
  simp only [parameter, List.getD_eq_getElem?_getD, List.getElem?_map]
  cases done[index]? <;> rfl

/-- A stored parameter is its number, or negative if it is missing. -/
theorem paramValue_eq (digits : List UInt8) :
    paramValue digits =
      ((number? digits).map Int32.ofNat).getD (-1) := by
  unfold paramValue number?
  split <;> rfl

/-- A number that is present is one of the decimal numbers. -/
theorem number?_small
    {digits : List UInt8}
    {number : Nat}
    (present : number? digits = some number)
    (small : decimal digits < 2 ^ 31) :
    number < 2 ^ 31 := by
  unfold number? at present
  split at present
  · cases present
  · cases present
    exact small

/-- With a small default a small parameter is a small number. -/
theorem number?_getD_small
    {digits : List UInt8}
    {default : Nat}
    (defaultSmall : default < 2 ^ 31)
    (small : decimal digits < 2 ^ 31) :
    (number? digits).getD default < 2 ^ 31 := by
  cases present : number? digits with
  | none =>
      exact defaultSmall
  | some number =>
      exact number?_small present small

/-- So is the parameter at any index. -/
theorem parameter_getD_small
    {done : List (List UInt8)}
    (small : Small done)
    {default : Nat}
    (defaultSmall : default < 2 ^ 31)
    (index : Nat) :
    (parameter (done.map number?) index).getD default < 2 ^ 31 := by
  rw [parameter_map]
  cases found : done[index]? with
  | none =>
      exact defaultSmall
  | some piece =>
      exact number?_getD_small defaultSmall
        (small piece (List.mem_of_getElem? found))

/-- What the count and the array say about the parameter at an index. -/
inductive StoredParam (console : Console) (index : Nat) :
    Option Nat → Prop where
  | absent :
      ¬Int32.ofNat index < console.csiN →
      StoredParam console index none
  | missing :
      Int32.ofNat index < console.csiN →
      console.csiParams (Int32.ofNat index) = -1 →
      StoredParam console index none
  | present
      {number : Nat} :
      Int32.ofNat index < console.csiN →
      number < 2 ^ 31 →
      console.csiParams (Int32.ofNat index) = Int32.ofNat number →
      StoredParam console index (some number)

section Executing

variable {console : Console} {out? : Option TextOutput}
variable {done : List (List UInt8)} {digits : List UInt8}

/-- The count and the array hold the parameters before. -/
theorem Accumulated.storedParam
    (accumulated : Accumulated console out? done digits)
    (counted : done.length < 2 ^ 31)
    (small : Small done)
    {index : Nat}
    (inArray : index < 8) :
    StoredParam console index
      (parameter (done.map number?) index) := by
  have guard :
      Int32.ofNat index < console.csiN ↔ index < done.length := by
    rw [accumulated.count]
    exact ofNat_lt_ofNat_iff (by omega) counted
  rw [parameter_map]
  cases found : done[index]? with
  | none =>
      have outside := List.getElem?_eq_none_iff.mp found
      exact .absent (guard.not.mpr (Nat.not_lt.mpr outside))
  | some piece =>
      obtain ⟨inside, -⟩ := List.getElem?_eq_some_iff.mp found
      have pieceSmall := small piece (List.mem_of_getElem? found)
      have stored :=
        (accumulated.stored (Nat.le_of_lt counted) inArray found).trans
          (paramValue_eq piece)
      rw [Option.bind_some]
      cases present : number? piece with
      | none =>
          rw [present] at stored
          exact .missing (guard.mpr inside) stored
      | some number =>
          rw [present] at stored
          exact .present (guard.mpr inside)
            (number?_small present pieceSmall) stored

/-- A coordinate of `H` and `f`. -/
theorem Accumulated.positionParam_eq
    (accumulated : Accumulated console out? done digits)
    (counted : done.length < 2 ^ 31)
    (small : Small done)
    {index : Nat}
    (inArray : index < 8) :
    (positionParam console (Int32.ofNat index)).2 =
      Int32.ofNat (coordinate (done.map number?) index) := by
  have stored := accumulated.storedParam counted small inArray
  unfold positionParam coordinate
  generalize parameter (done.map number?) index = param at stored
  cases stored with
  | absent beyond =>
      rw [if_neg beyond]
      rfl
  | missing within value =>
      rw [if_pos within, value, if_neg (by decide)]
      rfl
  | @present number within numberSmall value =>
      have positive : 0 < Int32.ofNat number ↔ 0 < number :=
        ofNat_lt_ofNat_iff (Nat.two_pow_pos 31) numberSmall
      rw [if_pos within, value]
      simp only [positive, Option.getD_some]
      split
      · next isPositive =>
          rw [Nat.max_eq_right isPositive]
      · next notPositive =>
          rw [Nat.max_eq_left (by omega)]
          rfl

/-- A small coordinate is a small number. -/
theorem coordinate_small (small : Small done) (index : Nat) :
    coordinate (done.map number?) index < 2 ^ 31 := by
  have oneSmall : 1 < 2 ^ 31 := Nat.one_lt_two_pow (by omega)
  exact Nat.max_lt.mpr
    ⟨oneSmall, parameter_getD_small small oneSmall index⟩

/-- A small coordinate, counted from zero, as the firmware gets it. -/
theorem Accumulated.uintn_position
    (accumulated : Accumulated console out? done digits)
    (counted : done.length < 2 ^ 31)
    (small : Small done)
    {index : Nat}
    (inArray : index < 8) :
    uintn ((positionParam console (Int32.ofNat index)).2 - 1) =
      UInt64.ofNat (coordinate (done.map number?) index - 1) := by
  have atLeastOne : 1 ≤ coordinate (done.map number?) index :=
    Nat.le_max_left _ _
  have coordinateSmall := coordinate_small small index
  rw [accumulated.positionParam_eq counted small inArray,
    ← uintn_ofNat (by omega), Int32.ofNat_sub _ _ atLeastOne]
  rfl

/-- The parameter of `J`. -/
theorem HalfRead.eraseParam_eq
    (half : HalfRead console out? done digits)
    (few : done.length ≤ 8)
    (small : Small done) :
    (eraseParam console).2 =
      Int32.ofNat ((parameter (done.map number?) 0).getD 0) := by
  have stored :=
    half.accumulated.storedParam (by omega) small (Nat.zero_lt_succ 7)
  have guard : 1 ≤ console.csiN ↔ Int32.ofNat 0 < console.csiN := by
    rw [Int32.le_iff_toInt_le, Int32.lt_iff_toInt_lt]
    change (1 : Int) ≤ console.csiN.toInt ↔ (0 : Int) < console.csiN.toInt
    omega
  unfold eraseParam
  simp only [guard]
  generalize parameter (done.map number?) 0 = param at stored
  cases stored with
  | absent beyond =>
      rw [if_neg beyond]
      rfl
  | missing within value =>
      change console.csiParams 0 = -1 at value
      rw [if_pos within, value, if_neg (by decide)]
      rfl
  | @present number within numberSmall value =>
      change console.csiParams 0 = Int32.ofNat number at value
      have notNegative : 0 ≤ Int32.ofNat number :=
        (ofNat_le_ofNat_iff (Nat.two_pow_pos 31) numberSmall).mpr
          (Nat.zero_le number)
      rw [if_pos within, value, if_pos notNegative]
      rfl

/-- A parameter of `m`. -/
theorem HalfRead.sgrParam_eq
    (half : HalfRead console out? done digits)
    (few : done.length ≤ 8)
    (small : Small done)
    {index : Nat}
    (inside : index < done.length) :
    (sgrParam console (Int32.ofNat index)).2 =
      Int32.ofNat ((parameter (done.map number?) index).getD 0) := by
  have indexSmall : index < 2 ^ 31 := by omega
  have stored :=
    half.accumulated.storedParam (by omega) small
      (Nat.lt_of_lt_of_le inside few)
  have within : Int32.ofNat index < console.csiN := by
    rw [half.count]
    exact (ofNat_lt_ofNat_iff indexSmall (by omega)).mpr inside
  unfold sgrParam
  generalize parameter (done.map number?) index = param at stored
  cases stored with
  | absent beyond =>
      exact absurd within beyond
  | missing _ value =>
      rw [value, if_pos (by decide)]
      rfl
  | @present number _ numberSmall value =>
      have notNegative : ¬Int32.ofNat number < 0 :=
        (ofNat_lt_ofNat_iff numberSmall (Nat.two_pow_pos 31)).not.mpr
          (Nat.not_lt_zero number)
      rw [value, if_neg notNegative]
      rfl

/-- The loop over the parameters is the fold of their interpretation. -/
theorem HalfRead.loop_eq
    (half : HalfRead console out? done digits)
    (few : done.length ≤ 8)
    (small : Small done)
    (attr : UInt64) :
    (loopIndices console).foldl
        (fun attr i => sgrAttribute attr (sgrParam console i).2) attr =
      ((done.map number?).map (Option.getD · 0)).foldl sgr attr := by
  have values :
      (loopIndices console).map (fun i => (sgrParam console i).2) =
        done.map fun piece => Int32.ofNat ((number? piece).getD 0) := by
    unfold loopIndices
    rw [half.count, toInt_ofNat (by omega), Int.toNat_natCast]
    apply List.ext_getElem?
    intro index
    cases found : done[index]? with
    | none =>
        have outside := List.getElem?_eq_none_iff.mp found
        simp [outside]
    | some piece =>
        obtain ⟨inside, rfl⟩ := List.getElem?_eq_some_iff.mp found
        have value := half.sgrParam_eq few small inside
        rw [parameter_map, found, Option.bind_some] at value
        simp [inside, value]
  have steps :
      ∀ (attr : UInt64), ∀ piece ∈ done,
        sgrAttribute attr (Int32.ofNat ((number? piece).getD 0)) =
          sgr attr ((number? piece).getD 0) := by
    intro attr piece member
    exact sgrAttribute_ofNat attr
      (number?_getD_small (Nat.two_pow_pos 31) (small piece member))
  calc
    (loopIndices console).foldl
          (fun attr i => sgrAttribute attr (sgrParam console i).2) attr =
        ((loopIndices console).map
          fun i => (sgrParam console i).2).foldl sgrAttribute attr :=
      List.foldl_map.symm
    _ = done.foldl
          (fun attr piece =>
            sgrAttribute attr (Int32.ofNat ((number? piece).getD 0)))
          attr := by
      rw [values, List.foldl_map]
    _ = done.foldl
          (fun attr piece => sgr attr ((number? piece).getD 0)) attr :=
      List.foldl_ext _ _ _ steps
    _ = ((done.map number?).map (Option.getD · 0)).foldl sgr attr := by
      rw [List.map_map, List.foldl_map]
      rfl

/-- `ansi_exec` makes the calls of the sequence. -/
theorem HalfRead.execute
    (half : HalfRead console out? done digits)
    (room : done.length < 8)
    (small : Small (done ++ [digits]))
    (final : UInt8) :
    let params := (done ++ [digits]).map number?
    match out? with
    | none =>
        (ansiExec console final).calls = [] ∧
          (ansiExec console final).console.conOut? = none
    | some out =>
        (ansiExec console final).calls = controlCalls out params final ∧
          (ansiExec console final).console.conOut? =
            some ((controlCalls out params final).foldl .after out) := by
  obtain ⟨pushed, noCalls⟩ := half.push room
  have few : (done ++ [digits]).length ≤ 8 := by
    rw [List.length_append, List.length_singleton]
    omega
  have counted : (done ++ [digits]).length < 2 ^ 31 := by omega
  have row :=
    pushed.accumulated.uintn_position counted small (Nat.zero_lt_succ 7)
  have col :=
    pushed.accumulated.uintn_position counted small
      (Nat.one_lt_succ_succ 6)
  have erase :
      (eraseParam (ansiPushParam console).console).2 = 2 ↔
        (parameter ((done ++ [digits]).map number?) 0).getD 0 = 2 := by
    rw [pushed.eraseParam_eq few small]
    exact ofNat_eq_ofNat_iff
      (parameter_getD_small small (Nat.two_pow_pos 31) 0)
      (show 2 < 2 ^ 31 by omega)
  have loop := pushed.loop_eq few small
  have output := pushed.output
  unfold ansiExec controlCalls
  generalize (done ++ [digits]).map number? = params at *
  cases out? with
  | none =>
      simp only [output]
      exact ⟨noCalls, trivial⟩
  | some out =>
      simp only [output]
      split
      · exact ⟨congrArg₂ (fun x y => [FirmwareCall.setCursorPosition x y])
          col row, output⟩
      · split
        · simp only [erase]
          refine ⟨trivial, ?_⟩
          split <;> exact output
        · split
          · rw [loop]
            exact ⟨rfl, rfl⟩
          · exact ⟨noCalls, output⟩

end Executing

/-! ## Tokens -/

/-- Between tokens only the output protocol matters. -/
structure Idle (console : Console) (out? : Option TextOutput) : Prop where
  state : console.ansiState = .normal
  output : console.conOut? = out?

/-- An escape byte is waited out. -/
theorem step_escape
    {console : Console}
    (state : console.ansiState = .normal) :
    parser.step console escapeByte =
      ([], { console with ansiState := .esc }) := by
  simp only [parser, parseByte, state, if_true]

/-- A final byte executes the sequence. -/
theorem step_final
    {console : Console}
    {c : UInt8}
    (state : console.ansiState = .csi)
    (final : isFinal c) :
    parser.step console c =
      ((ansiExec console c).calls,
        { (ansiExec console c).console with ansiState := .normal }) := by
  obtain ⟨notDigit, notSeparator, notSkipped⟩ := isFinal_ne final
  simp only [parser, parseByte, state, notDigit, notSeparator, notSkipped,
    final, Bool.false_eq_true, if_false, if_true]

/-- A plain byte is printed. -/
theorem plain_follows
    {console : Console}
    {out? : Option TextOutput}
    (idle : Idle console out?)
    {c : UInt8}
    (notEscape : c ≠ escapeByte) :
    parser.output console [c] =
        (interpreter.step out? (.plain c notEscape)).1 ∧
      Idle (parser.run console [c])
        (interpreter.step out? (.plain c notEscape)).2 := by
  have stepped :
      parser.step console c = (rawPutc console c, console) := by
    simp only [parser, parseByte, idle.state, if_neg notEscape]
  rw [Machine.output_cons, Machine.run_cons, stepped]
  cases out? with
  | none =>
      simp only [rawPutc, idle.output]
      exact ⟨rfl, idle⟩
  | some out =>
      simp only [rawPutc, idle.output, interpreter, Token.calls,
        Machine.output_nil, List.append_nil]
      refine ⟨trivial, idle.state, ?_⟩
      split <;> exact idle.output

/-- An escape with any other byte than `[` is dropped. -/
theorem escape_follows
    {console : Console}
    {out? : Option TextOutput}
    (idle : Idle console out?)
    {c : UInt8}
    (notBracket : c ≠ bracket) :
    parser.output console [escapeByte, c] =
        (interpreter.step out? (.escape c notBracket)).1 ∧
      Idle (parser.run console [escapeByte, c])
        (interpreter.step out? (.escape c notBracket)).2 := by
  have entered := step_escape idle.state
  have left :
      parser.step { console with ansiState := .esc } c =
        ([], { console with ansiState := .normal }) := by
    simp only [parser, parseByte, if_neg notBracket]
  simp only [Machine.output_cons, Machine.run_cons, entered, left]
  have idleAgain : Idle { console with ansiState := .normal } out? :=
    ⟨rfl, idle.output⟩
  cases out? with
  | none =>
      exact ⟨rfl, idleAgain⟩
  | some out =>
      exact ⟨rfl, idleAgain⟩

/-- `ESC [` and a body make no call and leave the pieces behind. -/
theorem opened_accumulated
    {console : Console}
    (normal : console.ansiState = .normal)
    {body : List UInt8}
    (bodyBytes : ∀ c ∈ body, isDigit c ∨ c = semicolon ∨ isSkipped c) :
    parser.output console (escapeByte :: bracket :: body) = [] ∧
      ∃ before last,
        Accumulated
            (parser.run console (escapeByte :: bracket :: body))
            console.conOut? before last ∧
          before ++ [last] = pieces body := by
  have entered := step_escape normal
  let reset : Console :=
    { ansiReset { console with ansiState := .esc } with
      ansiState := .csi }
  have opened :
      parser.step { console with ansiState := .esc } bracket =
        ([], reset) := by
    simp only [parser, parseByte, if_true, reset]
  have fresh : Accumulated reset console.conOut? [] [] :=
    accumulated_ansiReset _
  simp only [Machine.output_cons, Machine.run_cons, entered, opened,
    List.nil_append]
  exact body_accumulated bodyBytes fresh

/-- A control sequence is executed with its own parameters. -/
theorem control_follows
    {console : Console}
    {out? : Option TextOutput}
    (idle : Idle console out?)
    (sequence : ControlSequence) :
    parser.output console (Token.control sequence).encode =
        (interpreter.step out? (.control sequence)).1 ∧
      Idle (parser.run console (Token.control sequence).encode)
        (interpreter.step out? (.control sequence)).2 := by
  obtain ⟨silent, before, last, accumulated, whole⟩ :=
    opened_accumulated idle.state sequence.bodyBytes
  rw [idle.output] at accumulated
  have room : before.length < 8 := by
    have few := sequence.fewParameters
    rw [← whole, List.length_append, List.length_singleton] at few
    omega
  have half := accumulated.halfRead (Nat.le_of_lt room)
  have executed :=
    half.execute room
      (by rw [whole]; exact sequence.smallParameters) sequence.final
  rw [whole] at executed
  have closed := step_final half.state sequence.finalByte
  have shape :
      (Token.control sequence).encode =
        (escapeByte :: bracket :: sequence.body) ++ [sequence.final] :=
    rfl
  rw [shape, Machine.output_append, Machine.run_append, silent,
    List.nil_append]
  generalize
    parser.run console (escapeByte :: bracket :: sequence.body) = inside at *
  rw [Machine.output_cons, Machine.run_cons, closed, Machine.output_nil,
    Machine.run_nil, List.append_nil]
  cases out? with
  | none =>
      obtain ⟨noCalls, noOutput⟩ := executed
      exact ⟨noCalls, rfl, noOutput⟩
  | some out =>
      obtain ⟨sameCalls, sameOutput⟩ := executed
      exact ⟨sameCalls, rfl, sameOutput⟩

/-- The parser acts on the bytes of every token like the interpreter. -/
theorem token_follows
    {console : Console}
    {out? : Option TextOutput}
    (token : Token)
    (idle : Idle console out?) :
    parser.output console token.encode =
        (interpreter.step out? token).1 ∧
      Idle (parser.run console token.encode)
        (interpreter.step out? token).2 := by
  cases token with
  | plain c notEscape =>
      exact plain_follows idle notEscape
  | escape c notBracket =>
      exact escape_follows idle notBracket
  | control sequence =>
      exact control_follows idle sequence

/--
Any calls of the output functions that print the bytes of some tokens, from
`ST_NORMAL`, make exactly the firmware calls of the tokens interpreted one by
one, and end in `ST_NORMAL`.
-/
theorem output_functions_interpret_tokens
    (console : Console)
    (tokens : List Token)
    (calls : List Call)
    (normal : console.ansiState = .normal)
    (split : calls.flatMap Call.bytes = tokens.flatMap Token.encode) :
    outputFunctions.output console calls =
        interpreter.output console.conOut? tokens ∧
      (outputFunctions.run console calls).ansiState = .normal ∧
      (outputFunctions.run console calls).conOut? =
        interpreter.run console.conOut? tokens := by
  unfold outputFunctions
  rw [parser.output_fed, parser.run_fed, split]
  obtain ⟨sameOutput, idle⟩ :=
    parser.output_tokens interpreter Token.encode token_follows
      (⟨normal, rfl⟩ : Idle console console.conOut?) tokens
  exact ⟨sameOutput, idle.state, idle.output⟩

/-- `ESC [ 3 1 ; ? 4 4 m`, a red letter on a blue ground. -/
def redOnBlue : ControlSequence where
  body := [0x33, 0x31, 0x3B, 0x3F, 0x34, 0x34]
  final := finalSgr
  bodyBytes := by
    simp [isDigit, isSkipped]
  finalByte := by decide
  fewParameters := by decide +kernel
  smallParameters := by decide +kernel

/-- A colour change, a dropped escape and a letter, cut inside the first. -/
theorem output_functions_interpret_tokens_cut :
    let console := Console.boot (some ⟨some ⟨some 7⟩⟩) fun _ => 0xCC
    let tokens : List Token :=
      [.control redOnBlue, .escape 0x37 (by decide),
        .plain 0x41 (by decide)]
    outputFunctions.output console
        [.write [0x1B, 0x5B, 0x33], .putc 0x31,
          .puts [0x3B, 0x3F, 0x34, 0x34, 0x6D, 0x1B], .write [0x37, 0x41]] =
      interpreter.output console.conOut? tokens :=
  (output_functions_interpret_tokens
    (.boot (some ⟨some ⟨some 7⟩⟩) fun _ => 0xCC)
    [.control redOnBlue, .escape 0x37 (by decide), .plain 0x41 (by decide)]
    [.write [0x1B, 0x5B, 0x33], .putc 0x31,
      .puts [0x3B, 0x3F, 0x34, 0x34, 0x6D, 0x1B], .write [0x37, 0x41]]
    rfl (by decide +kernel)).1

end RubyOnBareMetal.UefiConsole
