import Mathlib.Data.List.Count
import RubyOnBareMetal.Foundation.Bytes

namespace Foundation

/-!
# Wildcards and the regular expressions they are written as

A pattern is a list of pieces: a letter for itself, one letter, or any string
of letters.  It may be matched against a whole text, or against a run of whole
lines of it, which is what a regular expression between `^` and `$` does.  The
regular expressions here are those of binary strings: a letter is a byte.
-/

/-- A piece of a pattern. -/
inductive Piece (Letter : Type) where
  | exactly (letter : Letter)
  | one
  | many
  deriving Repr, DecidableEq

variable {Letter : Type}

/-- A text is spelled by pieces; what stands for a wildcard is allowed. -/
inductive Spells (allowed : Letter → Prop) :
    List (Piece Letter) → List Letter → Prop where
  | nil :
      Spells allowed [] []
  | exactly
      {letter : Letter}
      {pieces : List (Piece Letter)}
      {text : List Letter}
      (rest : Spells allowed pieces text) :
      Spells allowed (.exactly letter :: pieces) (letter :: text)
  | one
      {letter : Letter}
      {pieces : List (Piece Letter)}
      {text : List Letter}
      (stands : allowed letter)
      (rest : Spells allowed pieces text) :
      Spells allowed (.one :: pieces) (letter :: text)
  | many
      {start : List Letter}
      {pieces : List (Piece Letter)}
      {text : List Letter}
      (stand : ∀ letter ∈ start, allowed letter)
      (rest : Spells allowed pieces text) :
      Spells allowed (.many :: pieces) (start ++ text)

/-- Every letter is allowed. -/
abbrev anyLetter : Letter → Prop := fun _ => True

/-! ## Matching -/

/-- Any allowed letters, and then what is looked for. -/
def skipMany
    (allowed : Letter → Prop)
    [DecidablePred allowed]
    (found : List Letter → Bool) :
    List Letter → Bool
  | [] => found []
  | letter :: text =>
      found (letter :: text) ||
        (decide (allowed letter) && skipMany allowed found text)

/-- The pieces spell a start of the text, and the rest of it is an end. -/
def matchPieces
    [DecidableEq Letter]
    (allowed : Letter → Prop)
    [DecidablePred allowed]
    (isEnd : List Letter → Bool) :
    List (Piece Letter) → List Letter → Bool
  | [], text => isEnd text
  | .exactly _ :: _, [] => false
  | .exactly letter :: pieces, first :: text =>
      decide (letter = first) && matchPieces allowed isEnd pieces text
  | .one :: _, [] => false
  | .one :: pieces, first :: text =>
      decide (allowed first) && matchPieces allowed isEnd pieces text
  | .many :: pieces, text =>
      skipMany allowed (matchPieces allowed isEnd pieces) text

/-- What is skipped is allowed. -/
theorem skipMany_iff
    {allowed : Letter → Prop}
    [DecidablePred allowed]
    {found : List Letter → Bool}
    {text : List Letter} :
    skipMany allowed found text ↔
      ∃ start rest,
        text = start ++ rest ∧
          (∀ letter ∈ start, allowed letter) ∧
          found rest := by
  induction text with
  | nil =>
      rw [skipMany]
      constructor
      · intro matched
        exact ⟨[], [], rfl, List.forall_mem_nil _, matched⟩
      · rintro ⟨start, rest, split, _, matched⟩
        obtain ⟨rfl, rfl⟩ := List.nil_eq_append_iff.mp split
        exact matched
  | cons letter text inductionHypothesis =>
      rw [skipMany, Bool.or_eq_true, Bool.and_eq_true, decide_eq_true_eq,
        inductionHypothesis]
      constructor
      · rintro (matched | ⟨stands, start, rest, rfl, stand, matched⟩)
        · exact ⟨[], _, rfl, List.forall_mem_nil _, matched⟩
        · exact ⟨letter :: start, rest, rfl,
            List.forall_mem_cons.mpr ⟨stands, stand⟩, matched⟩
      · rintro ⟨start, rest, split, stand, matched⟩
        cases start with
        | nil =>
            rw [List.nil_append] at split
            exact .inl (split ▸ matched)
        | cons first start =>
            obtain ⟨rfl, rfl⟩ := List.cons_eq_cons.mp split
            obtain ⟨stands, stand⟩ := List.forall_mem_cons.mp stand
            exact .inr ⟨stands, start, rest, rfl, stand, matched⟩

section Matching

variable
  [DecidableEq Letter]
  {allowed : Letter → Prop}
  [DecidablePred allowed]
  {isEnd : List Letter → Bool}
  {pieces : List (Piece Letter)}

/-- A letter for itself comes first in the text. -/
theorem matchPieces_exactly
    {letter : Letter}
    {text : List Letter} :
    matchPieces allowed isEnd (.exactly letter :: pieces) text ↔
      ∃ rest,
        text = letter :: rest ∧ matchPieces allowed isEnd pieces rest := by
  cases text with
  | nil =>
      rw [matchPieces]
      exact iff_of_false Bool.false_ne_true fun ⟨_, same, _⟩ => nomatch same
  | cons first text =>
      rw [matchPieces, Bool.and_eq_true, decide_eq_true_eq]
      constructor
      · rintro ⟨rfl, matched⟩
        exact ⟨text, rfl, matched⟩
      · rintro ⟨rest, same, matched⟩
        obtain ⟨rfl, rfl⟩ := List.cons_eq_cons.mp same
        exact ⟨rfl, matched⟩

/-- An allowed letter comes first in the text. -/
theorem matchPieces_one {text : List Letter} :
    matchPieces allowed isEnd (.one :: pieces) text ↔
      ∃ letter rest,
        text = letter :: rest ∧
          allowed letter ∧
          matchPieces allowed isEnd pieces rest := by
  cases text with
  | nil =>
      rw [matchPieces]
      exact iff_of_false Bool.false_ne_true
        fun ⟨_, _, same, _⟩ => nomatch same
  | cons first text =>
      rw [matchPieces, Bool.and_eq_true, decide_eq_true_eq]
      constructor
      · rintro ⟨stands, matched⟩
        exact ⟨first, text, rfl, stands, matched⟩
      · rintro ⟨letter, rest, same, stands, matched⟩
        obtain ⟨rfl, rfl⟩ := List.cons_eq_cons.mp same
        exact ⟨stands, matched⟩

/-- The matcher finds what the pieces spell. -/
theorem matchPieces_iff {text : List Letter} :
    matchPieces allowed isEnd pieces text ↔
      ∃ segment rest,
        text = segment ++ rest ∧
          Spells allowed pieces segment ∧
          isEnd rest := by
  induction pieces generalizing text with
  | nil =>
      rw [matchPieces]
      constructor
      · intro ended
        exact ⟨[], text, rfl, .nil, ended⟩
      · rintro ⟨segment, rest, rfl, ⟨⟩, ended⟩
        exact ended
  | cons piece pieces inductionHypothesis =>
      cases piece with
      | exactly letter =>
          simp only [matchPieces_exactly, inductionHypothesis]
          constructor
          · rintro ⟨_, rfl, segment, rest, rfl, spells, ended⟩
            exact ⟨letter :: segment, rest, rfl, .exactly spells, ended⟩
          · rintro ⟨_, rest, rfl, spells, ended⟩
            cases spells with
            | exactly spells =>
                exact ⟨_, rfl, _, rest, rfl, spells, ended⟩
      | one =>
          simp only [matchPieces_one, inductionHypothesis]
          constructor
          · rintro ⟨first, _, rfl, stands, segment, rest, rfl, spells, ended⟩
            exact ⟨first :: segment, rest, rfl, .one stands spells, ended⟩
          · rintro ⟨_, rest, rfl, spells, ended⟩
            cases spells with
            | one stands spells =>
                exact ⟨_, _, rfl, stands, _, rest, rfl, spells, ended⟩
      | many =>
          simp only [matchPieces, skipMany_iff, inductionHypothesis]
          constructor
          · rintro ⟨start, _, rfl, stand, segment, rest, rfl, spells, ended⟩
            exact ⟨start ++ segment, rest,
              (List.append_assoc start segment rest).symm,
              .many stand spells, ended⟩
          · rintro ⟨_, rest, rfl, spells, ended⟩
            cases spells with
            | many stand spells =>
                exact ⟨_, _, List.append_assoc _ _ rest, stand, _, rest, rfl,
                  spells, ended⟩

end Matching

instance
    [DecidableEq Letter]
    (allowed : Letter → Prop)
    [DecidablePred allowed]
    (pieces : List (Piece Letter))
    (text : List Letter) :
    Decidable (Spells allowed pieces text) :=
  decidable_of_iff (matchPieces allowed List.isEmpty pieces text) <| by
    rw [matchPieces_iff]
    constructor
    · rintro ⟨segment, rest, rfl, spells, ended⟩
      rw [List.isEmpty_iff.mp ended, List.append_nil]
      exact spells
    · intro spells
      exact ⟨text, [], (List.append_nil text).symm, spells, rfl⟩

/-- With more letters allowed, no less is spelled. -/
theorem Spells.mono
    {allowed more : Letter → Prop}
    (grows : ∀ letter, allowed letter → more letter)
    {pieces : List (Piece Letter)}
    {text : List Letter}
    (spells : Spells allowed pieces text) :
    Spells more pieces text := by
  induction spells with
  | nil => exact .nil
  | exactly _ inductionHypothesis => exact .exactly inductionHypothesis
  | one stands _ inductionHypothesis =>
      exact .one (grows _ stands) inductionHypothesis
  | many stand _ inductionHypothesis =>
      exact .many (fun letter member => grows letter (stand letter member))
        inductionHypothesis

section Counting

variable
  [DecidableEq Letter]
  {letter : Letter}
  {pieces : List (Piece Letter)}
  {text : List Letter}

/-- A text has the letters that stand for themselves. -/
theorem Spells.count_le
    {allowed : Letter → Prop}
    (spells : Spells allowed pieces text)
    (letter : Letter) :
    pieces.count (.exactly letter) ≤ text.count letter := by
  induction spells with
  | nil =>
      exact Nat.le_refl 0
  | exactly _ inductionHypothesis =>
      simp only [List.count_cons, beq_iff_eq, Piece.exactly.injEq]
      exact Nat.add_le_add_right inductionHypothesis _
  | one _ _ inductionHypothesis =>
      rw [List.count_cons_of_ne (by simp)]
      exact Nat.le_trans inductionHypothesis List.count_le_count_cons
  | many _ _ inductionHypothesis =>
      rw [List.count_cons_of_ne (by simp), List.count_append]
      exact Nat.le_trans inductionHypothesis (Nat.le_add_left _ _)

/-- A letter that no wildcard stands for stands for itself. -/
theorem Spells.count_eq
    (spells : Spells (· ≠ letter) pieces text) :
    text.count letter = pieces.count (.exactly letter) := by
  induction spells with
  | nil =>
      rfl
  | exactly _ inductionHypothesis =>
      simp only [List.count_cons, beq_iff_eq, Piece.exactly.injEq,
        inductionHypothesis]
  | one stands _ inductionHypothesis =>
      rw [List.count_cons_of_ne stands, List.count_cons_of_ne (by simp),
        inductionHypothesis]
  | many stand _ inductionHypothesis =>
      have noneThere : letter ∉ _ := fun member => stand letter member rfl
      rw [List.count_append, List.count_eq_zero_of_not_mem noneThere,
        Nat.zero_add, List.count_cons_of_ne (by simp), inductionHypothesis]

/-- If the pieces use a letter up, no wildcard stands for it. -/
theorem Spells.avoid
    {allowed : Letter → Prop}
    (spells : Spells allowed pieces text)
    (usedUp : text.count letter ≤ pieces.count (.exactly letter)) :
    Spells (· ≠ letter) pieces text := by
  induction spells with
  | nil =>
      exact .nil
  | exactly _ inductionHypothesis =>
      simp only [List.count_cons, beq_iff_eq, Piece.exactly.injEq] at usedUp
      exact .exactly (inductionHypothesis (Nat.le_of_add_le_add_right usedUp))
  | @one first _ _ _ spells inductionHypothesis =>
      have isWildcard : Piece.one ≠ .exactly letter := nofun
      rw [List.count_cons_of_ne isWildcard] at usedUp
      have enough := spells.count_le letter
      have different : first ≠ letter := by
        rintro rfl
        rw [List.count_cons_self] at usedUp
        omega
      rw [List.count_cons_of_ne different] at usedUp
      exact .one different (inductionHypothesis usedUp)
  | @many start _ _ _ spells inductionHypothesis =>
      have isWildcard : Piece.many ≠ .exactly letter := nofun
      rw [List.count_cons_of_ne isWildcard, List.count_append] at usedUp
      have enough := spells.count_le letter
      have noneThere : letter ∉ start :=
        List.count_eq_zero.mp (by omega)
      refine .many (fun other member same => noneThere (same ▸ member))
        (inductionHypothesis (by omega))

end Counting

/-! ## Regular expressions between line anchors -/

namespace Regexp

/-- The byte of a line break. -/
abbrev lineBreak : UInt8 := 0x0A

/-- The byte of the dot. -/
abbrev dot : UInt8 := 0x2E

/-- The byte of the star. -/
abbrev star : UInt8 := 0x2A

/-- The byte of the question mark. -/
abbrev mark : UInt8 := 0x3F

/-- The byte of the backslash. -/
abbrev backslash : UInt8 := 0x5C

/-- The byte of `^`. -/
abbrev caret : UInt8 := 0x5E

/-- The byte of `$`. -/
abbrev dollar : UInt8 := 0x24

/-- The end of a line: of the text, or before a line break. -/
def isLineEnd : List UInt8 → Bool
  | [] => true
  | c :: _ => decide (c = lineBreak)

/-- What follows the line breaks, except at the end of the text. -/
def laterLines : List UInt8 → List (List UInt8)
  | [] => []
  | c :: text =>
      if c = lineBreak ∧ text ≠ [] then
        text :: laterLines text
      else
        laterLines text

/-- `match?` of the pieces between `^` and `$`; `.` is no line break. -/
def matchesLine (pieces : List (Piece UInt8)) (text : List UInt8) : Bool :=
  (text :: laterLines text).any
    (matchPieces (· ≠ lineBreak) isLineEnd pieces)

/-- The letters that do not stand for themselves. -/
def metacharacters : List UInt8 :=
  [backslash, dot, star, mark, dollar, caret] ++
    ['+', '(', ')', '[', '{', '|'].map asciiByte

/-- The piece of a letter with nothing special before or behind it. -/
def piece? (c : UInt8) : Option (Piece UInt8) :=
  if c = dot then
    some .one
  else if c ∈ metacharacters then
    none
  else
    some (.exactly c)

/-- The pieces of a source of plain letters, `\.`, `.` and `.*`. -/
def pieces? : List UInt8 → Option (List (Piece UInt8))
  | [] => some []
  | [c] => (piece? c).map fun piece => [piece]
  | c :: next :: source =>
      if c = backslash ∧ next = dot then
        (pieces? source).map (.exactly dot :: ·)
      else if c = dot ∧ next = star then
        (pieces? source).map (.many :: ·)
      else
        (piece? c).bind fun piece =>
          (pieces? (next :: source)).map (piece :: ·)

/-- The pieces of a source between `^` and `$`. -/
def anchored? : List UInt8 → Option (List (Piece UInt8))
  | [] => none
  | c :: body =>
      if c = caret ∧ body.getLast? = some dollar then
        pieces? body.dropLast
      else
        none

/--
`Regexp.new` and `match?`; an error is `none`.  Sources of another kind are a
parameter.
-/
def new?
    (other : List UInt8 → Option (List UInt8 → Bool))
    (source : List UInt8) :
    Option (List UInt8 → Bool) :=
  match anchored? source with
  | some pieces => some (matchesLine pieces)
  | none => other source

/-- The segment of a text consists of whole lines. -/
structure WholeLines (before segment after : List UInt8) : Prop where
  starts :
    before = [] ∨
      ∃ earlier, before = earlier ++ [lineBreak] ∧ segment ++ after ≠ []
  ends : isLineEnd after

/-- A run of whole lines is spelled, with no line break for a wildcard. -/
def SpellsLines (pieces : List (Piece UInt8)) (text : List UInt8) : Prop :=
  ∃ before segment after,
    text = before ++ (segment ++ after) ∧
      WholeLines before segment after ∧
      Spells (· ≠ lineBreak) pieces segment

/-- The later lines are what follows the line breaks. -/
theorem mem_laterLines
    {text rest : List UInt8} :
    rest ∈ laterLines text ↔
      rest ≠ [] ∧ ∃ earlier, text = earlier ++ lineBreak :: rest := by
  induction text with
  | nil =>
      constructor
      · intro member
        exact nomatch member
      · rintro ⟨_, earlier, split⟩
        exact absurd split.symm
          (List.append_ne_nil_of_right_ne_nil _ (List.cons_ne_nil _ _))
  | cons c text inductionHypothesis =>
      have later :
          rest ∈ laterLines (c :: text) ↔
            (c = lineBreak ∧ rest = text ∧ rest ≠ []) ∨
              rest ∈ laterLines text := by
        rw [laterLines]
        split
        · rename_i breaks
          rw [List.mem_cons]
          exact or_congr_left ⟨fun same => ⟨breaks.1, same, same ▸ breaks.2⟩,
            fun same => same.2.1⟩
        · rename_i unbroken
          refine ⟨.inr, ?_⟩
          rintro (⟨breaks, rfl, nonempty⟩ | member)
          · exact absurd ⟨breaks, nonempty⟩ unbroken
          · exact member
      rw [later, inductionHypothesis]
      constructor
      · rintro (⟨rfl, rfl, nonempty⟩ | ⟨nonempty, earlier, rfl⟩)
        · exact ⟨nonempty, [], rfl⟩
        · exact ⟨nonempty, c :: earlier, rfl⟩
      · rintro ⟨nonempty, earlier, split⟩
        cases earlier with
        | nil =>
            obtain ⟨rfl, rfl⟩ := List.cons_eq_cons.mp split
            exact .inl ⟨rfl, rfl, nonempty⟩
        | cons first earlier =>
            obtain ⟨rfl, rfl⟩ := List.cons_eq_cons.mp split
            exact .inr ⟨nonempty, earlier, rfl⟩

/-- An expression between line anchors finds whole lines. -/
theorem matchesLine_iff
    {pieces : List (Piece UInt8)}
    {text : List UInt8} :
    matchesLine pieces text ↔ SpellsLines pieces text := by
  rw [matchesLine, List.any_eq_true]
  constructor
  · rintro ⟨line, member, matched⟩
    obtain ⟨segment, after, rfl, spells, ends⟩ :=
      matchPieces_iff.mp matched
    rcases List.mem_cons.mp member with whole | later
    · exact ⟨[], segment, after, whole.symm, ⟨.inl rfl, ends⟩, spells⟩
    · obtain ⟨nonempty, earlier, rfl⟩ := mem_laterLines.mp later
      exact ⟨earlier ++ [lineBreak], segment, after,
        List.append_cons earlier _ _,
        ⟨.inr ⟨earlier, rfl, nonempty⟩, ends⟩, spells⟩
  · rintro ⟨before, segment, after, rfl, lines, spells⟩
    have matched :
        matchPieces (· ≠ lineBreak) isLineEnd pieces (segment ++ after) :=
      matchPieces_iff.mpr ⟨segment, after, rfl, spells, lines.ends⟩
    refine ⟨segment ++ after, ?_, matched⟩
    rcases lines.starts with rfl | ⟨earlier, rfl, nonempty⟩
    · exact List.mem_cons_self
    · refine List.mem_cons_of_mem _ (mem_laterLines.mpr ⟨nonempty, ?_⟩)
      exact ⟨earlier, (List.append_cons earlier _ _).symm⟩

/-- A line that is all of the text is spelled as the text. -/
theorem spellsLines_of_spells
    {pieces : List (Piece UInt8)}
    {text : List UInt8}
    (spells : Spells (· ≠ lineBreak) pieces text) :
    SpellsLines pieces text :=
  ⟨[], text, [], (List.append_nil text).symm, ⟨.inl rfl, rfl⟩, spells⟩

/--
In a text with no more line breaks than the pieces have, a run of lines that
is spelled is the whole text.
-/
theorem spellsLines_iff_of_count_le
    {pieces : List (Piece UInt8)}
    {text : List UInt8}
    (usedUp : text.count lineBreak ≤ pieces.count (.exactly lineBreak)) :
    SpellsLines pieces text ↔ Spells anyLetter pieces text := by
  constructor
  · rintro ⟨before, segment, after, rfl, lines, spells⟩
    have counted := spells.count_eq
    rw [List.count_append, List.count_append] at usedUp
    have noneBefore : before = [] := by
      rcases lines.starts with empty | ⟨earlier, rfl, _⟩
      · exact empty
      · rw [List.count_append, List.count_singleton_self] at usedUp
        omega
    have noneAfter : after = [] := by
      cases after with
      | nil => rfl
      | cons c after =>
          obtain rfl := of_decide_eq_true lines.ends
          rw [List.count_cons_self] at usedUp
          omega
    rw [noneBefore, noneAfter, List.nil_append, List.append_nil]
    exact spells.mono fun _ _ => trivial
  · intro spells
    exact spellsLines_of_spells (spells.avoid usedUp)

/-! ## Reading a source -/

/-- A letter that starts no pair is a piece. -/
theorem pieces?_single
    {c : UInt8}
    {piece : Piece UInt8}
    {source : List UInt8}
    (noEscape : c ≠ backslash)
    (noStar : c = dot → source.head? ≠ some star)
    (single : piece? c = some piece) :
    pieces? (c :: source) = (pieces? source).map (piece :: ·) := by
  cases source with
  | nil =>
      exact congrArg (Option.map fun piece => [piece]) single
  | cons next source =>
      have notMany : ¬(c = dot ∧ next = star) :=
        fun ⟨isDot, isStar⟩ => noStar isDot (isStar ▸ rfl)
      rw [pieces?, if_neg (noEscape ·.1), if_neg notMany, single]
      rfl

/-- A plain letter is read as itself. -/
theorem pieces?_plain
    {c : UInt8}
    {source : List UInt8}
    (plain : c ∉ metacharacters) :
    pieces? (c :: source) = (pieces? source).map (.exactly c :: ·) := by
  have notBackslash : c ≠ backslash := fun same => plain (same ▸ by decide)
  have notDot : c ≠ dot := fun same => plain (same ▸ by decide)
  have single : piece? c = some (.exactly c) := by
    rw [piece?, if_neg notDot, if_neg plain]
  exact pieces?_single notBackslash (absurd · notDot) single

/-- A dot that no star follows is read as one letter. -/
theorem pieces?_dot
    {source : List UInt8}
    (noStar : source.head? ≠ some star) :
    pieces? (dot :: source) = (pieces? source).map (.one :: ·) :=
  pieces?_single (by decide) (fun _ => noStar) (if_pos rfl)

/-- A source between the anchors is what it is read as. -/
theorem new?_anchored
    {other : List UInt8 → Option (List UInt8 → Bool)}
    {source : List UInt8}
    {pieces : List (Piece UInt8)}
    (read : pieces? source = some pieces) :
    new? other (caret :: (source ++ [dollar])) =
      some (matchesLine pieces) := by
  have anchored : anchored? (caret :: (source ++ [dollar])) = some pieces := by
    rw [anchored?, List.getLast?_concat, if_pos ⟨rfl, rfl⟩,
      List.dropLast_concat, read]
  rw [new?, anchored]

end Regexp

end Foundation
