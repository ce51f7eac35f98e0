import RubyOnBareMetal.Foundation.Regexp
import RubyOnBareMetal.Shell.Vfs

namespace RubyOnBareMetal.Shell

open Foundation

/-!
# `VFS.glob` of `ruby/scripts/init.rb`

A pattern becomes the source of a regular expression by three substitutions,
one after the other.  They leave every metacharacter but the dot as it is, and
the source is put between line anchors: the expression finds whole lines of a
key, not the key.  Keys and patterns are binary strings, as all strings of the
scripts are, so the characters that are matched are bytes.
-/

/-- `re_str`. -/
def reStr (pattern : Path) : List UInt8 :=
  Ruby.gsub Regexp.mark [Regexp.dot]
    (Ruby.gsub Regexp.star [Regexp.dot, Regexp.star]
      (Ruby.gsub Regexp.dot [Regexp.backslash, Regexp.dot] pattern))

/-- `VFS.glob`; an exception is `none`. -/
def Vfs.glob
    (other : List UInt8 → Option (List UInt8 → Bool))
    (vfs : Vfs)
    (pattern : Path) :
    Option (List Path) :=
  (Regexp.new? other
    (Regexp.caret :: (reStr pattern ++ [Regexp.dollar]))).map fun re =>
      (vfs.keys.filter re).insertionSort (· ≤ ·)

/-! ## What a pattern is for -/

/-- What a character of a pattern stands for. -/
def wildcard (c : UInt8) : Piece UInt8 :=
  if c = Regexp.star then
    .many
  else if c = Regexp.mark then
    .one
  else
    .exactly c

/-- The pattern matches the whole key. -/
abbrev MatchesKey (pattern key : Path) : Prop :=
  Spells anyLetter (pattern.map wildcard) key

/-- The sorted list of the keys that the pattern matches. -/
def GlobsExactly
    (vfs : Vfs)
    (pattern : Path)
    (result : Option (List Path)) : Prop :=
  ∃ found,
    result = some found ∧
      found.Pairwise (· ≤ ·) ∧
      found.Perm (vfs.keys.filter fun key => MatchesKey pattern key)

/-- The pattern has no metacharacter that is left as it is. -/
def Plain (pattern : Path) : Prop :=
  ∀ c ∈ pattern,
    c ∈ Regexp.metacharacters → c ∈ [Regexp.dot, Regexp.star, Regexp.mark]

instance (pattern : Path) : Decidable (Plain pattern) :=
  List.decidableBAll _ pattern

/--
The anchors go wrong: a proper part of the key, some lines of it, matches the
pattern, and the key does not.
-/
structure PartOnly (pattern key : Path) : Prop where
  part :
    ∃ before segment after,
      key = before ++ (segment ++ after) ∧
        (before ≠ [] ∨ after ≠ []) ∧
        Regexp.WholeLines before segment after ∧
        Spells (· ≠ Regexp.lineBreak) (pattern.map wildcard) segment
  notWhole : ¬MatchesKey pattern key

/--
The dot goes wrong: the key matches the pattern, with a line break of the key
for a wildcard, and no lines of it match without.
-/
structure AcrossOnly (pattern key : Path) : Prop where
  whole : MatchesKey pattern key
  breaks : pattern.count Regexp.lineBreak < key.count Regexp.lineBreak
  noLines : ¬Regexp.SpellsLines (pattern.map wildcard) key

/-! ## The three substitutions -/

/-- The substitutions of one after the other character. -/
theorem reStr_cons (c : UInt8) (pattern : List UInt8) :
    reStr (c :: pattern) =
      (if c = Regexp.dot then [Regexp.backslash, Regexp.dot]
        else if c = Regexp.star then [Regexp.dot, Regexp.star]
        else if c = Regexp.mark then [Regexp.dot]
        else [c]) ++ reStr pattern := by
  unfold reStr
  split_ifs with isDot isStar isMark
  · subst isDot
    rw [Ruby.gsub_letter, List.cons_append, List.cons_append,
      List.nil_append, Ruby.gsub_other (by decide),
      Ruby.gsub_other (by decide), Ruby.gsub_other (by decide),
      Ruby.gsub_other (by decide)]
    rfl
  · subst isStar
    rw [Ruby.gsub_other isDot, Ruby.gsub_letter, List.cons_append,
      List.cons_append, List.nil_append, Ruby.gsub_other (by decide),
      Ruby.gsub_other (by decide)]
    rfl
  · subst isMark
    rw [Ruby.gsub_other isDot, Ruby.gsub_other isStar, Ruby.gsub_letter]
  · rw [Ruby.gsub_other isDot, Ruby.gsub_other isStar,
      Ruby.gsub_other isMark]
    rfl

/-- No source begins with a star. -/
theorem head?_reStr (pattern : List UInt8) :
    (reStr pattern).head? ≠ some Regexp.star := by
  cases pattern with
  | nil => exact fun same => nomatch same
  | cons c pattern =>
      rw [reStr_cons]
      split_ifs with isDot isStar isMark
      · exact fun same => absurd (Option.some_inj.mp same) (by decide)
      · exact fun same => absurd (Option.some_inj.mp same) (by decide)
      · exact fun same => absurd (Option.some_inj.mp same) (by decide)
      · exact fun same => isStar (Option.some_inj.mp same)

/-- The source of a plain pattern is read as the pieces of the pattern. -/
theorem pieces?_reStr
    {pattern : List UInt8}
    (plain : Plain pattern) :
    Regexp.pieces? (reStr pattern) = some (pattern.map wildcard) := by
  induction pattern with
  | nil => rfl
  | cons c pattern inductionHypothesis =>
      obtain ⟨plainHere, plainRest⟩ := List.forall_mem_cons.mp plain
      have read := inductionHypothesis plainRest
      rw [reStr_cons, List.map_cons, wildcard]
      by_cases isStar : c = Regexp.star
      · subst isStar
        rw [if_neg (by decide), if_pos rfl, if_pos rfl, List.cons_append,
          List.cons_append, List.nil_append, Regexp.pieces?, read]
        rfl
      by_cases isMark : c = Regexp.mark
      · subst isMark
        rw [if_neg (by decide), if_neg (by decide), if_pos rfl,
          if_neg (by decide), if_pos rfl, List.cons_append, List.nil_append,
          Regexp.pieces?_dot (head?_reStr pattern), read]
        rfl
      rw [if_neg isStar, if_neg isMark, if_neg isStar, if_neg isMark]
      by_cases isDot : c = Regexp.dot
      · subst isDot
        rw [if_pos rfl, List.cons_append, List.cons_append, List.nil_append,
          Regexp.pieces?, read]
        rfl
      · have notMeta : c ∉ Regexp.metacharacters := by
          intro isMeta
          rcases List.mem_cons.mp (plainHere isMeta) with dot | other
          · exact isDot dot
          · rcases List.mem_cons.mp other with star | mark
            · exact isStar star
            · exact isMark (List.mem_singleton.mp mark)
        rw [if_neg isDot, List.cons_append, List.nil_append,
          Regexp.pieces?_plain notMeta, read]
        rfl

/-! ## When the listing is right -/

/-- A pattern has the line breaks that its pieces have. -/
theorem count_map_wildcard (pattern : Path) :
    (pattern.map wildcard).count (.exactly Regexp.lineBreak) =
      pattern.count Regexp.lineBreak := by
  induction pattern with
  | nil =>
      rfl
  | cons c pattern inductionHypothesis =>
      have same :
          wildcard c = .exactly Regexp.lineBreak ↔ c = Regexp.lineBreak := by
        unfold wildcard
        split_ifs with isStar isMark
        · exact iff_of_false nofun (isStar ▸ by decide)
        · exact iff_of_false nofun (isMark ▸ by decide)
        · exact iff_of_eq (Piece.exactly.injEq c Regexp.lineBreak)
      rw [List.map_cons, List.count_cons, List.count_cons,
        inductionHypothesis]
      simp only [beq_iff_eq, same]

/-- The lines of a key that goes neither wrong way decide, and only those. -/
theorem spellsLines_iff_matchesKey
    {pattern key : Path} :
    (Regexp.SpellsLines (pattern.map wildcard) key ↔
        MatchesKey pattern key) ↔
      ¬PartOnly pattern key ∧ ¬AcrossOnly pattern key := by
  constructor
  · intro decided
    refine ⟨fun wrong => wrong.notWhole (decided.mp ?_),
      fun wrong => wrong.noLines (decided.mpr wrong.whole)⟩
    obtain ⟨before, segment, after, split, _, lines, spells⟩ := wrong.part
    exact ⟨before, segment, after, split, lines, spells⟩
  · rintro ⟨notPart, notAcross⟩
    constructor
    · rintro ⟨before, segment, after, split, lines, spells⟩
      by_contra notWhole
      refine notPart ⟨⟨before, segment, after, split, ?_, lines, spells⟩,
        notWhole⟩
      by_contra whole
      obtain ⟨rfl, rfl⟩ := not_or.mp whole |>.imp not_not.mp not_not.mp
      rw [List.nil_append, List.append_nil] at split
      exact notWhole (split ▸ spells.mono fun _ _ => trivial)
    · intro whole
      by_contra noLines
      refine notAcross ⟨whole, ?_, noLines⟩
      by_contra few
      rw [not_lt, ← count_map_wildcard pattern] at few
      exact noLines
        ((Regexp.spellsLines_iff_of_count_le few).mpr whole)

/-- What a plain pattern selects. -/
theorem glob_plain
    (other : List UInt8 → Option (List UInt8 → Bool))
    (vfs : Vfs)
    {pattern : Path}
    (plain : Plain pattern) :
    vfs.glob other pattern =
      some ((vfs.keys.filter
        (Regexp.matchesLine (pattern.map wildcard))).insertionSort
          (· ≤ ·)) := by
  rw [Vfs.glob, Regexp.new?_anchored (pieces?_reStr plain), Option.map_some]

/-- The listing is right if and only if the lines of every key decide. -/
theorem globsExactly_iff
    (other : List UInt8 → Option (List UInt8 → Bool))
    (vfs : Vfs)
    {pattern : Path}
    (plain : Plain pattern) :
    GlobsExactly vfs pattern (vfs.glob other pattern) ↔
      ∀ key ∈ vfs.keys,
        Regexp.SpellsLines (pattern.map wildcard) key ↔
          MatchesKey pattern key := by
  rw [glob_plain other vfs plain]
  constructor
  · rintro ⟨found, globbed, _, listed⟩ key member
    obtain rfl := Option.some_inj.mp globbed
    have same := (List.perm_insertionSort _ _).symm.trans listed
    rw [← Regexp.matchesLine_iff]
    simpa [member] using same.mem_iff (a := key)
  · intro decided
    refine ⟨_, rfl, List.pairwise_insertionSort _ _,
      (List.perm_insertionSort _ _).trans (List.Perm.of_eq ?_)⟩
    refine List.filter_congr fun key member => ?_
    rw [Bool.eq_iff_iff, decide_eq_true_iff, Regexp.matchesLine_iff]
    exact decided key member

/-- A key of one line goes neither wrong way. -/
theorem lines_decide_of_oneLine
    (pattern : Path)
    {key : Path}
    (oneLine : Regexp.lineBreak ∉ key) :
    Regexp.SpellsLines (pattern.map wildcard) key ↔
      MatchesKey pattern key :=
  Regexp.spellsLines_iff_of_count_le
    (List.count_eq_zero_of_not_mem oneLine ▸ Nat.zero_le _)

/-- Question marks are spelled by the texts of their number. -/
theorem spells_marks_iff
    {allowed : UInt8 → Prop}
    {count : Nat}
    {text : List UInt8} :
    Spells allowed ((List.replicate count Regexp.mark).map wildcard) text ↔
      text.length = count ∧ ∀ c ∈ text, allowed c := by
  induction count generalizing text with
  | zero =>
      constructor
      · rintro ⟨⟩
        exact ⟨rfl, List.forall_mem_nil _⟩
      · rintro ⟨empty, _⟩
        rw [List.length_eq_zero_iff.mp empty]
        exact .nil
  | succ count inductionHypothesis =>
      rw [List.replicate_succ, List.map_cons, wildcard, if_neg (by decide),
        if_pos rfl]
      constructor
      · rintro (_ | _ | ⟨stands, rest⟩)
        obtain ⟨rfl, stand⟩ := inductionHypothesis.mp rest
        exact ⟨rfl, List.forall_mem_cons.mpr ⟨stands, stand⟩⟩
      · rintro ⟨length, stand⟩
        cases text with
        | nil => exact nomatch length
        | cons c text =>
            obtain ⟨stands, stand⟩ := List.forall_mem_cons.mp stand
            exact .one stands
              (inductionHypothesis.mpr ⟨Nat.succ.inj length, stand⟩)

/-- As many question marks as the first line is long find a longer key. -/
theorem exists_partOnly
    {key : Path}
    (breaks : Regexp.lineBreak ∈ key) :
    ∃ pattern, Plain pattern ∧ PartOnly pattern key := by
  obtain ⟨line, rest, rfl, oneLine⟩ := List.eq_append_cons_of_mem breaks
  have onLine : ∀ c ∈ line, c ≠ Regexp.lineBreak :=
    fun c member same => oneLine (same ▸ member)
  refine ⟨List.replicate line.length Regexp.mark, ?_, ?_, ?_⟩
  · intro c member _
    rw [List.eq_of_mem_replicate member]
    decide
  · exact ⟨[], line, Regexp.lineBreak :: rest, rfl,
      .inr (List.cons_ne_nil _ _), ⟨.inl rfl, rfl⟩,
      spells_marks_iff.mpr ⟨rfl, onLine⟩⟩
  · intro whole
    have length := (spells_marks_iff.mp whole).1
    rw [List.length_append, List.length_cons] at length
    omega

/--
For every file system: with a pattern that has no metacharacters other than
`.`, `*` and `?`, `VFS.glob` returns the sorted list of the keys that the
pattern matches if and only if the anchors and the dot go wrong for no key;
and it does so with all these patterns if and only if no key has a line break.
-/
theorem glob_exact_iff
    (other : List UInt8 → Option (List UInt8 → Bool))
    (vfs : Vfs) :
    (∀ pattern,
      Plain pattern →
        (GlobsExactly vfs pattern (vfs.glob other pattern) ↔
          ∀ key ∈ vfs.keys,
            ¬PartOnly pattern key ∧ ¬AcrossOnly pattern key)) ∧
      ((∀ pattern,
          Plain pattern →
            GlobsExactly vfs pattern (vfs.glob other pattern)) ↔
        ∀ key ∈ vfs.keys, Regexp.lineBreak ∉ key) := by
  have exactly (pattern : Path) (plain : Plain pattern) :
      GlobsExactly vfs pattern (vfs.glob other pattern) ↔
        ∀ key ∈ vfs.keys,
          ¬PartOnly pattern key ∧ ¬AcrossOnly pattern key := by
    simp only [globsExactly_iff other vfs plain, spellsLines_iff_matchesKey]
  refine ⟨exactly, ?_⟩
  constructor
  · intro right key member breaks
    obtain ⟨pattern, plain, wrong⟩ := exists_partOnly breaks
    exact ((exactly pattern plain).mp (right pattern plain) key member).1
      wrong
  · intro oneLine pattern plain
    exact (globsExactly_iff other vfs plain).mpr fun key member =>
      lines_decide_of_oneLine pattern (oneLine key member)

/-- `/l*.r?` with `/lib.rb` and `/lib.txt`. -/
theorem glob_exact_library :
    let vfs : Vfs :=
      [(['/', 'l', 'i', 'b', '.', 't', 'x', 't'].map asciiByte, []),
        (['/', 'l', 'i', 'b', '.', 'r', 'b'].map asciiByte, [])]
    let pattern := ['/', 'l', '*', '.', 'r', '?'].map asciiByte
    GlobsExactly vfs pattern (vfs.glob (fun _ => none) pattern) := by
  intro vfs pattern
  have oneLine : ∀ key ∈ vfs.keys, Regexp.lineBreak ∉ key := by
    decide +kernel
  exact ((glob_exact_iff (fun _ => none) vfs).1 pattern
    (by decide +kernel)).mpr fun key member =>
      spellsLines_iff_matchesKey.mp
        (lines_decide_of_oneLine pattern (oneLine key member))

/-- The pattern `a` finds a key whose first line is `a`. -/
theorem glob_finds_line :
    let key := ['a', '\n', 'b'].map asciiByte
    let pattern := ['a'].map asciiByte
    let vfs : Vfs := [(key, [])]
    vfs.glob (fun _ => none) pattern = some [key] ∧
      ¬GlobsExactly vfs pattern (vfs.glob (fun _ => none) pattern) := by
  intro key pattern vfs
  have found : vfs.glob (fun _ => none) pattern = some [key] := by
    decide +kernel
  refine ⟨found, ?_⟩
  rintro ⟨listed, same, _, wanted⟩
  obtain rfl := Option.some_inj.mp (found.symm.trans same)
  have matched :=
    (List.mem_filter.mp (wanted.mem_iff.mp List.mem_cons_self)).2
  exact absurd matched (by decide +kernel)

end RubyOnBareMetal.Shell
