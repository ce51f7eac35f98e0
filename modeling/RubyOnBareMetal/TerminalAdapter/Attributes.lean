import RubyOnBareMetal.Foundation.Nesting
import RubyOnBareMetal.Foundation.Rendition
import RubyOnBareMetal.Foundation.Ruby
import RubyOnBareMetal.TerminalAdapter.Display

namespace RubyOnBareMetal.TerminalAdapter

open Foundation Printer

/-!
# Attributes of `patches/mui_terminal_adapter_ruby_on_bare_metal.rb`

`with_highlight` and `with_color` write a sequence before and after what their
block draws.  The end of `with_color` takes all attributes back, also those of
the blocks around it.
-/

/-- `@color_pairs`: a foreground and a background, `nil` is `none`. -/
abbrev ColorPairs := Ruby.Hash Int (Option Int × Option Int)

/-- `@buf << bytes`. -/
def Display.append (display : Display) (bytes : List UInt8) : Display :=
  { display with buf := display.buf ++ bytes }

/-- `"#{ESC}[…m"`. -/
def sgr (body : List UInt8) : List UInt8 :=
  Terminal.sequence body sgrFinal

/-- `"#{ESC}[38;5;#{c}m" if c && c >= 0`, for `3` or `4` as first digit. -/
def colorCode (layer : UInt8) (color : Option Int) : List UInt8 :=
  match color with
  | some c =>
      if 0 ≤ c then
        sgr ([layer, 0x38] ++ 0x3B :: 0x35 :: 0x3B :: decimalText c)
      else
        []
  | none => []

/-- `with_highlight`. -/
def withHighlight
    (yield : Display → Display)
    (display : Display) :
    Display :=
  (yield (display.append (sgr [0x37]))).append (sgr [0x32, 0x37])

/-- What `with_color` writes before the block. -/
def colorOpening
    (pairs : ColorPairs)
    (pairIndex : Int)
    (bold underline : Bool) :
    List UInt8 :=
  (match pairs.value? pairIndex with
    | some (fg, bg) =>
        sgr [0x30] ++ colorCode 0x33 fg ++ colorCode 0x34 bg
    | none => []) ++
  (if bold then sgr [0x31] else []) ++
  (if underline then sgr [0x34] else [])

/-- `with_color`. -/
def withColor
    (pairs : ColorPairs)
    (pairIndex : Int)
    (bold underline : Bool)
    (yield : Display → Display)
    (display : Display) :
    Display :=
  (yield (display.append (colorOpening pairs pairIndex bold underline))).append
    (sgr [0x30])

/-- A call of one of the two methods. -/
inductive Block where
  | highlight
  | color (pairIndex : Int) (bold underline : Bool)
  deriving Repr, DecidableEq

/-- A string of characters; it contains no escape. -/
abbrev Text := { str : List UInt8 // 0x1B ∉ str }

/-- Nested blocks with calls of `addstr` between them. -/
abbrev Drawing := Nesting Block Text

/-- What a drawing does to the variables. -/
def drawBlocks (pairs : ColorPairs) : Drawing → Display → Display
  | .done, display => display
  | .leaf str rest, display =>
      drawBlocks pairs rest (adapter.step display (.addstr str.val)).2
  | .block .highlight body rest, display =>
      drawBlocks pairs rest (withHighlight (drawBlocks pairs body) display)
  | .block (.color pairIndex bold underline) body rest, display =>
      drawBlocks pairs rest
        (withColor pairs pairIndex bold underline
          (drawBlocks pairs body) display)

/-! ## What is asked for -/

/-- The colour of a pair that a terminal shows. -/
def shownColor (color : Option Int) : Option Nat :=
  match color with
  | some c => if 0 ≤ c then some c.toNat else none
  | none => none

/-- The attributes that blocks ask for, from the innermost to the outermost. -/
def asked (pairs : ColorPairs) : List Block → Rendition
  | [] => Rendition.plain
  | .highlight :: outer => { asked pairs outer with reverse := true }
  | .color pairIndex bold underline :: outer =>
      let around := asked pairs outer
      {
        bold := bold || around.bold
        underline := underline || around.underline
        reverse := around.reverse
        foreground :=
          match pairs.value? pairIndex with
          | some (fg, _) => shownColor fg
          | none => around.foreground
        background :=
          match pairs.value? pairIndex with
          | some (_, bg) => shownColor bg
          | none => around.background
      }

/-- The characters of a drawing with the attributes of the blocks around. -/
def wanted (pairs : ColorPairs) (enclosing : List Block) :
    Drawing → List (UInt8 × Rendition)
  | .done => []
  | .leaf str rest =>
      (visible str.val).map (fun c => (c, asked pairs enclosing)) ++
        wanted pairs enclosing rest
  | .block label body rest =>
      wanted pairs (label :: enclosing) body ++ wanted pairs enclosing rest

/-- What a terminal with default attributes shows of a drawing. -/
def shown (pairs : ColorPairs) (drawing : Drawing) :
    List (UInt8 × Rendition) :=
  printer.output (ready Rendition.plain)
    (drawBlocks pairs drawing Display.init).buf

/-! ## Blocks that stand -/

/-- There is a call of `with_color` in the drawing. -/
def hasColor : Drawing → Bool
  | .done => false
  | .leaf _ rest => hasColor rest
  | .block .highlight body rest => hasColor body || hasColor rest
  | .block (.color ..) _ _ => true

/-- The blocks that stand inside a block: a pair replaces the attributes. -/
def inside (pairs : ColorPairs) (label : Block) (standing : List Block) :
    List Block :=
  match label with
  | .highlight => .highlight :: standing
  | .color pairIndex bold underline =>
      match pairs.value? pairIndex with
      | some _ => [.color pairIndex bold underline]
      | none => .color pairIndex bold underline :: standing

/-- The blocks that stand after a block. -/
def behind (label : Block) (body : Drawing) (standing : List Block) :
    List Block :=
  match label with
  | .highlight =>
      if hasColor body then [] else standing.filter (· ≠ .highlight)
  | .color .. => []

/-- The blocks around each text that still stand ask for what all ask for. -/
def Standing (pairs : ColorPairs) (enclosing standing : List Block) :
    Drawing → Prop
  | .done => True
  | .leaf str rest =>
      (visible str.val = [] ∨
        asked pairs enclosing = asked pairs standing) ∧
        Standing pairs enclosing standing rest
  | .block label body rest =>
      Standing pairs (label :: enclosing) (inside pairs label standing) body ∧
        Standing pairs enclosing (behind label body standing) rest

/-! ## What is written -/

/-- The bytes before a block. -/
def opening (pairs : ColorPairs) : Block → List UInt8
  | .highlight => sgr [0x37]
  | .color pairIndex bold underline =>
      colorOpening pairs pairIndex bold underline

/-- The bytes after a block. -/
def closing : Block → List UInt8
  | .highlight => sgr [0x32, 0x37]
  | .color .. => sgr [0x30]

/-- The bytes of a drawing. -/
def written (pairs : ColorPairs) (drawing : Drawing) : List UInt8 :=
  drawing.spell (opening pairs) closing Subtype.val

/-- A drawing is written behind what is in the buffer. -/
theorem buf_drawBlocks
    (pairs : ColorPairs)
    (drawing : Drawing)
    (display : Display) :
    (drawBlocks pairs drawing display).buf =
      display.buf ++ written pairs drawing := by
  induction drawing generalizing display with
  | done =>
      exact (List.append_nil _).symm
  | leaf str rest inductionHypothesis =>
      rw [drawBlocks, inductionHypothesis, written, written, Nesting.spell,
        ← List.append_assoc]
      rfl
  | block label body rest bodyHypothesis restHypothesis =>
      cases label with
      | highlight =>
          rw [drawBlocks, restHypothesis, withHighlight, Display.append,
            bodyHypothesis, written, written, written, Nesting.spell]
          simp only [Display.append, opening, closing, List.append_assoc]
      | color pairIndex bold underline =>
          rw [drawBlocks, restHypothesis, withColor, Display.append,
            bodyHypothesis, written, written, written, Nesting.spell]
          simp only [Display.append, opening, closing, List.append_assoc]

/-! ## What the sequences select -/

/-- The sequence of a palette colour has three parameters. -/
theorem shows_palette
    {layer : UInt8}
    (digit : IsDigit layer)
    (number : Nat)
    (rendition : Rendition) :
    Shows
      (sgr ([layer, 0x38] ++ 0x3B :: 0x35 :: 0x3B :: decimalDigits number))
      rendition
      (rendition.select [decimalValue [layer, 0x38], 5, number]) [] := by
  have bodyBytes :
      ∀ c ∈ [layer, 0x38] ++ 0x3B :: 0x35 :: 0x3B :: decimalDigits number,
        Terminal.IsBody c := by
    simp only [List.cons_append, List.nil_append, List.forall_mem_cons]
    exact ⟨Terminal.isBody_digit digit, by decide, by decide, by decide,
      by decide,
      fun c member => Terminal.isBody_digit (decimalDigits_digit member)⟩
  have noSeparator : (0x3B : UInt8) ∉ [layer, 0x38] := by
    intro member
    rcases List.mem_cons.mp member with rfl | member
    · exact absurd digit (by decide)
    · exact absurd member (by decide)
  have selected := shows_sgr bodyBytes rendition
  rw [controlParams_palette noSeparator (List.cons_ne_nil _ _)] at selected
  exact selected

/-- A palette colour replaces the foreground. -/
theorem shows_foreground
    (color : Option Int)
    (rendition : Rendition) :
    Shows (colorCode 0x33 color) rendition
      { rendition with
        foreground := (shownColor color).or rendition.foreground }
      [] := by
  rcases color with _ | number | number
  · exact shows_nil rendition
  · exact shows_palette (by decide) number rendition
  · exact shows_nil rendition

/-- A palette colour replaces the background. -/
theorem shows_background
    (color : Option Int)
    (rendition : Rendition) :
    Shows (colorCode 0x34 color) rendition
      { rendition with
        background := (shownColor color).or rendition.background }
      [] := by
  rcases color with _ | number | number
  · exact shows_nil rendition
  · exact shows_palette (by decide) number rendition
  · exact shows_nil rendition

/-- Bold characters are asked for, or nothing is. -/
theorem shows_bold
    (bold : Bool)
    (rendition : Rendition) :
    Shows (if bold then sgr [0x31] else []) rendition
      { rendition with bold := bold || rendition.bold } [] := by
  cases bold with
  | false => exact shows_nil rendition
  | true => exact shows_sgr (by decide +kernel) rendition

/-- Underlined characters are asked for, or nothing is. -/
theorem shows_underline
    (underline : Bool)
    (rendition : Rendition) :
    Shows (if underline then sgr [0x34] else []) rendition
      { rendition with underline := underline || rendition.underline }
      [] := by
  cases underline with
  | false => exact shows_nil rendition
  | true => exact shows_sgr (by decide +kernel) rendition

/-- A pair replaces all attributes by its colours. -/
theorem shows_pair
    (fg bg : Option Int)
    (rendition : Rendition) :
    Shows (sgr [0x30] ++ colorCode 0x33 fg ++ colorCode 0x34 bg) rendition
      { Rendition.plain with
        foreground := shownColor fg
        background := shownColor bg }
      [] := by
  have reset : Shows (sgr [0x30]) rendition Rendition.plain [] :=
    shows_sgr (by decide +kernel) rendition
  have colored :=
    (reset.append (shows_foreground fg _)).append (shows_background bg _)
  simpa only [Rendition.plain, Option.or_none, List.append_nil]
    using colored

/-- Before a block the attributes are selected that it asks for. -/
theorem shows_opening
    (pairs : ColorPairs)
    (label : Block)
    (standing : List Block) :
    Shows (opening pairs label) (asked pairs standing)
      (asked pairs (inside pairs label standing)) [] := by
  cases label with
  | highlight =>
      exact shows_sgr (by decide +kernel) _
  | color pairIndex bold underline =>
      simp only [opening, colorOpening, inside]
      cases defined : pairs.value? pairIndex with
      | none =>
          have selected :=
            ((shows_nil (asked pairs standing)).append
              (shows_bold bold _)).append (shows_underline underline _)
          simpa only [asked, defined, List.append_nil] using selected
      | some pair =>
          have selected :=
            ((shows_pair pair.1 pair.2 (asked pairs standing)).append
              (shows_bold bold _)).append (shows_underline underline _)
          simpa only [asked, defined, Rendition.plain, List.append_nil]
            using selected

/-! ## What is shown -/

/-- The characters with the attributes of the blocks that stand. -/
def displayed (pairs : ColorPairs) (standing : List Block) :
    Drawing → List (UInt8 × Rendition)
  | .done => []
  | .leaf str rest =>
      (visible str.val).map (fun c => (c, asked pairs standing)) ++
        displayed pairs standing rest
  | .block label body rest =>
      displayed pairs (inside pairs label standing) body ++
        displayed pairs (behind label body standing) rest

/-- The blocks that stand at the end. -/
def remaining (standing : List Block) : Drawing → List Block
  | .done => standing
  | .leaf _ rest => remaining standing rest
  | .block label body rest => remaining (behind label body standing) rest

/-- Without a highlight nothing is reversed. -/
theorem asked_filter
    (pairs : ColorPairs)
    (standing : List Block) :
    asked pairs (standing.filter (· ≠ .highlight)) =
      { asked pairs standing with reverse := false } := by
  induction standing with
  | nil =>
      rfl
  | cons label outer inductionHypothesis =>
      cases label with
      | highlight =>
          rw [List.filter_cons_of_neg (by decide), inductionHypothesis, asked]
      | color pairIndex bold underline =>
          rw [List.filter_cons_of_pos (by simp), asked,
            inductionHypothesis, asked]

/-- Where no block stands, none stands later. -/
theorem remaining_nil (drawing : Drawing) :
    remaining [] drawing = [] := by
  induction drawing with
  | done =>
      rfl
  | leaf str rest inductionHypothesis =>
      exact inductionHypothesis
  | block label body rest bodyHypothesis restHypothesis =>
      have none : behind label body [] = [] := by
        cases label with
        | highlight =>
            exact ite_self _
        | color pairIndex bold underline =>
            rfl
      rw [remaining, none, restHypothesis]

/-- No block stands after a drawing with colours. -/
theorem remaining_of_hasColor
    {drawing : Drawing}
    (colored : hasColor drawing = true)
    (standing : List Block) :
    remaining standing drawing = [] := by
  induction drawing generalizing standing with
  | done =>
      cases colored
  | leaf str rest inductionHypothesis =>
      exact inductionHypothesis colored standing
  | block label body rest bodyHypothesis restHypothesis =>
      rw [remaining]
      cases label with
      | highlight =>
          rw [hasColor, Bool.or_eq_true] at colored
          rcases colored with inBody | inRest
          · rw [behind, if_pos inBody, remaining_nil]
          · exact restHypothesis inRest _
      | color pairIndex bold underline =>
          exact remaining_nil rest

/-- A drawing without colours leaves all blocks that are not highlights. -/
theorem filter_remaining
    {drawing : Drawing}
    (uncolored : hasColor drawing = false)
    (standing : List Block) :
    (remaining standing drawing).filter (· ≠ .highlight) =
      standing.filter (· ≠ .highlight) := by
  induction drawing generalizing standing with
  | done =>
      rfl
  | leaf str rest inductionHypothesis =>
      exact inductionHypothesis uncolored standing
  | block label body rest bodyHypothesis restHypothesis =>
      cases label with
      | highlight =>
          rw [hasColor, Bool.or_eq_false_iff] at uncolored
          rw [remaining, restHypothesis uncolored.2, behind, uncolored.1,
            if_neg Bool.false_ne_true, List.filter_filter]
          simp
      | color pairIndex bold underline =>
          cases uncolored

/-- After a block the attributes are selected that still stand. -/
theorem shows_closing
    (pairs : ColorPairs)
    (label : Block)
    (body : Drawing)
    (standing : List Block) :
    Shows (closing label)
      (asked pairs (remaining (inside pairs label standing) body))
      (asked pairs (behind label body standing)) [] := by
  cases label with
  | highlight =>
      have selected :=
        @shows_sgr [0x32, 0x37] (by decide +kernel)
          (asked pairs (remaining (.highlight :: standing) body))
      have left :
          asked pairs (behind .highlight body standing) =
            { asked pairs (remaining (.highlight :: standing) body) with
              reverse := false } := by
        cases colored : hasColor body with
        | true =>
            rw [behind, if_pos colored, remaining_of_hasColor colored]
            rfl
        | false =>
            rw [behind, colored, if_neg Bool.false_ne_true, ← asked_filter,
              filter_remaining colored]
            rfl
      rw [left]
      exact selected
  | color pairIndex bold underline =>
      exact shows_sgr (by decide +kernel) _

/-- Every character is shown with the attributes of the standing blocks. -/
theorem shows_written
    (pairs : ColorPairs)
    (drawing : Drawing)
    (standing : List Block) :
    Shows (written pairs drawing) (asked pairs standing)
      (asked pairs (remaining standing drawing))
      (displayed pairs standing drawing) := by
  induction drawing generalizing standing with
  | done =>
      exact shows_nil _
  | leaf str rest inductionHypothesis =>
      exact (shows_text str.property _).append
        (inductionHypothesis standing)
  | block label body rest bodyHypothesis restHypothesis =>
      have opened := shows_opening pairs label standing
      have inBody := bodyHypothesis (inside pairs label standing)
      have closed := shows_closing pairs label body standing
      have later := restHypothesis (behind label body standing)
      exact opened.append (inBody.append (closed.append later))

/-- A text is shown twice in the same way if it is empty or they agree. -/
theorem map_attributes_eq_iff
    (text : List UInt8)
    (first second : Rendition) :
    text.map (fun c => (c, first)) = text.map (fun c => (c, second)) ↔
      text = [] ∨ second = first := by
  cases text with
  | nil =>
      exact iff_of_true rfl (.inl rfl)
  | cons c rest =>
      constructor
      · intro same
        rw [List.map_cons, List.map_cons, List.cons.injEq,
          Prod.mk.injEq] at same
        exact .inr same.1.2.symm
      · rintro (empty | rfl)
        · exact absurd empty (List.cons_ne_nil c rest)
        · rfl

/-- As many characters are displayed as are wanted. -/
theorem length_displayed
    (pairs : ColorPairs)
    (drawing : Drawing)
    (enclosing standing : List Block) :
    (displayed pairs standing drawing).length =
      (wanted pairs enclosing drawing).length := by
  induction drawing generalizing enclosing standing with
  | done =>
      rfl
  | leaf str rest inductionHypothesis =>
      rw [displayed, wanted, List.length_append, List.length_append,
        List.length_map, List.length_map,
        inductionHypothesis enclosing standing]
  | block label body rest bodyHypothesis restHypothesis =>
      rw [displayed, wanted, List.length_append, List.length_append,
        bodyHypothesis (label :: enclosing), restHypothesis enclosing]

/-- The drawing is displayed as wanted if enough blocks stand at each text. -/
theorem displayed_eq_wanted_iff
    (pairs : ColorPairs)
    (drawing : Drawing)
    (enclosing standing : List Block) :
    displayed pairs standing drawing = wanted pairs enclosing drawing ↔
      Standing pairs enclosing standing drawing := by
  induction drawing generalizing enclosing standing with
  | done =>
      exact iff_of_true rfl trivial
  | leaf str rest inductionHypothesis =>
      have sameLength :
          ((visible str.val).map fun c => (c, asked pairs standing)).length =
            ((visible str.val).map
              fun c => (c, asked pairs enclosing)).length := by
        rw [List.length_map, List.length_map]
      rw [Standing, ← map_attributes_eq_iff, ← inductionHypothesis]
      exact ⟨fun same => List.append_inj same sameLength,
        fun ⟨text, later⟩ => congrArg₂ (· ++ ·) text later⟩
  | block label body rest bodyHypothesis restHypothesis =>
      have sameLength :=
        length_displayed pairs body (label :: enclosing)
          (inside pairs label standing)
      rw [Standing, ← bodyHypothesis, ← restHypothesis]
      exact ⟨fun same => List.append_inj same sameLength,
        fun ⟨inBody, later⟩ => congrArg₂ (· ++ ·) inBody later⟩

/--
Every character is shown with the attributes of all blocks around it exactly
when the blocks that still stand ask for all of them.
-/
theorem attributes_nest_iff
    (pairs : ColorPairs)
    (drawing : Drawing) :
    shown pairs drawing = wanted pairs [] drawing ↔
      Standing pairs [] [] drawing := by
  have output := (shows_written pairs drawing []).1
  rw [shown, buf_drawBlocks, ← displayed_eq_wanted_iff]
  rw [← output]
  rfl

/-- A highlighted line with a part in a pair that is not defined. -/
def highlightedLine : Drawing :=
  .block .highlight
    (.block (.color 1 false false) (.leaf ⟨[0x61], by decide⟩ .done)
      (.leaf ⟨[0x62], by decide⟩ .done))
    .done

/-- The rest of the line behind the part is not reversed. -/
theorem highlight_ends_with_color :
    shown [] highlightedLine =
        [(0x61, { Rendition.plain with reverse := true }),
          (0x62, Rendition.plain)] ∧
      wanted [] [] highlightedLine =
        [(0x61, { Rendition.plain with reverse := true }),
          (0x62, { Rendition.plain with reverse := true })] ∧
      shown [] highlightedLine ≠ wanted [] [] highlightedLine := by
  decide

end RubyOnBareMetal.TerminalAdapter
