import Mathlib.Data.List.DropRight
import RubyOnBareMetal.Foundation.Terminal
import RubyOnBareMetal.TerminalAdapter.Display

namespace RubyOnBareMetal.TerminalAdapter

open Foundation

/-!
# The adapter on an ANSI terminal

The drawing methods were written for curses, whose `erase` blanks the screen
and moves the cursor home.  What was drawn since the last clear is a sheet,
and a refresh should show the sheet and nothing else.  The bytes that `clear`
writes erase nothing, and its cursor variables stay where they were.
-/

/-- The height and the width that `init` sets. -/
abbrev height : Nat := 25
abbrev width : Nat := 80

/-- What can be seen: the cells and the cursor. -/
structure Picture where
  cells : Nat × Nat → UInt8
  row : Nat
  column : Nat

/-- The picture on a terminal. -/
def pictureOf (terminal : Terminal height width) : Picture where
  cells := terminal.cells
  row := terminal.row
  column := terminal.column

/-- A sheet on a blank screen; past the margin the cursor is shown at it. -/
def pictureOn (sheet : Sheet) : Picture where
  cells := sheet.laidOver fun _ => blankCell
  row := sheet.row
  column := min sheet.column (width - 1)

/-- The adapter, its terminal, the sheet, and what the last refresh owes. -/
structure Screen where
  display : Display
  terminal : Terminal height width
  sheet : Sheet
  expected : Picture

/-- The bytes that `init` writes. -/
def initBytes : List UInt8 :=
  Terminal.sequence [0x3F, 0x31, 0x30, 0x34, 0x39] 0x68 ++
    (Terminal.sequence [0x32] 0x4A ++ Terminal.sequence [] 0x48)

/-- A terminal after `init`. -/
def Screen.start (terminal : Terminal height width) : Screen where
  display := .init
  terminal := terminal.display initBytes
  sheet := .empty
  expected := pictureOn .empty

/-- What a call means on the sheet. -/
def draw (sheet : Sheet) : Draw → Sheet
  | .clear => .empty
  | .setpos y x => sheet.moveTo y.toNat x.toNat
  | .addstr str => sheet.write str
  | .refresh => sheet

/-- What is expected on the screen once a call is made. -/
def expect (screen : Screen) : Draw → Picture
  | .refresh => pictureOn screen.sheet
  | _ => screen.expected

/-- Calls inside the screen; the terminal reads the bytes they write. -/
def session : Machine Screen Draw (List UInt8) where
  step screen call :=
    ((adapter.step screen.display call).1,
      {
        display := (adapter.step screen.display call).2
        terminal :=
          screen.terminal.display (adapter.step screen.display call).1
        sheet := draw screen.sheet call
        expected := expect screen call
      })
  admits screen
    | .clear => True
    | .setpos y x => (0 ≤ y ∧ y < height) ∧ 0 ≤ x ∧ x < width
    | .addstr str =>
        (∀ c ∈ str, 0x20 ≤ c ∧ c ≤ 0x7E) ∧
          screen.sheet.column + str.length ≤ width
    | .refresh => True

/-- The terminal shows what the last refresh owes. -/
def Shows (screen : Screen) : Prop :=
  pictureOf screen.terminal = screen.expected

/--
What a refresh relies on: every character on the screen has been covered
since the last clear, and the tracked cursor is the one on the sheet.
-/
def Covered (screen : Screen) : Draw → Prop
  | .refresh =>
      (∀ place,
          screen.terminal.cells place ≠ blankCell →
          screen.sheet.placed place ≠ none) ∧
        screen.display.curY = screen.sheet.row ∧
        min screen.display.curX (width - 1) =
          min (screen.sheet.column : Int) (width - 1)
  | _ => True

/-! ## What the calls alone say -/

/-- The sheet that calls leave. -/
def sheetAfter (calls : List Draw) : Sheet :=
  calls.foldl draw .empty

/-- The sheet that was refreshed last. -/
def shownAfter (calls : List Draw) : Sheet :=
  sheetAfter (calls.rdropWhile (· ≠ .refresh))

/-- The sheet that calls would leave if none of them cleared. -/
def unclearedAfter (calls : List Draw) : Sheet :=
  sheetAfter (calls.filter (· ≠ .clear))

/--
What the calls before a refresh have to do: every cell that the frame before
shows a character in has been written since the last clear, and the cursor is
where it would be without any clear, as it is after a `setpos`.
-/
structure Covers (earlier : List Draw) : Prop where
  cells :
    ∀ place,
      (shownAfter earlier).laidOver (fun _ => blankCell) place ≠
        blankCell →
      (sheetAfter earlier).placed place ≠ none
  row : (unclearedAfter earlier).row = (sheetAfter earlier).row
  column :
    min (unclearedAfter earlier).column (width - 1) =
      min (sheetAfter earlier).column (width - 1)

/-! ## What is kept from call to call -/

/-- The tracked cursor, and the terminal if the buffer were written now. -/
structure Buffered (screen : Screen) : Prop where
  rowNonneg : 0 ≤ screen.display.curY
  rowInside : screen.display.curY < height
  columnNonneg : 0 ≤ screen.display.curX
  ground : Shows screen → screen.terminal.state = .ground
  stands :
    Shows screen →
    StandsFor (screen.terminal.display screen.display.buf) screen.sheet
      screen.terminal.cells

/-- A position inside the screen is written as a cursor movement. -/
theorem position_eq_cursorTo (y x : Nat) :
    position y x = Terminal.cursorTo y x := by
  change
    [0x1B, 0x5B] ++ decimalDigits (y + 1) ++ [0x3B] ++
          decimalDigits (x + 1) ++
        [0x48] =
      0x1B :: 0x5B ::
        ((decimalDigits (y + 1) ++ 0x3B :: decimalDigits (x + 1)) ++
          [0x48])
  simp

/-- Hiding and showing the cursor leaves everything in its place. -/
theorem display_cursorMode
    (terminal : Terminal height width)
    {final : UInt8}
    (last : Terminal.IsLast final)
    (notCup : final ≠ 0x48) :
    terminal.display (Terminal.sequence [0x3F, 0x32, 0x35] final) =
      terminal.withState .ground := by
  have bodyBytes :
      ∀ c ∈ ([0x3F, 0x32, 0x35] : List UInt8), Terminal.IsBody c := by
    decide +kernel
  rw [terminal.display_sequence bodyBytes last, Terminal.execute,
    if_neg notCup, if_neg (by simp)]

theorem display_hideCursor (terminal : Terminal height width) :
    terminal.display hideCursor = terminal.withState .ground :=
  display_cursorMode terminal (show Terminal.IsLast 0x6C by decide)
    (by decide)

theorem display_showCursor (terminal : Terminal height width) :
    terminal.display showCursor = terminal.withState .ground :=
  display_cursorMode terminal (show Terminal.IsLast 0x68 by decide)
    (by decide)

/-- A refresh leaves the tracked cursor. -/
theorem refresh_cursor (display : Display) :
    display.refresh.2.curY = display.curY ∧
      display.refresh.2.curX = display.curX := by
  unfold Display.refresh
  split <;> exact ⟨rfl, rfl⟩

/-- A refresh writes the buffer and then moves the cursor. -/
theorem display_refresh
    (terminal : Terminal height width)
    (display : Display)
    {row column : Nat}
    (curY : display.curY = row)
    (curX : display.curX = column) :
    display.refresh.2 = { display with buf := [] } ∧
      ∃ written : Terminal height width,
        terminal.display display.refresh.1 =
            written.withCursor row column ∧
          (terminal.state = .ground →
            written = terminal.display display.buf) := by
  have cursor (written : Terminal height width) :
      written.display (position display.curY display.curX ++ showCursor) =
        written.withCursor row column := by
    rw [curY, curX, position_eq_cursorTo, Terminal.display_append,
      Terminal.display_cursorTo, display_showCursor]
    rfl
  by_cases nonempty : 0 < display.buf.length
  · rw [Display.refresh, if_pos nonempty]
    refine ⟨rfl, (terminal.withState .ground).display display.buf, ?_, ?_⟩
    · rw [List.append_assoc, List.append_assoc, Terminal.display_append,
        display_hideCursor, Terminal.display_append, cursor]
    · intro ground
      rw [← ground]
      rfl
  · have empty : display.buf = [] :=
      List.eq_nil_of_length_eq_zero (Nat.eq_zero_of_not_pos nonempty)
    rw [Display.refresh, if_neg nonempty]
    refine ⟨by rw [← empty], terminal, cursor terminal, fun _ => ?_⟩
    rw [empty]
    rfl

/-- `init` blanks the screen and moves the cursor home. -/
theorem display_init (terminal : Terminal height width) :
    ∃ blank : Terminal height width,
      blank.cells = (fun _ => blankCell) ∧
        terminal.display initBytes = blank.withCursor 0 0 := by
  have alternate :
      ∀ c ∈ ([0x3F, 0x31, 0x30, 0x34, 0x39] : List UInt8),
        Terminal.IsBody c := by
    decide +kernel
  have erase : ∀ c ∈ ([0x32] : List UInt8), Terminal.IsBody c := by
    decide +kernel
  rw [initBytes, Terminal.display_append,
    Terminal.display_sequence _ alternate (by decide),
    Terminal.display_append,
    Terminal.display_sequence _ erase (by decide),
    Terminal.display_cursorHome]
  exact ⟨_, rfl, rfl⟩

/-! ## One call -/

/-- Between refreshes the screen and what is expected stay the same. -/
theorem shows_step_iff
    {screen : Screen}
    {call : Draw}
    (notRefresh : call ≠ .refresh) :
    Shows (session.step screen call).2 ↔ Shows screen := by
  cases call with
  | clear =>
      exact Iff.rfl
  | setpos y x =>
      exact Iff.rfl
  | addstr str =>
      exact Iff.rfl
  | refresh =>
      exact absurd rfl notRefresh

/-- The tracked cursor is inside the screen, but for its right margin. -/
theorem Buffered.tracked
    {screen : Screen}
    (buffered : Buffered screen) :
    ∃ row column : Nat,
      screen.display.curY = row ∧
        screen.display.curX = column ∧ row < height := by
  obtain ⟨row, curY⟩ := Int.eq_ofNat_of_zero_le buffered.rowNonneg
  obtain ⟨column, curX⟩ := Int.eq_ofNat_of_zero_le buffered.columnNonneg
  have inside := buffered.rowInside
  rw [curY] at inside
  exact ⟨row, column, curY, curX, Int.ofNat_lt.mp inside⟩

/-- `clear` keeps the buffer in step with the sheet. -/
theorem buffered_clear
    {screen : Screen}
    (buffered : Buffered screen) :
    Buffered (session.step screen .clear).2 := by
  refine { buffered with stands := fun shows => ?_ }
  change
    StandsFor (screen.terminal.display (Terminal.sequence [] 0x48))
      .empty screen.terminal.cells
  rw [Terminal.display_cursorHome]
  exact .home screen.terminal

/-- So does `setpos` to a cell of the screen. -/
theorem buffered_setpos
    {screen : Screen}
    {y x : Int}
    (buffered : Buffered screen)
    (admitted : session.admits screen (.setpos y x)) :
    Buffered (session.step screen (.setpos y x)).2 := by
  obtain ⟨⟨nonnegY, insideY⟩, nonnegX, insideX⟩ := admitted
  refine {
    rowNonneg := nonnegY
    rowInside := insideY
    columnNonneg := nonnegX
    ground := buffered.ground
    stands := fun shows => ?_
  }
  obtain ⟨row, rfl⟩ := Int.eq_ofNat_of_zero_le nonnegY
  obtain ⟨column, rfl⟩ := Int.eq_ofNat_of_zero_le nonnegX
  change
    StandsFor
      (screen.terminal.display
        (screen.display.buf ++ position row column))
      (screen.sheet.moveTo row column) screen.terminal.cells
  rw [position_eq_cursorTo, Terminal.display_append,
    Terminal.display_cursorTo]
  exact (buffered.stands shows).moveTo column (Int.ofNat_lt.mp insideY)

/-- So does `addstr` of a text that fits into the row. -/
theorem buffered_addstr
    {screen : Screen}
    {str : List UInt8}
    (buffered : Buffered screen)
    (admitted : session.admits screen (.addstr str)) :
    Buffered (session.step screen (.addstr str)).2 := by
  obtain ⟨printable, fits⟩ := admitted
  refine {
    rowNonneg := buffered.rowNonneg
    rowInside := buffered.rowInside
    columnNonneg :=
      Int.add_nonneg buffered.columnNonneg (Int.natCast_nonneg _)
    ground := buffered.ground
    stands := fun shows => ?_
  }
  change
    StandsFor
      (screen.terminal.display (screen.display.buf ++ str))
      (screen.sheet.write str) screen.terminal.cells
  rw [Terminal.display_append]
  exact (buffered.stands shows).write printable fits

/-- So does `refresh`, which empties the buffer. -/
theorem buffered_refresh
    {screen : Screen}
    (buffered : Buffered screen) :
    Buffered (session.step screen .refresh).2 := by
  obtain ⟨row, column, curY, curX, inside⟩ := buffered.tracked
  obtain ⟨emptied, written, shown, -⟩ :=
    display_refresh screen.terminal screen.display curY curX
  have stepped :
      session.step screen .refresh =
        (screen.display.refresh.1,
          {
            display := { screen.display with buf := [] }
            terminal := written.withCursor row column
            sheet := screen.sheet
            expected := pictureOn screen.sheet
          }) := by
    rw [← emptied, ← shown]
    rfl
  rw [stepped]
  refine {
    rowNonneg := buffered.rowNonneg
    rowInside := buffered.rowInside
    columnNonneg := buffered.columnNonneg
    ground := fun _ => rfl
    stands := fun shows => ?_
  }
  obtain ⟨sameCells, sameRow, sameColumn⟩ := Picture.mk.inj shows
  -- what is on the screen is the sheet, so laying it over changes nothing
  exact {
    cells := by
      change written.cells = screen.sheet.laidOver written.cells
      have shownCells :
          written.cells = screen.sheet.laidOver fun _ => blankCell :=
        sameCells
      rw [shownCells, Sheet.laidOver_laidOver]
    row := sameRow
    column := sameColumn
    wraps := fun pending => absurd pending Bool.false_ne_true
    state := rfl
  }

/-- Every call inside the screen keeps the buffer in step with the sheet. -/
theorem buffered_step
    {screen : Screen}
    {call : Draw}
    (buffered : Buffered screen)
    (admitted : session.admits screen call) :
    Buffered (session.step screen call).2 := by
  cases call with
  | clear =>
      exact buffered_clear buffered
  | setpos y x =>
      exact buffered_setpos buffered admitted
  | addstr str =>
      exact buffered_addstr buffered admitted
  | refresh =>
      exact buffered_refresh buffered

/-- A refresh shows the sheet exactly if nothing else was left to show. -/
theorem shows_step_exact
    {screen : Screen}
    {call : Draw}
    (buffered : Buffered screen)
    (shows : Shows screen) :
    Shows (session.step screen call).2 ↔ Covered screen call := by
  by_cases refreshed : call = .refresh
  · subst refreshed
    obtain ⟨row, column, curY, curX, inside⟩ := buffered.tracked
    obtain ⟨emptied, written, shown, whole⟩ :=
      display_refresh screen.terminal screen.display curY curX
    have stands := buffered.stands shows
    rw [← whole (buffered.ground shows)] at stands
    have sameCells :
        written.cells = (screen.sheet.laidOver fun _ => blankCell) ↔
          ∀ place,
            screen.terminal.cells place ≠ blankCell →
            screen.sheet.placed place ≠ none := by
      rw [stands.cells, Sheet.laidOver_eq_iff]
      exact forall_congr' fun place => not_imp_not.symm
    have sameRow :
        min row (height - 1) = screen.sheet.row ↔
          screen.display.curY = screen.sheet.row := by
      rw [curY, Nat.min_eq_left (Nat.le_sub_one_of_lt inside)]
      exact Int.ofNat_inj.symm
    have sameColumn :
        min column (width - 1) = min screen.sheet.column (width - 1) ↔
          min screen.display.curX (width - 1) =
            min (screen.sheet.column : Int) (width - 1) := by
      rw [curX]
      omega
    change
      pictureOf (screen.terminal.display screen.display.refresh.1) =
          pictureOn screen.sheet ↔
        _
    rw [shown, pictureOf, pictureOn, Picture.mk.injEq]
    exact and_congr sameCells (and_congr sameRow sameColumn)
  · refine iff_of_true ((shows_step_iff refreshed).mpr shows) ?_
    cases call with
    | clear =>
        trivial
    | setpos y x =>
        trivial
    | addstr str =>
        trivial
    | refresh =>
        exact absurd rfl refreshed

/-- What has been drawn, shown and tracked is what the calls say. -/
structure Tracked (earlier : List Draw) (screen : Screen) : Prop
    extends Buffered screen where
  sheet : screen.sheet = sheetAfter earlier
  expected : screen.expected = pictureOn (shownAfter earlier)
  curY : screen.display.curY = (unclearedAfter earlier).row
  curX : screen.display.curX = (unclearedAfter earlier).column

/-- One more call is made on the sheet. -/
theorem sheetAfter_concat (calls : List Draw) (call : Draw) :
    sheetAfter (calls ++ [call]) = draw (sheetAfter calls) call :=
  List.foldl_concat ..

/-- Between refreshes the sheet that is shown stays. -/
theorem shownAfter_concat
    (calls : List Draw)
    {call : Draw}
    (notRefresh : call ≠ .refresh) :
    shownAfter (calls ++ [call]) = shownAfter calls := by
  rw [shownAfter, List.rdropWhile_concat, if_pos (decide_eq_true notRefresh),
    shownAfter]

/-- A refresh shows the sheet. -/
theorem shownAfter_refresh (calls : List Draw) :
    shownAfter (calls ++ [.refresh]) = sheetAfter calls := by
  rw [shownAfter, List.rdropWhile_concat, if_neg (by decide),
    sheetAfter_concat]
  rfl

/-- A call that does not clear is made without the clears, too. -/
theorem unclearedAfter_concat
    (calls : List Draw)
    {call : Draw}
    (notClear : call ≠ .clear) :
    unclearedAfter (calls ++ [call]) = draw (unclearedAfter calls) call := by
  have kept : [call].filter (· ≠ .clear) = [call] := by
    simp [notClear]
  rw [unclearedAfter, List.filter_append, kept, sheetAfter_concat,
    unclearedAfter]

/-- A clear is left out. -/
theorem unclearedAfter_clear (calls : List Draw) :
    unclearedAfter (calls ++ [.clear]) = unclearedAfter calls := by
  have left : [Draw.clear].filter (· ≠ .clear) = [] := by decide
  rw [unclearedAfter, List.filter_append, left, List.append_nil,
    unclearedAfter]

/-- What is expected on the screen is the sheet that was refreshed last. -/
theorem expected_step
    {earlier : List Draw}
    {screen : Screen}
    (tracked : Tracked earlier screen)
    (call : Draw) :
    (session.step screen call).2.expected =
      pictureOn (shownAfter (earlier ++ [call])) := by
  cases call with
  | refresh =>
      rw [shownAfter_refresh, ← tracked.sheet]
      rfl
  | _ =>
      rw [shownAfter_concat earlier (by simp)]
      exact tracked.expected

/-- The tracked cursor is the one that clears leave alone. -/
theorem cursor_step
    {earlier : List Draw}
    {screen : Screen}
    {call : Draw}
    (tracked : Tracked earlier screen)
    (admitted : session.admits screen call) :
    let next := (session.step screen call).2
    next.display.curY = (unclearedAfter (earlier ++ [call])).row ∧
      next.display.curX = (unclearedAfter (earlier ++ [call])).column := by
  cases call with
  | clear =>
      rw [unclearedAfter_clear]
      exact ⟨tracked.curY, tracked.curX⟩
  | setpos y x =>
      obtain ⟨⟨nonnegY, -⟩, nonnegX, -⟩ := admitted
      rw [unclearedAfter_concat earlier (by simp)]
      exact ⟨(Int.toNat_of_nonneg nonnegY).symm,
        (Int.toNat_of_nonneg nonnegX).symm⟩
  | addstr str =>
      obtain ⟨row, column⟩ := (unclearedAfter earlier).write_cursor str
      rw [unclearedAfter_concat earlier (by simp), draw, row, column,
        Int.natCast_add, ← tracked.curX]
      exact ⟨tracked.curY, rfl⟩
  | refresh =>
      obtain ⟨curY, curX⟩ := refresh_cursor screen.display
      rw [unclearedAfter_concat earlier (by decide)]
      exact ⟨curY.trans tracked.curY, curX.trans tracked.curX⟩

/-- Every call inside the screen is tracked. -/
theorem tracked_step
    {earlier : List Draw}
    {screen : Screen}
    {call : Draw}
    (tracked : Tracked earlier screen)
    (admitted : session.admits screen call) :
    Tracked (earlier ++ [call]) (session.step screen call).2 := by
  obtain ⟨curY, curX⟩ := cursor_step tracked admitted
  exact {
    buffered_step tracked.toBuffered admitted with
    sheet := by
      rw [sheetAfter_concat, ← tracked.sheet]
      rfl
    expected := expected_step tracked call
    curY := curY
    curX := curX
  }

/-- As long as the law holds, what a refresh relies on is up to the calls. -/
theorem covered_iff
    {earlier : List Draw}
    {screen : Screen}
    (tracked : Tracked earlier screen)
    (shows : Shows screen)
    (call : Draw) :
    Covered screen call ↔ (call = .refresh → Covers earlier) := by
  have cells :
      screen.terminal.cells =
        (shownAfter earlier).laidOver fun _ => blankCell := by
    have shown : screen.terminal.cells = screen.expected.cells :=
      congrArg Picture.cells shows
    rw [shown, tracked.expected]
    rfl
  cases call with
  | refresh =>
      rw [Covered, cells, tracked.sheet, tracked.curY, tracked.curX]
      constructor
      · rintro ⟨covered, row, column⟩ -
        exact ⟨covered, Int.ofNat_inj.mp row, by omega⟩
      · intro covers
        obtain ⟨covered, row, column⟩ := covers rfl
        exact ⟨covered, congrArg Int.ofNat row, by omega⟩
  | _ =>
      exact iff_of_true trivial nofun

/-- After `init` the terminal shows an empty sheet. -/
theorem start_shows (terminal : Terminal height width) :
    Shows (.start terminal) ∧ Buffered (.start terminal) := by
  obtain ⟨blank, cells, initialised⟩ := display_init terminal
  have shows : Shows (.start terminal) := by
    change pictureOf (terminal.display initBytes) = pictureOn .empty
    rw [initialised, pictureOf, pictureOn, Picture.mk.injEq]
    exact ⟨cells, rfl, rfl⟩
  refine ⟨shows, ?_⟩
  exact {
    rowNonneg := Int.le_refl 0
    rowInside := show (0 : Int) < 25 by decide
    columnNonneg := Int.le_refl 0
    ground := fun _ => by
      change (terminal.display initBytes).state = .ground
      rw [initialised]
      rfl
    stands := fun _ => by
      change
        StandsFor (terminal.display initBytes) .empty
          (terminal.display initBytes).cells
      rw [initialised]
      exact .home blank
  }

/-- The screen law holds exactly as long as every refresh is covered. -/
theorem always_shows_iff_covered
    {terminal : Terminal height width}
    {calls : List Draw}
    (admissible : session.Admissible (.start terminal) calls) :
    (∀ earlier later,
        calls = earlier ++ later →
        Shows (session.run (.start terminal) earlier)) ↔
      Machine.Admissible ⟨session.step, Covered⟩ (.start terminal)
        calls := by
  obtain ⟨shows, buffered⟩ := start_shows terminal
  exact session.run_always_iff buffered_step
    (fun buffered shows _ => shows_step_exact buffered shows) buffered
    shows admissible

/-- Whether it holds is up to the calls alone. -/
theorem always_shows_iff_covers
    {terminal : Terminal height width}
    {calls : List Draw}
    (admissible : session.Admissible (.start terminal) calls) :
    (∀ earlier later,
        calls = earlier ++ later →
        Shows (session.run (.start terminal) earlier)) ↔
      ∀ earlier later,
        calls = earlier ++ .refresh :: later →
        Covers earlier := by
  obtain ⟨shows, buffered⟩ := start_shows terminal
  have tracked : Tracked [] (.start terminal) := {
    buffered with
    sheet := rfl
    expected := by
      rw [shownAfter, List.rdropWhile_nil]
      rfl
    curY := rfl
    curX := rfl
  }
  have exact {earlier : List Draw} {screen : Screen} {call : Draw}
      (tracked : Tracked earlier screen)
      (shows : Shows screen)
      (_ : session.admits screen call) :
      Shows (session.step screen call).2 ↔
        (call = .refresh → Covers earlier) :=
    (shows_step_exact tracked.toBuffered shows).trans
      (covered_iff tracked shows call)
  rw [session.run_always_iff_history tracked_step exact tracked shows
    admissible]
  constructor
  · exact fun keeps earlier later split =>
      keeps earlier .refresh later split rfl
  · rintro covers earlier call later split rfl
    exact covers earlier later split

/--
On any ANSI terminal and for any drawing calls inside the screen, every
refresh shows exactly what was placed since the last clear, with the cursor
where the calls left it, if and only if before every refresh all characters
on the screen have been covered since the last clear and the tracked cursor
is the one the calls left.  The calls alone decide that.
-/
theorem screen_shows_sheet_iff
    (terminal : Terminal height width)
    (calls : List Draw)
    (admissible : session.Admissible (.start terminal) calls) :
    ((∀ earlier later,
        calls = earlier ++ later →
        Shows (session.run (.start terminal) earlier)) ↔
      Machine.Admissible ⟨session.step, Covered⟩ (.start terminal)
        calls) ∧
      ((∀ earlier later,
          calls = earlier ++ later →
          Shows (session.run (.start terminal) earlier)) ↔
        ∀ earlier later,
          calls = earlier ++ .refresh :: later →
          Covers earlier) :=
  ⟨always_shows_iff_covered admissible, always_shows_iff_covers admissible⟩

/-- A terminal that is switched on. -/
def switchedOn : Terminal height width where
  cells _ := blankCell
  row := 0
  column := 0
  wrapPending := false
  state := .ground

/-- One letter in the second row is shown there. -/
theorem screen_shows_letter :
    Shows
      (session.run (.start switchedOn)
        [.clear, .setpos 1 2, .addstr [0x41], .refresh]) := by
  have admissible :
      session.Admissible (.start switchedOn)
        [.clear, .setpos 1 2, .addstr [0x41], .refresh] :=
    ⟨trivial, ⟨by decide, by decide⟩,
      ⟨by decide +kernel, by decide +kernel⟩, trivial, trivial⟩
  have covered :
      Machine.Admissible ⟨session.step, Covered⟩ (.start switchedOn)
        [.clear, .setpos 1 2, .addstr [0x41], .refresh] :=
    ⟨trivial, trivial, trivial,
      ⟨fun _ visible => absurd rfl visible, rfl, rfl⟩, trivial⟩
  exact
    (screen_shows_sheet_iff switchedOn _ admissible).1.mpr covered _ []
      rfl

/-- `AB` in one frame and `C` in the next leave `CB` on the screen. -/
theorem shorter_frame_keeps_letter :
    session.Admissible (.start switchedOn)
        [.setpos 0 0, .addstr [0x41, 0x42], .refresh, .clear,
          .setpos 0 0, .addstr [0x43], .refresh] ∧
      ¬Shows
        (session.run (.start switchedOn)
          [.setpos 0 0, .addstr [0x41, 0x42], .refresh, .clear,
            .setpos 0 0, .addstr [0x43], .refresh]) := by
  refine ⟨?_, fun shows => ?_⟩
  · exact ⟨⟨by decide, by decide⟩, ⟨by decide +kernel, by decide +kernel⟩,
      trivial, trivial, ⟨by decide, by decide⟩,
      ⟨by decide +kernel, by decide +kernel⟩, trivial, trivial⟩
  · have sameLetter :=
      congrFun (congrArg Picture.cells shows) (0, 1)
    exact absurd sameLetter (by decide +kernel)

end RubyOnBareMetal.TerminalAdapter
