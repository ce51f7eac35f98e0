import Mathlib.Algebra.Group.Nat.Defs
import RubyOnBareMetal.Efi
import RubyOnBareMetal.Foundation.Machine

namespace RubyOnBareMetal.UefiConsole

open Foundation

/-!
# The keyboard of `kernel/uefi_console.c`

The input half of the UEFI console keeps one key that `ReadKeyStroke` has
delivered ahead of time.  The keys that the functions deliver and those that
the firmware has delivered are logged beside the variables of the code.
-/

/-- `EFI_INPUT_KEY`. -/
structure InputKey where
  scanCode : UInt16
  unicodeChar : UInt16
  deriving Repr, DecidableEq

/-- What a call of `ReadKeyStroke` does; only success stores a key. -/
inductive Stroke where
  | success (key : InputKey)
  | failure (status : UInt64) (notSuccess : status ≠ efiSuccess)
  deriving DecidableEq

/-- The input variables, what the firmware will do, and the two logs. -/
structure Keyboard where
  conIn : Bool
  strokes : List Stroke
  pendingKey : InputKey
  pendingKeyValid : Bool
  keysRead : List InputKey
  keysDelivered : List InputKey
  deriving DecidableEq

/-- The variables at boot. -/
def Keyboard.boot (conIn : Bool) (strokes : List Stroke) : Keyboard where
  conIn := conIn
  strokes := strokes
  pendingKey := ⟨0, 0⟩
  pendingKeyValid := false
  keysRead := []
  keysDelivered := []

/-- `ReadKeyStroke`, with what it does and what it will do next. -/
def readKeyStroke
    (keyboard : Keyboard)
    (stroke : Stroke)
    (later : List Stroke) : UInt64 × Keyboard :=
  match stroke with
  | .success key =>
      (efiSuccess,
        { keyboard with
          strokes := later
          pendingKey := key
          keysRead := keyboard.keysRead ++ [key] })
  | .failure status _ => (status, { keyboard with strokes := later })

/-- `uefi_console_data_ready`; a call that does not return has no result. -/
def dataReady (keyboard : Keyboard) : Option Bool × Keyboard :=
  if keyboard.conIn = false then
    (some false, keyboard)
  else if keyboard.pendingKeyValid then
    (some true, keyboard)
  else
    match keyboard.strokes with
    | [] => (none, keyboard)
    | stroke :: later =>
        let (status, keyboard) := readKeyStroke keyboard stroke later
        if status = efiSuccess then
          (some true, { keyboard with pendingKeyValid := true })
        else
          (some false, keyboard)

/-- The polling loop of `uefi_console_getc`, over what the firmware will do. -/
def pollKeyStroke (keyboard : Keyboard) :
    List Stroke → Option Unit × Keyboard
  | [] => (none, { keyboard with strokes := [] })
  | stroke :: later =>
      let (status, keyboard) := readKeyStroke keyboard stroke later
      if status = efiNotReady then
        pollKeyStroke keyboard later
      else
        (some (), keyboard)

/-- The character of a key. -/
def keyChar (key : InputKey) : Int32 :=
  if key.unicodeChar = 0x0D then
    0x0A
  else if key.unicodeChar ≠ 0 then
    Int32.ofNat key.unicodeChar.toUInt8.toNat
  else
    0

/-- The end of `uefi_console_getc`, which takes the pending key. -/
def takePending (keyboard : Keyboard) : Option Int32 × Keyboard :=
  (some (keyChar keyboard.pendingKey),
    { keyboard with
      pendingKeyValid := false
      keysDelivered := keyboard.keysDelivered ++ [keyboard.pendingKey] })

/-- `uefi_console_getc`. -/
def getc (keyboard : Keyboard) : Option Int32 × Keyboard :=
  if keyboard.conIn = false then
    (some (-1), keyboard)
  else if keyboard.pendingKeyValid then
    takePending keyboard
  else
    match pollKeyStroke keyboard keyboard.strokes with
    | (none, keyboard) => (none, keyboard)
    | (some _, keyboard) => takePending keyboard

/-- The loop of `uefi_console_read`, which has room for more bytes. -/
def readMore : Nat → Keyboard → Option (List UInt8) × Keyboard
  | 0, keyboard => (some [], keyboard)
  | room + 1, keyboard =>
      match dataReady keyboard with
      | (none, keyboard) => (none, keyboard)
      | (some false, keyboard) => (some [], keyboard)
      | (some true, keyboard) =>
          match getc keyboard with
          | (none, keyboard) => (none, keyboard)
          | (some c, keyboard) =>
              let (bytes?, keyboard) := readMore room keyboard
              (bytes?.map (c.toUInt32.toUInt8 :: ·), keyboard)

/-- `uefi_console_read`, with the bytes it stores. -/
def read (keyboard : Keyboard) (len : Nat) :
    Option (List UInt8) × Keyboard :=
  match len with
  | 0 => (some [], keyboard)
  | room + 1 =>
      match getc keyboard with
      | (none, keyboard) => (none, keyboard)
      | (some c, keyboard) =>
          let (bytes?, keyboard) := readMore room keyboard
          (bytes?.map (c.toUInt32.toUInt8 :: ·), keyboard)

/-- A call of an input function. -/
inductive InputCall where
  | dataReady
  | getc
  | read (len : Nat)
  deriving Repr, DecidableEq

/-- What a call returned, unless it is still waiting. -/
inductive InputResult where
  | waiting
  | ready (isReady : Bool)
  | char (c : Int32)
  | bytes (stored : List UInt8)
  deriving Repr, DecidableEq

/-- The keys delivered so far, then the pending key if it is valid. -/
def Keyboard.held (keyboard : Keyboard) : List InputKey :=
  keyboard.keysDelivered ++
    (if keyboard.pendingKeyValid then [keyboard.pendingKey] else [])

/-- No key is lost, duplicated, reordered or delivered without being read. -/
def ExactlyOnce (keyboard : Keyboard) : Prop :=
  keyboard.held = keyboard.keysRead
  deriving Decidable

/-- The status on which the polling loop goes on. -/
def Stroke.isNotReady : Stroke → Bool
  | .success _ => false
  | .failure status _ => status = efiNotReady

/-- The status on which a key has been stored. -/
def Stroke.isSuccess : Stroke → Bool
  | .success _ => true
  | .failure _ _ => false

/-- A call that has to wait for a key is not ended by another error. -/
def NoDeviceError (keyboard : Keyboard) : Prop :=
  keyboard.conIn = false ∨
    keyboard.pendingKeyValid = true ∨
      (keyboard.strokes.dropWhile Stroke.isNotReady).head?.all
        Stroke.isSuccess = true
  deriving Decidable

/-- The input functions as a machine that answers calls. -/
def keyInput : Machine Keyboard InputCall InputResult where
  step keyboard call :=
    match call with
    | .dataReady =>
        let (isReady?, keyboard) := dataReady keyboard
        (isReady?.elim .waiting .ready, keyboard)
    | .getc =>
        let (c?, keyboard) := getc keyboard
        (c?.elim .waiting .char, keyboard)
    | .read len =>
        let (bytes?, keyboard) := read keyboard len
        (bytes?.elim .waiting .bytes, keyboard)
  admits keyboard call :=
    match call with
    | .dataReady => True
    | .getc => NoDeviceError keyboard
    | .read len => len = 0 ∨ NoDeviceError keyboard

section Calls

variable {keyboard : Keyboard}

/-- The keys that a call reads are the keys that it gains. -/
def Fair (before after : Keyboard) : Prop :=
  ∃ keys,
    after.held = before.held ++ keys ∧
      after.keysRead = before.keysRead ++ keys

/-- A call gains a key that it has not read. -/
def Gains (before after : Keyboard) : Prop :=
  ∃ keys stale,
    after.held = before.held ++ stale :: keys ∧
      after.keysRead = before.keysRead ++ keys

theorem Fair.refl (keyboard : Keyboard) : Fair keyboard keyboard :=
  ⟨[], by simp, by simp⟩

theorem Fair.trans
    {first second third : Keyboard}
    (earlier : Fair first second)
    (later : Fair second third) :
    Fair first third := by
  obtain ⟨keys, held, read⟩ := earlier
  obtain ⟨moreKeys, moreHeld, moreRead⟩ := later
  exact ⟨keys ++ moreKeys, by simp [moreHeld, held],
    by simp [moreRead, read]⟩

theorem Gains.fair
    {first second third : Keyboard}
    (earlier : Gains first second)
    (later : Fair second third) :
    Gains first third := by
  obtain ⟨keys, stale, held, read⟩ := earlier
  obtain ⟨moreKeys, moreHeld, moreRead⟩ := later
  exact ⟨keys ++ moreKeys, stale, by simp [moreHeld, held],
    by simp [moreRead, read]⟩

/-- What the polling loop has done is decided by the first other status. -/
theorem pollKeyStroke_eq
    (keyboard : Keyboard)
    (strokes : List Stroke) :
    pollKeyStroke keyboard strokes =
      match strokes.dropWhile Stroke.isNotReady with
      | [] => (none, { keyboard with strokes := [] })
      | stroke :: later =>
          (some (), (readKeyStroke keyboard stroke later).2) := by
  induction strokes generalizing keyboard with
  | nil =>
      rfl
  | cons stroke later inductionHypothesis =>
      cases stroke with
      | success key =>
          rfl
      | failure status notSuccess =>
          by_cases isNotReady : status = efiNotReady
          · simp [pollKeyStroke, readKeyStroke, isNotReady,
              Stroke.isNotReady, inductionHypothesis]
          · simp [pollKeyStroke, readKeyStroke, isNotReady,
              Stroke.isNotReady]

/-- What `uefi_console_data_ready` can do. -/
inductive ReadyOutcome (keyboard : Keyboard) :
    Option Bool × Keyboard → Prop where
  | still (isReady? : Option Bool) :
      (isReady? = some true → keyboard.pendingKeyValid = true) →
      ReadyOutcome keyboard (isReady?, keyboard)
  | read (key : InputKey) (later : List Stroke) :
      keyboard.pendingKeyValid = false →
      ReadyOutcome keyboard (some true,
        { keyboard with
          strokes := later
          pendingKey := key
          pendingKeyValid := true
          keysRead := keyboard.keysRead ++ [key] })
  | failed (later : List Stroke) :
      ReadyOutcome keyboard (some false, { keyboard with strokes := later })

/-- Every probe has one of its outcomes. -/
theorem dataReady_outcome (keyboard : Keyboard) :
    ReadyOutcome keyboard (dataReady keyboard) := by
  unfold dataReady
  by_cases noInput : keyboard.conIn = false
  · rw [if_pos noInput]
    exact .still _ nofun
  by_cases valid : keyboard.pendingKeyValid = true
  · rw [if_neg noInput, if_pos valid]
    exact .still _ fun _ => valid
  rw [if_neg noInput, if_neg valid]
  have empty : keyboard.pendingKeyValid = false := by simpa using valid
  cases strokes : keyboard.strokes with
  | nil =>
      exact .still _ nofun
  | cons stroke later =>
      cases stroke with
      | success key =>
          exact .read key later empty
      | failure status notSuccess =>
          simp only [readKeyStroke, notSuccess, ↓reduceIte]
          exact .failed later

/-- What `uefi_console_getc` can do. -/
inductive GetcOutcome (keyboard : Keyboard) :
    Option Int32 × Keyboard → Prop where
  | noInput :
      keyboard.conIn = false →
      GetcOutcome keyboard (some (-1), keyboard)
  | pending :
      keyboard.pendingKeyValid = true →
      GetcOutcome keyboard (takePending keyboard)
  | waits :
      keyboard.pendingKeyValid = false →
      NoDeviceError keyboard →
      GetcOutcome keyboard (none, { keyboard with strokes := [] })
  | read (key : InputKey) (later : List Stroke) :
      keyboard.pendingKeyValid = false →
      NoDeviceError keyboard →
      GetcOutcome keyboard
        (takePending
          { keyboard with
            strokes := later
            pendingKey := key
            keysRead := keyboard.keysRead ++ [key] })
  | error (later : List Stroke) :
      keyboard.pendingKeyValid = false →
      ¬NoDeviceError keyboard →
      GetcOutcome keyboard (takePending { keyboard with strokes := later })

/-- Every call for a key has one of its outcomes. -/
theorem getc_outcome (keyboard : Keyboard) :
    GetcOutcome keyboard (getc keyboard) := by
  unfold getc
  by_cases noInput : keyboard.conIn = false
  · rw [if_pos noInput]
    exact .noInput noInput
  by_cases valid : keyboard.pendingKeyValid = true
  · rw [if_neg noInput, if_pos valid]
    exact .pending valid
  have empty : keyboard.pendingKeyValid = false := by simpa using valid
  have noError :
      NoDeviceError keyboard ↔
        (keyboard.strokes.dropWhile Stroke.isNotReady).head?.all
          Stroke.isSuccess = true := by
    simp [NoDeviceError, noInput, valid]
  rw [if_neg noInput, if_neg valid, pollKeyStroke_eq]
  cases waited : keyboard.strokes.dropWhile Stroke.isNotReady with
  | nil =>
      rw [waited] at noError
      exact .waits empty (noError.mpr rfl)
  | cons stroke later =>
      rw [waited] at noError
      cases stroke with
      | success key =>
          exact .read key later empty (noError.mpr rfl)
      | failure status notSuccess =>
          exact .error later empty fun success =>
            Bool.false_ne_true (noError.mp success)

/-- Probing for a key reads at most the key that becomes pending. -/
theorem dataReady_fair (keyboard : Keyboard) :
    Fair keyboard (dataReady keyboard).2 := by
  have outcome := dataReady_outcome keyboard
  generalize dataReady keyboard = result at outcome
  cases outcome with
  | still isReady? pending =>
      exact Fair.refl keyboard
  | read key later empty =>
      exact ⟨[key], by simp [Keyboard.held, empty], rfl⟩
  | failed later =>
      exact ⟨[], by simp [Keyboard.held], by simp⟩

/-- After a probe that finds a key, a key is pending. -/
theorem dataReady_pending
    {ready : Keyboard}
    (found : dataReady keyboard = (some true, ready)) :
    ready.pendingKeyValid = true := by
  have outcome := dataReady_outcome keyboard
  rw [found] at outcome
  cases outcome with
  | still _ pending =>
      exact pending rfl
  | read key later empty =>
      rfl

/-- A call that meets no device error gains what it reads. -/
theorem getc_fair
    (noError : NoDeviceError keyboard) :
    Fair keyboard (getc keyboard).2 := by
  have outcome := getc_outcome keyboard
  generalize getc keyboard = result at outcome
  cases outcome with
  | noInput =>
      exact Fair.refl keyboard
  | pending valid =>
      exact ⟨[], by simp [takePending, Keyboard.held, valid],
        by simp [takePending]⟩
  | waits empty =>
      exact ⟨[], by simp [Keyboard.held], by simp⟩
  | read key later empty =>
      exact ⟨[key], by simp [takePending, Keyboard.held, empty],
        by simp [takePending]⟩
  | error later empty isError =>
      exact absurd noError isError

/-- A device error makes the last key, or none at all, a new one. -/
theorem getc_gains
    (isError : ¬NoDeviceError keyboard) :
    Gains keyboard (getc keyboard).2 := by
  have outcome := getc_outcome keyboard
  generalize getc keyboard = result at outcome
  cases outcome with
  | noInput noInput =>
      exact absurd (.inl noInput) isError
  | pending valid =>
      exact absurd (.inr (.inl valid)) isError
  | waits empty noError =>
      exact absurd noError isError
  | read key later empty noError =>
      exact absurd noError isError
  | error later empty =>
      exact ⟨[], keyboard.pendingKey,
        by simp [takePending, Keyboard.held, empty],
        by simp [takePending]⟩

/-- The later bytes of a read are taken from a key that is pending. -/
theorem readMore_fair
    (room : Nat)
    (keyboard : Keyboard) :
    Fair keyboard (readMore room keyboard).2 := by
  induction room generalizing keyboard with
  | zero =>
      exact Fair.refl keyboard
  | succ room inductionHypothesis =>
      have probed := dataReady_fair keyboard
      rcases probe : dataReady keyboard with ⟨isReady?, ready⟩
      rw [probe] at probed
      rcases isReady? with _ | _ | _
      · simpa [readMore, probe] using probed
      · simpa [readMore, probe] using probed
      have pending : ready.pendingKeyValid = true :=
        dataReady_pending probe
      have taken : Fair ready (getc ready).2 :=
        getc_fair (.inr (.inl pending))
      rcases got : getc ready with ⟨c?, next⟩
      rw [got] at taken
      cases c? with
      | none =>
          simpa [readMore, probe, got] using probed.trans taken
      | some c =>
          simpa [readMore, probe, got] using
            (probed.trans taken).trans (inductionHypothesis next)

/-- A read of at least one byte is a call for a key and fair calls. -/
theorem read_fair_after
    (room : Nat)
    (keyboard : Keyboard) :
    Fair (getc keyboard).2 (read keyboard (room + 1)).2 := by
  rcases got : getc keyboard with ⟨c?, next⟩
  cases c? with
  | none =>
      simpa [read, got] using Fair.refl next
  | some c =>
      simpa [read, got] using readMore_fair room next

/-- Every admitted call gains what it reads. -/
theorem step_fair
    {call : InputCall}
    (admitted : keyInput.admits keyboard call) :
    Fair keyboard (keyInput.step keyboard call).2 := by
  cases call with
  | dataReady =>
      exact dataReady_fair keyboard
  | getc =>
      exact getc_fair admitted
  | read len =>
      cases len with
      | zero =>
          exact Fair.refl keyboard
      | succ room =>
          have noError : NoDeviceError keyboard :=
            admitted.resolve_left (Nat.succ_ne_zero room)
          exact (getc_fair noError).trans (read_fair_after room keyboard)

/-- Every other call gains a key that was not read. -/
theorem step_gains
    {call : InputCall}
    (notAdmitted : ¬keyInput.admits keyboard call) :
    Gains keyboard (keyInput.step keyboard call).2 := by
  cases call with
  | dataReady =>
      exact absurd trivial notAdmitted
  | getc =>
      exact getc_gains notAdmitted
  | read len =>
      obtain ⟨someRoom, error⟩ := not_or.mp notAdmitted
      obtain ⟨room, rfl⟩ := Nat.exists_eq_succ_of_ne_zero someRoom
      exact (getc_gains error).fair (read_fair_after room keyboard)

end Calls

/-- More keys are held than were ever read. -/
def Surplus (keyboard : Keyboard) : Prop :=
  keyboard.keysRead.length < keyboard.held.length

theorem exactlyOnce_fair
    {before after : Keyboard}
    (exactly : ExactlyOnce before)
    (fair : Fair before after) :
    ExactlyOnce after := by
  obtain ⟨keys, held, read⟩ := fair
  rw [ExactlyOnce, held, read, exactly]

theorem surplus_fair
    {before after : Keyboard}
    (surplus : Surplus before)
    (fair : Fair before after) :
    Surplus after := by
  obtain ⟨keys, held, read⟩ := fair
  simpa [Surplus, held, read] using surplus

theorem surplus_gains
    {before after : Keyboard}
    (atLeast : before.keysRead.length ≤ before.held.length)
    (gains : Gains before after) :
    Surplus after := by
  obtain ⟨keys, stale, held, read⟩ := gains
  simp only [Surplus, held, read, List.length_append, List.length_cons]
  omega

/-- A key that was not read stays among the held ones. -/
theorem surplus_step
    {keyboard : Keyboard}
    {call : InputCall}
    (surplus : Surplus keyboard) :
    Surplus (keyInput.step keyboard call).2 := by
  by_cases admitted : keyInput.admits keyboard call
  · exact surplus_fair surplus (step_fair admitted)
  · exact surplus_gains (Nat.le_of_lt surplus) (step_gains admitted)

theorem not_exactlyOnce_of_surplus
    {keyboard : Keyboard}
    (surplus : Surplus keyboard) :
    ¬ExactlyOnce keyboard := by
  intro exactly
  exact absurd (congrArg List.length exactly) (Nat.ne_of_gt surplus)

/--
Keys are delivered exactly once and in order in the runs, and only in the
runs, in which no wait for a key is ended by a device error.
-/
theorem keys_exactly_once_iff
    (conIn : Bool)
    (strokes : List Stroke)
    (calls : List InputCall) :
    ExactlyOnce (keyInput.run (.boot conIn strokes) calls) ↔
      keyInput.Admissible (.boot conIn strokes) calls := by
  have initially : ExactlyOnce (.boot conIn strokes) := rfl
  exact keyInput.run_invariant_iff
    (fun exactly admitted => exactlyOnce_fair exactly (step_fair admitted))
    (fun exactly notAdmitted =>
      surplus_gains (Nat.le_of_eq (congrArg List.length exactly.symm))
        (step_gains notAdmitted))
    surplus_step not_exactlyOnce_of_surplus initially

/-- A device error at the first wait delivers a key that was never read. -/
theorem device_error_delivers_key :
    ¬∀ conIn strokes calls,
      ExactlyOnce (keyInput.run (.boot conIn strokes) calls) := by
  intro always
  have delivered :
      ¬ExactlyOnce
        (keyInput.run
          (.boot true [.failure 0x8000000000000007 (by decide)])
          [.getc]) := by
    decide
  exact delivered (always _ _ _)

/-- The byte that a key is stored as. -/
def keyByte (key : InputKey) : UInt8 :=
  (keyChar key).toUInt32.toUInt8

/-- The bytes that a call has handed to its caller. -/
def InputResult.handed : InputResult → List UInt8
  | .waiting => []
  | .ready _ => []
  | .char c => [c.toUInt32.toUInt8]
  | .bytes stored => stored

section Results

variable {keyboard : Keyboard}

/-- The keys logged after a call are the bytes it handed over. -/
def Logs (before after : Keyboard) (handed : List UInt8) : Prop :=
  after.conIn = before.conIn ∧
    after.keysDelivered.map keyByte =
      before.keysDelivered.map keyByte ++ handed

theorem Logs.trans
    {first second third : Keyboard}
    {handed moreHanded : List UInt8}
    (earlier : Logs first second handed)
    (later : Logs second third moreHanded) :
    Logs first third (handed ++ moreHanded) :=
  ⟨later.1.trans earlier.1, by simp [later.2, earlier.2]⟩

theorem dataReady_logs (keyboard : Keyboard) :
    Logs keyboard (dataReady keyboard).2 [] := by
  have outcome := dataReady_outcome keyboard
  generalize dataReady keyboard = result at outcome
  cases outcome with
  | still | read | failed =>
      exact ⟨rfl, (List.append_nil _).symm⟩

theorem getc_logs
    {c : Int32}
    (input : keyboard.conIn = true)
    (returned : (getc keyboard).1 = some c) :
    Logs keyboard (getc keyboard).2 [c.toUInt32.toUInt8] := by
  have outcome := getc_outcome keyboard
  generalize getc keyboard = result at outcome returned
  cases outcome with
  | noInput noInput =>
      cases input.symm.trans noInput
  | waits =>
      cases returned
  | pending | read | error =>
      cases returned
      exact ⟨rfl, by simp [takePending, keyByte]⟩

theorem readMore_logs
    {room : Nat}
    {bytes : List UInt8}
    (input : keyboard.conIn = true)
    (returned : (readMore room keyboard).1 = some bytes) :
    Logs keyboard (readMore room keyboard).2 bytes := by
  induction room generalizing keyboard bytes with
  | zero =>
      obtain rfl : [] = bytes := by simpa [readMore] using returned
      exact ⟨rfl, by simp [readMore]⟩
  | succ room inductionHypothesis =>
      have probed := dataReady_logs keyboard
      rcases probe : dataReady keyboard with ⟨isReady?, ready⟩
      rw [probe] at probed
      rcases isReady? with _ | _ | _
      · simp [readMore, probe] at returned
      · obtain rfl : [] = bytes := by
          simpa [readMore, probe] using returned
        simpa [readMore, probe] using probed
      rcases got : getc ready with ⟨c?, next⟩
      cases c? with
      | none =>
          simp [readMore, probe, got] at returned
      | some c =>
          have readyInput : ready.conIn = true := probed.1.trans input
          have taken : Logs ready next [c.toUInt32.toUInt8] := by
            simpa [got] using getc_logs readyInput (congrArg Prod.fst got)
          have nextInput : next.conIn = true := taken.1.trans readyInput
          obtain ⟨more, moreReturned, rfl⟩ :
              ∃ more, (readMore room next).1 = some more ∧
                c.toUInt32.toUInt8 :: more = bytes := by
            simpa [readMore, probe, got] using returned
          have rest := inductionHypothesis nextInput moreReturned
          simpa [readMore, probe, got] using (probed.trans taken).trans rest

theorem read_logs
    {len : Nat}
    {bytes : List UInt8}
    (input : keyboard.conIn = true)
    (returned : (read keyboard len).1 = some bytes) :
    Logs keyboard (read keyboard len).2 bytes := by
  cases len with
  | zero =>
      obtain rfl : [] = bytes := by simpa [read] using returned
      exact ⟨rfl, by simp [read]⟩
  | succ room =>
      rcases got : getc keyboard with ⟨c?, next⟩
      cases c? with
      | none =>
          simp [read, got] at returned
      | some c =>
          have taken : Logs keyboard next [c.toUInt32.toUInt8] := by
            simpa [got] using getc_logs input (congrArg Prod.fst got)
          have nextInput : next.conIn = true := taken.1.trans input
          obtain ⟨more, moreReturned, rfl⟩ :
              ∃ more, (readMore room next).1 = some more ∧
                c.toUInt32.toUInt8 :: more = bytes := by
            simpa [read, got] using returned
          simpa [read, got] using
            taken.trans (readMore_logs nextInput moreReturned)

/-- A call that returns logs what it hands over. -/
theorem step_logs
    {call : InputCall}
    (input : keyboard.conIn = true)
    (returns : (keyInput.step keyboard call).1 ≠ .waiting) :
    Logs keyboard (keyInput.step keyboard call).2
      (keyInput.step keyboard call).1.handed := by
  cases call with
  | dataReady =>
      have logs := dataReady_logs keyboard
      rcases ready : dataReady keyboard with ⟨isReady?, after⟩
      rw [ready] at logs
      cases isReady? with
      | none => simpa [keyInput, ready, InputResult.handed] using logs
      | some isReady => simpa [keyInput, ready, InputResult.handed] using logs
  | getc =>
      rcases got : getc keyboard with ⟨c?, after⟩
      cases c? with
      | none =>
          simp [keyInput, got] at returns
      | some c =>
          have returned : (getc keyboard).1 = some c :=
            congrArg Prod.fst got
          simpa [keyInput, got, InputResult.handed] using
            getc_logs input returned
  | read len =>
      rcases stored : read keyboard len with ⟨bytes?, after⟩
      cases bytes? with
      | none =>
          simp [keyInput, stored] at returns
      | some bytes =>
          have returned : (read keyboard len).1 = some bytes :=
            congrArg Prod.fst stored
          simpa [keyInput, stored, InputResult.handed] using
            read_logs input returned

end Results

/--
While no call waits for ever, the keys logged as delivered are the characters
and bytes that the callers were handed.
-/
theorem delivered_keys_handed
    {strokes : List Stroke}
    {calls : List InputCall}
    (noWait :
      .waiting ∉ keyInput.responses (.boot true strokes) calls) :
    (keyInput.run (.boot true strokes) calls).keysDelivered.map keyByte =
      (keyInput.responses (.boot true strokes) calls).flatMap
        InputResult.handed := by
  suffices handed :
      ∀ keyboard : Keyboard,
        keyboard.conIn = true →
        .waiting ∉ keyInput.responses keyboard calls →
        (keyInput.run keyboard calls).keysDelivered.map keyByte =
          keyboard.keysDelivered.map keyByte ++
            (keyInput.responses keyboard calls).flatMap
              InputResult.handed by
    simpa [Keyboard.boot] using handed _ rfl noWait
  clear noWait
  induction calls with
  | nil =>
      simp
  | cons call rest inductionHypothesis =>
      intro keyboard input noWait
      simp only [Machine.responses_cons, List.mem_cons, not_or] at noWait
      obtain ⟨returns, restReturns⟩ := noWait
      have logs := step_logs input (Ne.symm returns)
      have restHanded :=
        inductionHypothesis _ (logs.1.trans input) restReturns
      simp only [Machine.run_cons, Machine.responses_cons,
        List.flatMap_cons, restHanded, logs.2, List.append_assoc]

end RubyOnBareMetal.UefiConsole
