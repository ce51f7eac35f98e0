import RubyOnBareMetal.Foundation.Bytes
import RubyOnBareMetal.Foundation.Raising

namespace RubyOnBareMetal.Shell

open Foundation

/-!
# The main loop of `ruby/scripts/init.rb`

A line is run as a command or evaluated, and an exception that it raises is
displayed.  Everything that other code can define is a question to a runtime:
what a method of an object answers, and in which state it leaves the world.
The variables of the loop are its own.
-/

/-- A line; a string is the list of its bytes. -/
abbrev Line := List UInt8

/-- The classes of exceptions that the clauses of the loop tell apart. -/
inductive ErrorClass where
  | standardError
  | syntaxError
  | otherException
  deriving Repr, DecidableEq

/-- An exception object and its class. -/
structure Exn (Obj : Type) where
  object : Obj
  errorClass : ErrorClass
  deriving Repr, DecidableEq

/-- An object that the script writes down. -/
inductive Literal where
  | string (text : List UInt8)
  | integer (number : Nat)
  | arrayClass
  | nil
  deriving Repr, DecidableEq

/-- A method that the script calls. -/
inductive Method where
  | className
  | toS
  | message
  | backtrace
  | isA
  | length
  | index
  | plus
  | minus
  | less
  | greater
  | inspect
  | call
  deriving Repr, DecidableEq

/-- The objects, their methods and the parts of the system that answer. -/
structure Runtime (World Obj : Type) where
  literal : Literal → Obj
  truthy : Obj → Bool
  isString : Obj → Bool
  anyToS : Obj → Obj
  interpolated : List Obj → Obj
  send : Obj → Method → List Obj → World → Except (Exn Obj) Obj × World
  evaluate : Line → World → Except (Exn Obj) Obj × World
  command? : World → Line → Option Obj
  syswrite : Obj → World → World
  prompted : Option Line → World → World

/-- The world and the arrays `parts` and `result` of `format_exception`. -/
structure Locals (World Obj : Type) where
  world : World
  parts : List Obj
  result : List Obj
  deriving Repr, DecidableEq

/-- Code of the script. -/
abbrev Code (World Obj α : Type) :=
  Raising (Locals World Obj) (Exn Obj) α

variable {World Obj : Type}

/-- The bytes of a text. -/
def ascii (text : String) : List UInt8 :=
  text.toList.map asciiByte

/-- `rescue` without a class. -/
def isStandard (exception : Exn Obj) : Bool :=
  exception.errorClass = .standardError

namespace Runtime

variable (runtime : Runtime World Obj)

/-- A string of the script. -/
def string (text : String) : Obj :=
  runtime.literal (.string (ascii text))

/-- A method call. -/
def ask (object : Obj) (method : Method) (arguments : List Obj) :
    Code World Obj Obj :=
  Raising.call fun locals =>
    let (answer, world) :=
      runtime.send object method arguments locals.world
    (answer, { locals with world := world })

/-- The string that `syswrite` and `"#{object}"` make of an object. -/
def asString (object : Obj) : Code World Obj Obj :=
  if runtime.isString object then
    pure object
  else do
    let text ← runtime.ask object .toS []
    pure (if runtime.isString text then text else runtime.anyToS object)

/-- `$stdout.syswrite` of a string. -/
def emit (text : Obj) : Code World Obj Unit :=
  Raising.change fun locals =>
    { locals with world := runtime.syswrite text locals.world }

/-- `$stdout.syswrite`. -/
def write (object : Obj) : Code World Obj Unit := do
  let text ← runtime.asString object
  runtime.emit text

/-! ## `format_exception` -/

/-- `parts.push(part)`. -/
def pushPart (part : Obj) : Code World Obj Unit :=
  Raising.change fun locals => { locals with parts := locals.parts ++ [part] }

/-- `parts[0] = part`. -/
def setPart (part : Obj) : Code World Obj Unit :=
  Raising.change fun locals => { locals with parts := locals.parts.set 0 part }

/-- `parts[0]`. -/
def firstPart : Code World Obj Obj :=
  Raising.look fun locals => locals.parts.headD (runtime.literal .nil)

/-- `result.push(line)`. -/
def pushLine (line : Obj) : Code World Obj Unit :=
  Raising.change fun locals =>
    { locals with result := locals.result ++ [line] }

/-- `parts.push(e.class.to_s)`. -/
def pushClass (e : Obj) : Code World Obj Unit := do
  let className ← runtime.ask e .className []
  let name ← runtime.ask className .toS []
  pushPart name

/-- `m = e.message` and what is done with it. -/
def appendMessage (e : Obj) : Code World Obj Unit := do
  let m ← runtime.ask e .message []
  if runtime.truthy m then do
    let first ← runtime.firstPart
    let head ← runtime.ask first .plus [runtime.string ": "]
    let text ← runtime.ask m .toS []
    let part ← runtime.ask head .plus [text]
    setPart part
  else
    pure ()

/-- The loop over the backtrace from `i` on, `left` passes before `5`. -/
def pushFrames (bt : Obj) : Nat → Nat → Code World Obj Unit
  | left, i => do
      let length ← runtime.ask bt .length []
      let more ← runtime.ask (runtime.literal (.integer i)) .less [length]
      match left with
      | 0 => pure ()
      | left + 1 =>
          if runtime.truthy more then do
            let frame ← runtime.ask bt .index [runtime.literal (.integer i)]
            let text ← runtime.ask frame .toS []
            let line ← runtime.ask (runtime.string "  from ") .plus [text]
            pushLine line
            pushFrames bt left (i + 1)
          else
            pure ()

/-- The frames that are left out, if there are any. -/
def pushRest (bt : Obj) : Code World Obj Unit := do
  let length ← runtime.ask bt .length []
  let five := runtime.literal (.integer 5)
  let more ← runtime.ask length .greater [five]
  if runtime.truthy more then do
    let length ← runtime.ask bt .length []
    let count ← runtime.ask length .minus [five]
    let text ← runtime.asString count
    pushLine
      (runtime.interpolated
        [runtime.string "  ... ", text, runtime.string " more"])
  else
    pure ()

/-- `bt = e.backtrace` and what is done with it. -/
def pushBacktrace (e : Obj) : Code World Obj Unit := do
  let bt ← runtime.ask e .backtrace []
  let isArray ← runtime.ask bt .isA [runtime.literal .arrayClass]
  if runtime.truthy isArray then do
    runtime.pushFrames bt 5 0
    runtime.pushRest bt
  else
    pure ()

/-- `format_exception`. -/
def formatException (e : Obj) : Code World Obj (List Obj) := do
  Raising.change fun locals => { locals with parts := [], result := [] }
  Raising.rescue isStandard (runtime.pushClass e)
    fun _ => pushPart (runtime.string "Exception")
  Raising.rescue isStandard (runtime.appendMessage e) fun _ => pure ()
  let first ← runtime.firstPart
  pushLine first
  Raising.rescue isStandard (runtime.pushBacktrace e) fun _ => pure ()
  Raising.look fun locals => locals.result

/-! ## The loop -/

/-- `$stdout.syswrite(l + "\n")`. -/
def writeLine (l : Obj) : Code World Obj Unit := do
  let text ← runtime.ask l .plus [runtime.string "\n"]
  runtime.write text

/-- The display of an exception, with what is written if it fails. -/
def displayException (failure : String) (e : Obj) : Code World Obj Unit :=
  Raising.rescue isStandard
    (do
      let lines ← runtime.formatException e
      Raising.each runtime.writeLine lines)
    fun _ => runtime.emit (runtime.string failure)

/-- `$commands[cmd].call(arg)`. -/
def runCommand (command : Obj) (arg : Option Line) : Code World Obj Unit := do
  let _ ← runtime.ask command .call
    (arg.toList.map fun text => runtime.literal (.string text))
  pure ()

/-- `eval(line, TOPLEVEL_BINDING, '(eval)', 1)` and its display. -/
def evaluateExpression (line : Line) : Code World Obj Unit := do
  let result ← Raising.call fun locals =>
    let (answer, world) := runtime.evaluate line locals.world
    (answer, { locals with world := world })
  runtime.emit (runtime.string "=> ")
  let text ← runtime.ask result .inspect []
  runtime.write text
  runtime.emit (runtime.string "\n")

/-- `rescue SyntaxError` and `rescue Exception => e`. -/
def rescueEvaluation (e : Exn Obj) : Code World Obj Unit :=
  if e.errorClass = .syntaxError then
    runtime.emit (runtime.string "SyntaxError\n")
  else
    runtime.displayException "(error)\n" e.object

/-- A white-space character. -/
abbrev IsSpace (c : UInt8) : Prop :=
  c = 0x20 ∨ (0x09 ≤ c ∧ c ≤ 0x0D)

/-- `line.split(' ', 2)`: the name of a command and its argument. -/
def splitCommand (line : Line) : Line × Option Line :=
  let words := line.dropWhile fun c => IsSpace c
  let rest := words.dropWhile fun c => ¬ IsSpace c
  (words.takeWhile fun c => ¬ IsSpace c,
    if rest = [] then none else some (rest.dropWhile fun c => IsSpace c))

/-- What a line runs, and what is done with an exception that it raises. -/
def branch (world : World) (line : Line) :
    Code World Obj Unit × (Exn Obj → Code World Obj Unit) :=
  let (cmd, arg) := splitCommand line
  match runtime.command? world cmd with
  | some command =>
      (runtime.runCommand command arg,
        fun e =>
          runtime.displayException "(error displaying exception)\n" e.object)
  | none => (runtime.evaluateExpression line, runtime.rescueEvaluation)

/-- A line is run and every exception is rescued. -/
def runLine (world : World) (line : Line) : Code World Obj Unit :=
  Raising.rescue (fun _ => true) (runtime.branch world line).1
    (runtime.branch world line).2

end Runtime

/-- The state of the loop. -/
structure Session (World : Type) where
  world : World
  history : List Line
  deriving Repr, DecidableEq

/-- The words that end the loop. -/
abbrev IsEndWord (line : Line) : Prop :=
  line = ['e', 'x', 'i', 't'].map asciiByte ∨
    line = ['h', 'a', 'l', 't'].map asciiByte ∨
    line = ['s', 'h', 'u', 't', 'd', 'o', 'w', 'n'].map asciiByte

/-- An iteration reads the next line, ends the loop or is left. -/
inductive Iteration (World Obj : Type) where
  | reads (session : Session World)
  | ended (session : Session World)
  | escapes (exception : Exn Obj) (session : Session World)
  deriving Repr, DecidableEq

/-- The variables before a line is run. -/
def Locals.start (world : World) : Locals World Obj where
  world := world
  parts := []
  result := []

namespace Runtime

variable (runtime : Runtime World Obj)

/-- An iteration of the loop; `none` is an `EOFError` from `read_line`. -/
def iterate (session : Session World) (prompt : Option Line) :
    Iteration World Obj :=
  let world := runtime.prompted prompt session.world
  match prompt with
  | none => .ended { session with world := world }
  | some line =>
      if line = [] then
        .reads { session with world := world }
      else
        let history := session.history ++ [line]
        if IsEndWord line then
          .ended { world := world, history := history }
        else
          let trial := (runtime.runLine world line).run (Locals.start world)
          match trial.outcome with
          | .ok _ => .reads { world := trial.state.world, history := history }
          | .error e =>
              .escapes e { world := trial.state.world, history := history }

/-- The loop, until it ends or there are no more prompts. -/
def mainLoop (session : Session World) :
    List (Option Line) → Iteration World Obj
  | [] => .reads session
  | prompt :: prompts =>
      match runtime.iterate session prompt with
      | .reads next => mainLoop next prompts
      | .ended final => .ended final
      | .escapes e final => .escapes e final

/-! ## What the loop is for -/

/-- An `EOFError` and three words end the loop. -/
def Ends (prompt : Option Line) : Prop :=
  ∀ line ∈ prompt, IsEndWord line

instance (prompt : Option Line) : Decidable (Ends prompt) :=
  Option.decidableForallMem _

/-- The lines that are appended to the history. -/
def pushed : List (Option Line) → List Line
  | [] => []
  | none :: _ => []
  | some line :: prompts =>
      if line = [] then
        pushed prompts
      else if IsEndWord line then
        [line]
      else
        line :: pushed prompts

/-- The loop goes on, with all lines in its history, until it is ended. -/
def Survives (session : Session World) (prompts : List (Option Line)) :
    Prop :=
  ∃ final,
    final.history = session.history ++ pushed prompts ∧
      runtime.mainLoop session prompts =
        if prompts.any fun prompt => Ends prompt then
          .ended final
        else
          .reads final

/-- While an exception is displayed, calls raise `StandardError`s only. -/
def DisplaysCalmly (world : World) (line : Line) : Prop :=
  ∀ e,
    ((runtime.branch world line).1.run (Locals.start world)).outcome =
      .error e →
    ∀ exception ∈
      (((runtime.branch world line).2 e).run
        ((runtime.branch world line).1.run (Locals.start world)).state).raised,
      isStandard exception = true

/-- Whatever exception a line of the run raises is displayed calmly. -/
def Calm (session : Session World) : List (Option Line) → Prop
  | [] => True
  | prompt :: prompts =>
      (∀ line ∈ prompt,
        line ≠ [] →
        ¬ IsEndWord line →
        runtime.DisplaysCalmly (runtime.prompted prompt session.world) line) ∧
      ∀ next,
        runtime.iterate session prompt = .reads next →
        Calm next prompts

/-! ## What escapes a display -/

/-- An exception that `rescue` without a class lets through. -/
abbrev Severe (exception : Exn Obj) : Prop :=
  isStandard exception = false

/-- A method call is candid. -/
theorem candid_ask
    (object : Obj)
    (method : Method)
    (arguments : List Obj) :
    Raising.Candid Severe (runtime.ask object method arguments) :=
  Raising.candid_call _

/-- `rescue` without a class keeps candid code candid. -/
theorem candid_rescue
    {α : Type}
    {body : Code World Obj α}
    {handler : Exn Obj → Code World Obj α}
    (candid : Raising.Candid Severe body)
    (candidHandler : ∀ e, Raising.Candid Severe (handler e)) :
    Raising.Candid Severe (Raising.rescue isStandard body handler) :=
  Raising.Candid.rescue (fun _ severe => severe) candid candidHandler

theorem candid_asString (object : Obj) :
    Raising.Candid Severe (runtime.asString object) := by
  rw [asString]
  split
  · exact Raising.candid_pure object
  · exact (runtime.candid_ask _ _ _).bind fun _ => Raising.candid_pure _

theorem candid_write (object : Obj) :
    Raising.Candid Severe (runtime.write object) :=
  (runtime.candid_asString object).bind fun _ => Raising.candid_change _

theorem candid_pushClass (e : Obj) :
    Raising.Candid Severe (runtime.pushClass e) := by
  refine (runtime.candid_ask _ _ _).bind fun className => ?_
  refine (runtime.candid_ask _ _ _).bind fun name => ?_
  exact Raising.candid_change _

theorem candid_appendMessage (e : Obj) :
    Raising.Candid Severe (runtime.appendMessage e) := by
  refine (runtime.candid_ask _ _ _).bind fun m => ?_
  split
  · refine (Raising.candid_look _).bind fun first => ?_
    refine (runtime.candid_ask _ _ _).bind fun head => ?_
    refine (runtime.candid_ask _ _ _).bind fun text => ?_
    refine (runtime.candid_ask _ _ _).bind fun part => ?_
    exact Raising.candid_change _
  · exact Raising.candid_pure ()

/-- The loop over the backtrace, one pass after the other. -/
theorem candid_pushFrames (bt : Obj) (left i : Nat) :
    Raising.Candid Severe (runtime.pushFrames bt left i) := by
  induction left generalizing i with
  | zero =>
      refine (runtime.candid_ask _ _ _).bind fun length => ?_
      refine (runtime.candid_ask _ _ _).bind fun more => ?_
      exact Raising.candid_pure ()
  | succ left inductionHypothesis =>
      refine (runtime.candid_ask _ _ _).bind fun length => ?_
      refine (runtime.candid_ask _ _ _).bind fun more => ?_
      split
      · refine (runtime.candid_ask _ _ _).bind fun frame => ?_
        refine (runtime.candid_ask _ _ _).bind fun text => ?_
        refine (runtime.candid_ask _ _ _).bind fun line => ?_
        exact (Raising.candid_change _).bind fun _ =>
          inductionHypothesis (i + 1)
      · exact Raising.candid_pure ()

theorem candid_pushRest (bt : Obj) :
    Raising.Candid Severe (runtime.pushRest bt) := by
  refine (runtime.candid_ask _ _ _).bind fun length => ?_
  refine (runtime.candid_ask _ _ _).bind fun more => ?_
  split
  · refine (runtime.candid_ask _ _ _).bind fun length => ?_
    refine (runtime.candid_ask _ _ _).bind fun count => ?_
    exact (runtime.candid_asString count).bind fun _ =>
      Raising.candid_change _
  · exact Raising.candid_pure ()

theorem candid_pushBacktrace (e : Obj) :
    Raising.Candid Severe (runtime.pushBacktrace e) := by
  refine (runtime.candid_ask _ _ _).bind fun bt => ?_
  refine (runtime.candid_ask _ _ _).bind fun isArray => ?_
  split
  · exact (runtime.candid_pushFrames bt 5 0).bind fun _ =>
      runtime.candid_pushRest bt
  · exact Raising.candid_pure ()

/-- What escapes `format_exception` is what is severe. -/
theorem candid_formatException (e : Obj) :
    Raising.Candid Severe (runtime.formatException e) := by
  refine (Raising.candid_change _).bind fun _ => ?_
  refine (candid_rescue (runtime.candid_pushClass e)
    fun _ => Raising.candid_change _).bind fun _ => ?_
  refine (candid_rescue (runtime.candid_appendMessage e)
    fun _ => Raising.candid_pure ()).bind fun _ => ?_
  refine (Raising.candid_look _).bind fun first => ?_
  refine (Raising.candid_change _).bind fun _ => ?_
  refine (candid_rescue (runtime.candid_pushBacktrace e)
    fun _ => Raising.candid_pure ()).bind fun _ => ?_
  exact Raising.candid_look _

/-- A display returns exactly when no call raises a severe exception. -/
theorem displayException_returns_iff
    (failure : String)
    (e : Obj)
    (locals : Locals World Obj) :
    (∃ value,
        ((runtime.displayException failure e).run locals).outcome =
          .ok value) ↔
      ∀ exception ∈
        ((runtime.displayException failure e).run locals).raised,
        isStandard exception = true := by
  have writes (l : Obj) :
      Raising.Candid Severe (runtime.writeLine l) :=
    (runtime.candid_ask l _ _).bind fun text => runtime.candid_write text
  have candid :
      Raising.Candid Severe (runtime.displayException failure e) :=
    candid_rescue
      ((runtime.candid_formatException e).bind fun lines =>
        Raising.candid_each writes lines)
      fun _ => Raising.candid_change _
  have returns :=
    candid.returns_iff (fun _ severe => severe)
      (fun _ _ => ⟨(), rfl⟩) locals
  simp only [Severe, Bool.not_eq_false] at returns
  exact returns

/-- An exception is displayed to the end if its display is calm. -/
theorem handler_returns_iff
    (world : World)
    (line : Line)
    (e : Exn Obj)
    (locals : Locals World Obj) :
    (∃ value,
        (((runtime.branch world line).2 e).run locals).outcome =
          .ok value) ↔
      ∀ exception ∈ (((runtime.branch world line).2 e).run locals).raised,
        isStandard exception = true := by
  rw [branch]
  dsimp only
  cases runtime.command? world (splitCommand line).1 with
  | some command =>
      exact runtime.displayException_returns_iff _ _ _
  | none =>
      dsimp only
      rw [rescueEvaluation]
      split
      · exact iff_of_true ⟨(), rfl⟩ (List.forall_mem_nil _)
      · exact runtime.displayException_returns_iff _ _ _

/-- A line returns exactly when its exception is displayed calmly. -/
theorem runLine_returns_iff
    (world : World)
    (line : Line) :
    (∃ value,
        ((runtime.runLine world line).run (Locals.start world)).outcome =
          .ok value) ↔
      runtime.DisplaysCalmly world line := by
  rw [DisplaysCalmly, runLine]
  cases outcome :
      ((runtime.branch world line).1.run (Locals.start world)).outcome with
  | ok value =>
      rw [Raising.rescue_of_ok outcome]
      refine iff_of_true ⟨value, outcome⟩ ?_
      intro e raised
      cases raised
  | error e =>
      rw [Raising.rescue_of_caught outcome rfl]
      rw [runtime.handler_returns_iff]
      constructor
      · rintro calm other same
        rw [Except.error.injEq] at same
        exact same ▸ calm
      · exact fun calm => calm e rfl

/-! ## Runs of the loop -/

/-- A line that does not end the loop is in the history afterwards. -/
theorem iterate_line
    {line : Line}
    (nonempty : line ≠ [])
    (goesOn : ¬ IsEndWord line)
    (session : Session World) :
    (runtime.DisplaysCalmly (runtime.prompted (some line) session.world)
        line ∧
      ∃ world,
        runtime.iterate session (some line) =
          .reads ⟨world, session.history ++ [line]⟩) ∨
    (¬ runtime.DisplaysCalmly
        (runtime.prompted (some line) session.world) line ∧
      ∃ e final,
        runtime.iterate session (some line) = .escapes e final) := by
  rw [← runLine_returns_iff, iterate]
  dsimp only
  rw [if_neg nonempty, if_neg goesOn]
  cases ((runtime.runLine (runtime.prompted (some line) session.world)
      line).run
      (Locals.start (runtime.prompted (some line) session.world))).outcome with
  | ok value =>
      exact .inl ⟨⟨value, rfl⟩, _, rfl⟩
  | error e =>
      refine .inr ⟨?_, e, _, rfl⟩
      rintro ⟨value, returned⟩
      cases returned

/-- A line that is no end word does not end the loop. -/
theorem not_ends_some
    {line : Line}
    (goesOn : ¬ IsEndWord line) :
    ¬ Ends (some line) :=
  fun ends => goesOn (ends line rfl)

/-- Nothing is appended after the loop has ended. -/
theorem pushed_of_ends
    {prompt : Option Line}
    (ends : Ends prompt)
    (prompts : List (Option Line)) :
    pushed (prompt :: prompts) = pushed [prompt] := by
  cases prompt with
  | none =>
      rfl
  | some line =>
      have isEnd : IsEndWord line := ends line rfl
      have nonempty : line ≠ [] := by
        rintro rfl
        exact absurd isEnd (by decide)
      rw [pushed, pushed, if_neg nonempty, if_neg nonempty, if_pos isEnd,
        if_pos isEnd]

/-- Before that every line appends what it would append alone. -/
theorem pushed_of_not_ends
    {prompt : Option Line}
    (goesOn : ¬ Ends prompt)
    (prompts : List (Option Line)) :
    pushed (prompt :: prompts) = pushed [prompt] ++ pushed prompts := by
  cases prompt with
  | none =>
      refine absurd ?_ goesOn
      rintro line ⟨⟩
  | some line =>
      have notEnd : ¬ IsEndWord line := by
        intro isEnd
        refine goesOn ?_
        rintro other isLine
        exact Option.some.inj isLine ▸ isEnd
      rw [pushed, pushed]
      by_cases empty : line = []
      · rw [if_pos empty, if_pos empty]
        rfl
      · rw [if_neg empty, if_neg notEnd, if_neg empty, if_neg notEnd]
        rfl

/--
An iteration ends the loop, reads on after a line that is displayed calmly or
is left by an exception.
-/
theorem iterate_cases
    (session : Session World)
    (prompt : Option Line) :
    let calm :=
      ∀ line ∈ prompt,
        line ≠ [] →
        ¬ IsEndWord line →
        runtime.DisplaysCalmly (runtime.prompted prompt session.world) line
    (Ends prompt ∧
      ∃ world,
        runtime.iterate session prompt =
          .ended ⟨world, session.history ++ pushed [prompt]⟩) ∨
    (¬ Ends prompt ∧ calm ∧
      ∃ world,
        runtime.iterate session prompt =
          .reads ⟨world, session.history ++ pushed [prompt]⟩) ∨
    (¬ calm ∧
      ∃ e final, runtime.iterate session prompt = .escapes e final) := by
  intro calm
  cases prompt with
  | none =>
      refine .inl ⟨?_, runtime.prompted none session.world, ?_⟩
      · rintro line ⟨⟩
      · rw [pushed, List.append_nil]
        rfl
  | some line =>
      by_cases empty : line = []
      · subst empty
        refine .inr (.inl ⟨not_ends_some (by decide), ?_,
          runtime.prompted (some []) session.world, ?_⟩)
        · intro line isLine nonempty
          exact absurd (Option.some.inj isLine).symm nonempty
        · rw [pushed, if_pos rfl, pushed, List.append_nil]
          rfl
      · by_cases isEnd : IsEndWord line
        · refine .inl ⟨?_, runtime.prompted (some line) session.world, ?_⟩
          · rintro other isLine
            exact Option.some.inj isLine ▸ isEnd
          · rw [iterate]
            dsimp only
            rw [if_neg empty, if_pos isEnd, pushed, if_neg empty,
              if_pos isEnd]
        · rcases runtime.iterate_line empty isEnd session with
            ⟨displayed, world, read⟩ | ⟨notDisplayed, escaped⟩
          · refine .inr (.inl ⟨not_ends_some isEnd, ?_, world, ?_⟩)
            · rintro other isLine _ _
              exact Option.some.inj isLine ▸ displayed
            · rw [read, pushed, if_neg empty, if_neg isEnd, pushed]
          · refine .inr (.inr ⟨?_, escaped⟩)
            exact fun calmLine =>
              notDisplayed (calmLine line rfl empty isEnd)

/-- An iteration that reads on leaves the rest to the rest of the loop. -/
theorem survives_of_reads
    {session : Session World}
    {prompt : Option Line}
    {world : World}
    (read :
      runtime.iterate session prompt =
        .reads ⟨world, session.history ++ pushed [prompt]⟩)
    (goesOn : ¬ Ends prompt)
    (prompts : List (Option Line)) :
    runtime.Survives session (prompt :: prompts) ↔
      runtime.Survives ⟨world, session.history ++ pushed [prompt]⟩
        prompts := by
  have others :
      ((prompt :: prompts).any fun other => Ends other) =
        prompts.any fun other => Ends other := by
    rw [List.any_cons, decide_eq_false goesOn, Bool.false_or]
  rw [Survives, Survives, others, pushed_of_not_ends goesOn, mainLoop, read]
  simp only [List.append_assoc]

/-- An iteration that ends the loop at an end word survives. -/
theorem survives_of_ended
    {session : Session World}
    {prompt : Option Line}
    {world : World}
    (ended :
      runtime.iterate session prompt =
        .ended ⟨world, session.history ++ pushed [prompt]⟩)
    (ends : Ends prompt)
    (prompts : List (Option Line)) :
    runtime.Survives session (prompt :: prompts) := by
  refine ⟨⟨world, session.history ++ pushed [prompt]⟩, ?_, ?_⟩
  · exact congrArg (session.history ++ ·) (pushed_of_ends ends prompts).symm
  · rw [mainLoop, ended, List.any_cons, decide_eq_true ends, Bool.true_or]
    rfl

/-- An iteration that is left by an exception does not survive. -/
theorem not_survives_of_escapes
    {session final : Session World}
    {prompt : Option Line}
    {e : Exn Obj}
    (escaped : runtime.iterate session prompt = .escapes e final)
    (prompts : List (Option Line)) :
    ¬ runtime.Survives session (prompt :: prompts) := by
  rintro ⟨other, _, survived⟩
  rw [mainLoop, escaped] at survived
  dsimp only at survived
  split at survived
  · cases survived
  · cases survived

/-- A run that reads on is calm if its first line and the rest are. -/
theorem calm_of_reads
    {session next : Session World}
    {prompt : Option Line}
    {prompts : List (Option Line)}
    (read : runtime.iterate session prompt = .reads next)
    (calm :
      ∀ line ∈ prompt,
        line ≠ [] →
        ¬ IsEndWord line →
        runtime.DisplaysCalmly
          (runtime.prompted prompt session.world) line) :
    runtime.Calm session (prompt :: prompts) ↔
      runtime.Calm next prompts := by
  constructor
  · intro whole
    exact whole.2 next read
  · intro rest
    refine ⟨calm, fun other readOther => ?_⟩
    rw [read, Iteration.reads.injEq] at readOther
    exact readOther ▸ rest

/-- A run that ends is calm. -/
theorem calm_of_ended
    {session final : Session World}
    {prompt : Option Line}
    (ended : runtime.iterate session prompt = .ended final)
    (ends : Ends prompt)
    (prompts : List (Option Line)) :
    runtime.Calm session (prompt :: prompts) := by
  constructor
  · intro line isLine _ goesOn
    exact absurd (ends line isLine) goesOn
  · intro next read
    rw [ended] at read
    cases read

/--
The loop goes on after every line, with the line in the history once, and
ends only at the end words and `EOFError`, exactly if every exception that a
line raises is displayed calmly.
-/
theorem shell_survives_iff
    (session : Session World)
    (prompts : List (Option Line)) :
    runtime.Survives session prompts ↔ runtime.Calm session prompts := by
  induction prompts generalizing session with
  | nil =>
      refine iff_of_true ⟨session, ?_, rfl⟩ trivial
      exact (List.append_nil _).symm
  | cons prompt prompts inductionHypothesis =>
      rcases runtime.iterate_cases session prompt with
        ⟨ends, world, ended⟩ | ⟨goesOn, calm, world, read⟩ |
          ⟨notCalm, e, final, escaped⟩
      · exact iff_of_true
          (runtime.survives_of_ended ended ends prompts)
          (runtime.calm_of_ended ended ends prompts)
      · rw [runtime.survives_of_reads read goesOn, inductionHypothesis]
        exact (runtime.calm_of_reads read calm).symm
      · exact iff_of_false
          (runtime.not_survives_of_escapes escaped prompts)
          fun whole => notCalm whole.1

/-- `raise E`, where `E` is a `StandardError` whose `message` calls `exit`. -/
def exitingMessage : Runtime Unit Bool where
  literal _ := false
  truthy _ := true
  isString _ := true
  anyToS object := object
  interpolated _ := false
  send object method _ _ :=
    if object = true ∧ method = .message then
      (.error ⟨false, .otherException⟩, ())
    else
      (.ok false, ())
  evaluate _ _ := (.error ⟨true, .standardError⟩, ())
  command? _ _ := none
  syswrite _ _ := ()
  prompted _ _ := ()

/-- The `SystemExit` that displaying the exception raises leaves the loop. -/
theorem exit_in_message_leaves_loop :
    exitingMessage.iterate ⟨(), []⟩
        (some (['r', 'a', 'i', 's', 'e', ' ', 'E'].map asciiByte)) =
      .escapes ⟨false, .otherException⟩
        ⟨(), [['r', 'a', 'i', 's', 'e', ' ', 'E'].map asciiByte]⟩ ∧
    ¬ exitingMessage.Survives ⟨(), []⟩
        [some (['r', 'a', 'i', 's', 'e', ' ', 'E'].map asciiByte)] := by
  have escaped :
      exitingMessage.iterate ⟨(), []⟩
          (some (['r', 'a', 'i', 's', 'e', ' ', 'E'].map asciiByte)) =
        .escapes ⟨false, .otherException⟩
          ⟨(), [['r', 'a', 'i', 's', 'e', ' ', 'E'].map asciiByte]⟩ := by
    decide
  exact ⟨escaped, exitingMessage.not_survives_of_escapes escaped []⟩

end Runtime

end RubyOnBareMetal.Shell
