import Mathlib.Algebra.GroupWithZero.Nat
import RubyOnBareMetal.Shell.Evaluation
import RubyOnBareMetal.Shell.LineReader
import RubyOnBareMetal.Shell.Lines

namespace RubyOnBareMetal.Shell

open Foundation

/-!
# The commands of `ruby/scripts/init.rb`

The lambdas of `$commands` and the loop that calls them, over the streams, the
history and the files.  Ruby itself is a parameter: its version, its clock, its
objects, its exceptions and what `eval` does.
-/

/-- The streams, `$history`, `$vfs` and the number of clock readings made. -/
structure Globals where
  input : List UInt8
  output : List UInt8
  history : List Line
  vfs : Vfs
  readings : Nat
  deriving Repr, DecidableEq

/-- An exception, as `format_exception` sees it. -/
structure Raised where
  className : Line
  message : Option Line
  backtrace : Option (List Line)
  syntaxError : Bool
  deriving Repr, DecidableEq

/-- What the script itself makes Ruby raise. -/
inductive Cause where
  | reading (failure : Failure)
  | arguments (cmd : Line)
  | listing (dir : Path)
  deriving Repr, DecidableEq

/-- Code of the script. -/
abbrev ShellCode := Raising Globals Raised

/--
Ruby.  A clock reading is in seconds, and `objects` are the slots that
`ObjectSpace` counts in total and free.  `emptyEditor` is `mui` without a path.
-/
structure Interpreter (Value : Type) where
  version : Line
  platform : Line
  seconds : Nat → Int
  objects : Nat → Int × Int
  raised : Cause → Raised
  evaluate : Line → ShellCode Value
  inspect : Value → ShellCode Line
  load : Line → Path → ShellCode Unit
  editor : Path → ShellCode Unit
  emptyEditor : ShellCode Unit

/-! ## Output and input -/

/-- `$stdout.syswrite`. -/
def syswrite (text : List UInt8) : ShellCode Unit :=
  Raising.change fun globals =>
    { globals with output := globals.output ++ text }

/-- What `puts` writes: a line ends in one newline. -/
def putsText (text : List UInt8) : List UInt8 :=
  if text.getLast? = some newline then text else text ++ [newline]

/-- `puts`. -/
def puts (text : List UInt8) : ShellCode Unit :=
  syswrite (putsText text)

/-- The globals after `read_line`. -/
def Globals.readBy (globals : Globals) (reader : LineReader) : Globals :=
  { globals with
    input := reader.input
    output := globals.output ++ reader.output }

section Interpreted

variable {Value : Type}
variable (ruby : Interpreter Value)

/-- `read_line`. -/
def readLineCode (prompt : Line) : ShellCode Line :=
  Raising.call fun globals =>
    match readLine prompt globals.history globals.input with
    | .returned line reader => (.ok line, globals.readBy reader)
    | .raised failure reader =>
        (.error (ruby.raised (.reading failure)), globals.readBy reader)
    | .again reader => (.ok [], globals.readBy reader)

/-- The loop that reads a text, until `'.'`; every pass takes a byte. -/
def readText : Nat → List Line → ShellCode (List Line)
  | 0, lines => pure lines
  | left + 1, lines => do
      syswrite [0x20, 0x20]
      let l ← readLineCode ruby []
      if l = [0x2E] then
        pure lines
      else
        readText left (lines ++ [l])

/-- `lines.join("\n") + "\n"`. -/
def joinedLines (lines : List Line) : List UInt8 :=
  Ruby.join newline lines ++ [newline]

/-- `format_exception`. -/
def formatRaised (e : Raised) : List Line :=
  let first :=
    match e.message with
    | none => e.className
    | some m => e.className ++ ascii ": " ++ m
  first ::
    match e.backtrace with
    | none => []
    | some bt =>
        (bt.take 5).map (ascii "  from " ++ ·) ++
          if 5 < bt.length then
            [ascii "  ... " ++ decimalText (bt.length - 5) ++ ascii " more"]
          else
            []

/-- What is written for an exception. -/
def raisedText (e : Raised) : List UInt8 :=
  (formatRaised e).flatMap (· ++ [newline])

/-! ## Files -/

/-- `VFS.write`. -/
def vfsWrite (path : Path) (content : List UInt8) : ShellCode Unit :=
  Raising.change fun globals =>
    { globals with vfs := globals.vfs.write path content }

/-- `VFS.size` of a path that is stored, as text. -/
def vfsSize (path : Path) : ShellCode (List UInt8) :=
  Raising.look fun globals =>
    match globals.vfs.read path with
    | none => []
    | some d => decimalText d.length

/-- The three paths under `/proc`. -/
def procVersion : Path :=
  ['/', 'p', 'r', 'o', 'c', '/', 'v', 'e', 'r', 's', 'i', 'o', 'n'].map
    asciiByte
def procUptime : Path :=
  ['/', 'p', 'r', 'o', 'c', '/', 'u', 'p', 't', 'i', 'm', 'e'].map asciiByte
def procMeminfo : Path :=
  ['/', 'p', 'r', 'o', 'c', '/', 'm', 'e', 'm', 'i', 'n', 'f', 'o'].map
    asciiByte

/-- The text of `/proc/version`. -/
def versionText : List UInt8 :=
  ascii "Ruby on Bare Metal v0.1\nRuby " ++ ruby.version ++ ascii " [" ++
    ruby.platform ++ ascii "]\n"

/-- The text of `/proc/uptime`. -/
def uptimeText (t : Int) : List UInt8 :=
  decimalText (t.fdiv 60) ++ ascii "m" ++ decimalText (t.fmod 60) ++
    ascii "s (" ++ decimalText t ++ ascii "s total)\n"

/-- The text of `/proc/meminfo`. -/
def meminfoText (total free : Int) (files bytes : Nat) : List UInt8 :=
  ascii "objects_total: " ++ decimalText total ++
    ascii "\nobjects_free:  " ++ decimalText free ++
    ascii "\nobjects_live:  " ++ decimalText (total - free) ++
    ascii "\nvfs_files:     " ++ decimalText files ++
    ascii "\nvfs_bytes:     " ++ decimalText bytes ++ [newline]

/-- `update_proc_files`. -/
def updateProcFiles : ShellCode Unit :=
  Raising.change fun globals =>
    let t := ruby.seconds globals.readings
    let (total, free) := ruby.objects globals.readings
    let vfs :=
      (globals.vfs.write procVersion (versionText ruby)).write
        procUptime (uptimeText t)
    let files := vfs.keys.length
    let bytes := (vfs.map fun entry => entry.2.length).sum
    { globals with
      vfs := vfs.write procMeminfo (meminfoText total free files bytes)
      readings := globals.readings + 1 }

/-- `$stdout.syswrite(VFS.read(path))` of a path that is stored. -/
def writeFile (path : Path) : ShellCode Unit :=
  Raising.change fun globals =>
    { globals with
      output := globals.output ++ (globals.vfs.read path).getD [] }

/-! ## The commands -/

/-- The keys of `$commands`. -/
inductive Command where
  | help
  | version
  | uptime
  | mem
  | clear
  | history
  | ls
  | cat
  | write
  | rm
  | mui
  | run
  deriving Repr, DecidableEq

namespace Command

/-- The name of a command. -/
def name : Command → Line
  | help => ['h', 'e', 'l', 'p'].map asciiByte
  | version => ['v', 'e', 'r', 's', 'i', 'o', 'n'].map asciiByte
  | uptime => ['u', 'p', 't', 'i', 'm', 'e'].map asciiByte
  | mem => ['m', 'e', 'm'].map asciiByte
  | clear => ['c', 'l', 'e', 'a', 'r'].map asciiByte
  | history => ['h', 'i', 's', 't', 'o', 'r', 'y'].map asciiByte
  | ls => ['l', 's'].map asciiByte
  | cat => ['c', 'a', 't'].map asciiByte
  | write => ['w', 'r', 'i', 't', 'e'].map asciiByte
  | rm => ['r', 'm'].map asciiByte
  | mui => ['m', 'u', 'i'].map asciiByte
  | run => ['r', 'u', 'n'].map asciiByte

/-- All of them. -/
def all : List Command :=
  [help, version, uptime, mem, clear, history, ls, cat, write, rm, mui, run]

/-- `$commands[cmd]`. -/
def ofName? (cmd : Line) : Option Command :=
  all.find? fun command => command.name = cmd

end Command

/-- The text of `help`. -/
def helpText : List UInt8 :=
  [ascii "Ruby on Bare Metal Shell Commands:",
    ascii "  help          - show this help",
    ascii "  ls [dir]      - list files",
    ascii "  cat <file>    - show file contents",
    ascii "  write <file>  - write to file (reads until '.' on a line)",
    ascii "  rm <file>     - delete file",
    ascii "  run <file>    - execute Ruby script",
    ascii "  mui [file]    - vim-like editor",
    ascii "  mem           - memory info",
    ascii "  uptime        - system uptime",
    ascii "  version       - version info",
    ascii "  history       - command history",
    ascii "  clear         - clear screen",
    ascii "  exit          - halt system",
    ascii "",
    ascii "Or type any Ruby expression to evaluate it."].flatMap putsText

/-- The lines that `history` and the fallback of `mui` number. -/
def numberedText (lines : List Line) : List UInt8 :=
  (lines.mapIdx fun i line =>
    putsText
      (ascii "  " ++ decimalText (i + 1) ++ ascii ": " ++ line)).flatten

/-- The text of `ls`. -/
def entriesText (entries : List Path) : List UInt8 :=
  if entries = [] then
    putsText (ascii "(empty)")
  else
    entries.flatMap fun e => putsText (ascii "  " ++ e)

/-- The text of `cat`: a file is shown with a newline at its end. -/
def fileText (data : List UInt8) : List UInt8 :=
  data ++ if data.getLast? = some newline then [] else [newline]

/-- `"#{name}: #{path}: not found"`. -/
def notFoundText (command : Command) (path : Path) : List UInt8 :=
  putsText (command.name ++ ascii ": " ++ path ++ ascii ": not found")

/-- `"usage: #{name} <path>"`. -/
def usageText (command : Command) : List UInt8 :=
  putsText (ascii "usage: " ++ command.name ++ ascii " <path>")

/-- `"#{done} #{path} (#{VFS.size(path)} bytes)"`. -/
def storedText (done : List UInt8) (path : Path) (size : List UInt8) :
    List UInt8 :=
  putsText (done ++ path ++ ascii " (" ++ size ++ ascii " bytes)")

/-- `VFS.list`. -/
def vfsList (dir : Path) : ShellCode (List Path) :=
  Raising.call fun globals =>
    match globals.vfs.list dir with
    | none => (.error (ruby.raised (.listing dir)), globals)
    | some entries => (.ok entries, globals)

/-- `$commands['ls']`. -/
def lsCommand (dir : Path) : ShellCode Unit := do
  let entries ← vfsList ruby dir
  syswrite (entriesText entries)

/-- `$commands['cat']` of a path. -/
def catCommand (path : Path) : ShellCode Unit := do
  let data ← Raising.look fun globals => globals.vfs.read path
  match data with
  | some data => syswrite (fileText data)
  | none => syswrite (notFoundText .cat path)

/-- What a text is asked for, stored under and answered with. -/
def storeText (path : Path) (done : List UInt8) (lines : List Line) :
    ShellCode Unit := do
  vfsWrite path (joinedLines lines)
  let size ← vfsSize path
  syswrite (storedText done path size)

/-- The loop that reads a text, with room for the whole input. -/
def readWholeText : ShellCode (List Line) := do
  let room ← Raising.look fun globals => globals.input.length + 1
  readText ruby room []

/-- `$commands['write']` of a path. -/
def writeCommand (path : Path) : ShellCode Unit := do
  puts (ascii "Enter text (type '.' on a line by itself to finish):")
  let lines ← readWholeText ruby
  storeText path (ascii "wrote ") lines

/-- `$commands['rm']` of a path. -/
def rmCommand (path : Path) : ShellCode Unit := do
  let stored ← Raising.look fun globals => globals.vfs.read path
  match stored with
  | some _ =>
      Raising.change fun globals =>
        { globals with vfs := globals.vfs.delete path }
      puts (ascii "removed " ++ path)
  | none => syswrite (notFoundText .rm path)

/-- `$commands['mui']` of a path, with the editor it falls back to. -/
def muiCommand (path : Path) : ShellCode Unit :=
  Raising.rescue (fun _ => true) (ruby.editor path) fun e => do
    puts
      (ascii "mui editor failed: " ++ e.className ++ ascii ": " ++
        e.message.getD (ascii "?"))
    puts (ascii "Falling back to line editor...")
    let existing ← Raising.look fun globals => globals.vfs.read path
    match existing with
    | some data =>
        puts (ascii "Current content of " ++ path ++ ascii ":")
        syswrite (numberedText (Ruby.split newline data))
    | none => pure ()
    puts (ascii "Enter new content (type '.' to finish):")
    let lines ← readWholeText ruby
    storeText path (ascii "saved ") lines

/-- `$commands['run']` of a path. -/
def runFileCommand (path : Path) : ShellCode Unit := do
  let data ← Raising.look fun globals => globals.vfs.read path
  match data with
  | some data => ruby.load data path
  | none => syswrite (notFoundText .run path)

/-- A command without an argument. -/
def callWithout : Command → ShellCode Unit
  | .help => syswrite helpText
  | .version => do
      puts (ascii "Ruby on Bare Metal v0.1")
      puts
        (ascii "Ruby " ++ ruby.version ++ ascii " [" ++ ruby.platform ++
          ascii "]")
  | .uptime => do
      updateProcFiles ruby
      writeFile procUptime
  | .mem => do
      updateProcFiles ruby
      writeFile procMeminfo
  | .clear => syswrite (ascii "\x1b[2J\x1b[H")
  | .history => do
      let lines ← Raising.look Globals.history
      syswrite (numberedText lines)
  | .ls => lsCommand ruby [slash]
  | .mui => ruby.emptyEditor
  | command => syswrite (usageText command)

/-- A command with an argument. -/
def callWith (command : Command) (arg : Line) : ShellCode Unit :=
  match command with
  | .ls => lsCommand ruby arg
  | .cat => catCommand arg
  | .write => writeCommand ruby arg
  | .rm => rmCommand arg
  | .mui => muiCommand ruby arg
  | .run => runFileCommand ruby arg
  | command =>
      Raising.call fun globals =>
        (.error (ruby.raised (.arguments command.name)), globals)

/-- `$commands[cmd].call(arg)` or `$commands[cmd].call`. -/
def callCommand (command : Command) : Option Line → ShellCode Unit
  | none => callWithout ruby command
  | some arg => callWith ruby command arg

/-! ## The loop -/

/-- `'ruby-on-bare-metal> '`. -/
def mainPrompt : Line :=
  ascii "ruby-on-bare-metal> "

/-- The evaluation of a line as an expression. -/
def evaluateLine (line : Line) : ShellCode Unit := do
  let result ← ruby.evaluate line
  syswrite (ascii "=> ")
  let text ← ruby.inspect result
  syswrite text
  syswrite [newline]

/-- What a line runs; every exception is displayed. -/
def performLine (line : Line) : ShellCode Unit :=
  let (cmd, arg) := Runtime.splitCommand line
  match Command.ofName? cmd with
  | some command =>
      Raising.rescue (fun _ => true) (callCommand ruby command arg)
        fun e => syswrite (raisedText e)
  | none =>
      Raising.rescue (fun _ => true) (evaluateLine ruby line) fun e =>
        if e.syntaxError then
          syswrite (ascii "SyntaxError\n")
        else
          syswrite (raisedText e)

/-- A pass of the loop goes on, ends the loop or is left by an exception. -/
inductive Turn where
  | goesOn (globals : Globals)
  | halts (globals : Globals)
  | escapes (e : Raised) (globals : Globals)
  deriving Repr, DecidableEq

/-- What comes of code behind which the loop goes on. -/
def turnAfter (trial : Trial Globals Raised Unit) : Turn :=
  match trial.outcome with
  | .ok _ => .goesOn trial.state
  | .error e => .escapes e trial.state

/-- A pass of the loop. -/
def turn (globals : Globals) : Turn :=
  match readLine mainPrompt globals.history globals.input with
  | .again reader => .goesOn (globals.readBy reader)
  | .raised .eofError reader => .halts (globals.readBy reader)
  | .raised failure reader =>
      .escapes (ruby.raised (.reading failure)) (globals.readBy reader)
  | .returned line reader =>
      let globals := globals.readBy reader
      if line = [] then
        .goesOn globals
      else
        let globals :=
          { globals with history := globals.history ++ [line] }
        if IsEndWord line then
          .halts globals
        else
          turnAfter ((performLine ruby line).run globals)

/-- A number of passes, unless the loop ends before. -/
def turns : Nat → Globals → Turn
  | 0, globals => .goesOn globals
  | more + 1, globals =>
      match turn ruby globals with
      | .goesOn globals => turns more globals
      | .halts globals => .halts globals
      | .escapes e globals => .escapes e globals

end Interpreted

end RubyOnBareMetal.Shell
