import RubyOnBareMetal.Boot.Handoff
import RubyOnBareMetal.Malloc.Store
import RubyOnBareMetal.Malloc.Limits
import RubyOnBareMetal.Mmap.Freshness
import RubyOnBareMetal.Mmap.Limits
import RubyOnBareMetal.Mmap.Identity
import RubyOnBareMetal.Clock
import RubyOnBareMetal.Pthread
import RubyOnBareMetal.Descriptors.PathViews
import RubyOnBareMetal.Descriptors.Positions
import RubyOnBareMetal.Descriptors.Selecting
import RubyOnBareMetal.UefiConsole.Indices
import RubyOnBareMetal.UefiConsole.KeyInput
import RubyOnBareMetal.UefiConsole.TypedCharacters
import RubyOnBareMetal.UefiConsole.Resync
import RubyOnBareMetal.UefiConsole.ExtendedColours
import RubyOnBareMetal.UefiConsole.LegalAttributes
import RubyOnBareMetal.UefiConsole.Overflow
import RubyOnBareMetal.TerminalAdapter.Decoding
import RubyOnBareMetal.TerminalAdapter.Truncation
import RubyOnBareMetal.TerminalAdapter.Pushback
import RubyOnBareMetal.TerminalAdapter.Display
import RubyOnBareMetal.TerminalAdapter.ScreenLaw
import RubyOnBareMetal.TerminalAdapter.Attributes
import RubyOnBareMetal.Shell.Screen
import RubyOnBareMetal.Shell.Characters
import RubyOnBareMetal.Shell.Sequences
import RubyOnBareMetal.Shell.Reloading
import RubyOnBareMetal.Shell.Lines
import RubyOnBareMetal.Shell.Listing
import RubyOnBareMetal.Shell.Glob
import RubyOnBareMetal.Shell.ExpandPath
import RubyOnBareMetal.Shell.Evaluation
import RubyOnBareMetal.Embedding
import RubyOnBareMetal.RayCaster
import RubyOnBareMetal.Syscall.NumberText
import RubyOnBareMetal.Syscall.Line
import RubyOnBareMetal.Shell.SessionRuns
import RubyOnBareMetal.Demo.Frames
import RubyOnBareMetal.Boot.LongMode
import RubyOnBareMetal.Demo.Program
