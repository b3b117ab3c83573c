import UnixLite.ProcessForest
import UnixLite.Scheduling
import UnixLite.Isolation
import UnixLite.Reading
import UnixLite.Halting
import UnixLite.Buffers
import UnixLite.AddressSpaces
import UnixLite.Bracket
import UnixLite.FailedExecutes
import UnixLite.FailedReads
import UnixLite.Startup
import UnixLite.BootSteps
import UnixLite.BootOrder
import UnixLite.Screens
import UnixLite.Keystrokes
import UnixLite.Blinking
import UnixLite.RtcRate
import UnixLite.ImageBounds
import UnixLite.ParserBuffers
import UnixLite.Arguments
import UnixLite.Releases
import UnixLite.Echo
import UnixLite.Loader
import UnixLite.RtcRates
import UnixLite.Interrupts
import UnixLite.ScreenWrites
import UnixLite.Faults
import UnixLite.Vidmap
import UnixLite.Linkage
import UnixLite.Numbers
import UnixLite.Printf
import UnixLite.GrepLines
import UnixLite.FishTiming
import UnixLite.MemoryRoutines
import UnixLite.Cat
import UnixLite.Ls
import UnixLite.Shell
import UnixLite.GrepRuns
import UnixLite.Library.Nesting
import UnixLite.Library.Gates
import UnixLite.I8259
import UnixLite.Idt
import UnixLite.Nested
import UnixLite.HandlerOps
import UnixLite.Syserr
import UnixLite.Counter
import UnixLite.PingPong
import UnixLite.Stubs
