import Memleax.Framework.Chains
import Memleax.Framework.Runs
import Memleax.Framework.ByteMemory
import Memleax.Framework.Bisect
import Memleax.Framework.Rings
import Memleax.Framework.HashLists
import Memleax.Framework.Caches
import Memleax.Store.Callstack
import Memleax.Store.CallstackIdentity
import Memleax.Store.Memblock
import Memleax.Store.Steps
import Memleax.Store.Consistency
import Memleax.Store.HeapRefinement
import Memleax.Store.LeakedBytes
import Memleax.Store.Totals
import Memleax.Store.Expiry
import Memleax.Store.Ages
import Memleax.Store.Lifetimes
import Memleax.Store.StopLimits
import Memleax.Store.Report
import Memleax.Store.Messages
import Memleax.Store.LeakDetector
import Memleax.Store.Pointers
import Memleax.Store.PointerRefinement
import Memleax.Tracer.Machine
import Memleax.Tracer.Breakpoint
import Memleax.Symbols.Symtab
import Memleax.Symbols.DebugLine
import Memleax.Symbols.SymbolLookup
import Memleax.Symbols.LineLookup
import Memleax.Symbols.AddrMaps
import Memleax.Tracer.MapSections
import Memleax.Tracer.Loop
import Memleax.Tracer.ThreadSpaces
import Memleax.Tracer.System
import Memleax.Tracer.Standing
import Memleax.Tracer.TextInvariant
import Memleax.Tracer.Detach
import Memleax.Tracer.Calls
import Memleax.Tracer.Threads
import Memleax.Tracer.LostCalls
import Memleax.Tracer.Nesting
import Memleax.Tracer.Ledger
import Memleax.Tracer.FinalReport
import Memleax.Tracer.Attach
import Memleax.Tracer.ForeignTraps
import Memleax.Tracer.Signals
import Memleax.Tracer.Timer
import Memleax.Tracer.Held
import Memleax.Tracer.Answers
import Memleax.Tracer.Ending
import Memleax.Tracer.Children
import Memleax.Tracer.Forked
import Memleax.Tracer.Shared
import Memleax.Framework.Crc
import Memleax.Symbols.DebugFile
import Memleax.Framework.Scanf
import Memleax.Symbols.ProcMaps
import Memleax.Tracer.Layers
import Memleax.Tracer.HoldQueue
import Memleax.Tracer.BacktraceLimit
import Memleax.Framework.Iterators
import Memleax.Symbols.DebugTry
import Memleax.Framework.Programs
import Memleax.Tracer.Transparency
import Memleax.Symbols.SymbolNames
import Memleax.Framework.Memos
import Memleax.Tracer.UnwindCache
import Memleax.Framework.Getopt
import Memleax.Tracer.CommandLine
import Memleax.Symbols.Backtrace
import Memleax.Symbols.FreebsdMaps
import Memleax.Symbols.Libdwarf
import Memleax.Tracer.MonitoringTime
