import CheriOsTest.NoteSearch
import CheriOsTest.SegmentBounds
import CheriOsTest.Reports
import CheriOsTest.ExecArgs
import CheriOsTest.RevokeRun
import CheriOsTest.GapSearch
import CheriOsTest.PipeProcesses
import CheriOsTest.HarnessPipes
import CheriOsTest.CountedRuns
import CheriOsTest.NoteCursor
import CheriOsTest.StdoutCheck
import CheriOsTest.Nesting
import CheriOsTest.XoNesting
import CheriOsTest.DescriptorTable
import CheriOsTest.Descriptors
import CheriOsTest.Garbage
import CheriOsTest.Quarantine
import CheriOsTest.ArgvBounds
import CheriOsTest.FloatingBounds
import CheriOsTest.UnrepresentableLength
import CheriOsTest.ChunkBounds
import CheriOsTest.FailureText
import CheriOsTest.ShmName
import CheriOsTest.SpawnChild
import CheriOsTest.MemcpyOracle
import CheriOsTest.AsyncFork
import CheriOsTest.Kbounce
import CheriOsTest.ShmCreate
import CheriOsTest.HugePages
import CheriOsTest.PtraceCapregs
import CheriOsTest.TlsHandshake
import CheriOsTest.CowIsolation
import CheriOsTest.CapTextChecks
import CheriOsTest.RevokeProcesses
import CheriOsTest.CopyTests
import CheriOsTest.LargePages
import CheriOsTest.LargestReservation
import CheriOsTest.InvalidPtrRuns
import CheriOsTest.LargePagesBasic
import CheriOsTest.RevocationCtl
import CheriOsTest.RevocationPolicy
