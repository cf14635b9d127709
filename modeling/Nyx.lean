import Nyx.Graph.GraphFile
import Nyx.Graph.Rebuild
import Nyx.Graph.Relink
import Nyx.Graph.Minimize
import Nyx.Graph.Splice
import Nyx.Graph.Interpreter
import Nyx.Graph.Payload
import Nyx.Graph.PayloadHeader
import Nyx.Fuzzer.Corpus
import Nyx.Fuzzer.SendPayload
import Nyx.Qemu.RedqueenHooks
import Nyx.Qemu.RedqueenTrace
import Nyx.Qemu.CowDisk
import Nyx.Qemu.CowDump
import Nyx.Qemu.Timeout
import Nyx.Qemu.FileStream
import Nyx.Qemu.UserFdl
import Nyx.Qemu.DirtyBitmap
import Nyx.Qemu.DeviceState
import Nyx.Qemu.SnapshotFile
import Nyx.Qemu.VirtualWrite
import Nyx.Kvm.Fdl
import Nyx.Kvm.Tracing
import Nyx.Pt.FetchWindow
import Nyx.Pt.TraceRefinement
import Nyx.Pt.TraceEnd
import Nyx.Pt.Overflow
import Nyx.Pt.IpCompression
import Nyx.Fuzzer.RedqueenDict
import Nyx.HypertrashOs.Libk
import Nyx.HypertrashOs.Mem
