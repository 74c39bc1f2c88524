import CfsMmFuzzer.Base.CString
import CfsMmFuzzer.Base.ByteOrder
import CfsMmFuzzer.Base.Crc
import CfsMmFuzzer.Base.WrapRange
import CfsMmFuzzer.Base.LexPath
import CfsMmFuzzer.Harness.MmLoad
import CfsMmFuzzer.Memory.RegionMap
import CfsMmFuzzer.Integrity.Crc32
import CfsMmFuzzer.FileName.Containment
import CfsMmFuzzer.Load.Command
import CfsMmFuzzer.Load.Decoder
import CfsMmFuzzer.Harness.Seeds
import CfsMmFuzzer.Load.Encoder
import CfsMmFuzzer.Load.Validation
import CfsMmFuzzer.Load.Iteration
import CfsMmFuzzer.Load.Names
import CfsMmFuzzer.FileName.Composition
import CfsMmFuzzer.Load.Diagnosis
import CfsMmFuzzer.Load.Truncation
import CfsMmFuzzer.Integrity.Detection
import CfsMmFuzzer.Base.IntervalFamily
import CfsMmFuzzer.Memory.Adjacency
import CfsMmFuzzer.Base.LastWrite
import CfsMmFuzzer.Header.Setters
import CfsMmFuzzer.Base.OneHandle
import CfsMmFuzzer.Base.Run
import CfsMmFuzzer.Common.Log
import CfsMmFuzzer.Logging.Handle
import CfsMmFuzzer.Base.Hex
import CfsMmFuzzer.Common.HexDump
import CfsMmFuzzer.Dump.Lossless
import CfsMmFuzzer.Base.RoundUp
import CfsMmFuzzer.Memory.Alignment
import CfsMmFuzzer.Base.Options
import CfsMmFuzzer.Base.Shell
import CfsMmFuzzer.Scripts.RunFuzzing
import CfsMmFuzzer.Scripts.Sessions
import CfsMmFuzzer.Scripts.BuildAll
import CfsMmFuzzer.Scripts.Builds
import CfsMmFuzzer.Scripts.Pipeline
import CfsMmFuzzer.Base.Heap
import CfsMmFuzzer.Harness.InMemory
import CfsMmFuzzer.Load.Process
import CfsMmFuzzer.Base.Words
import CfsMmFuzzer.Integrity.Distribution
import CfsMmFuzzer.Load.Portability
import CfsMmFuzzer.Load.Distribution
import CfsMmFuzzer.Base.Print
import CfsMmFuzzer.Harness.Debug
import CfsMmFuzzer.Load.Transcript
