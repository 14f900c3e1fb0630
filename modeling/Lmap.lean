import Lmap.Address
import Lmap.AddressCompare
import Lmap.AddressDetails
import Lmap.AddressRoundTrip
import Lmap.AddressText
import Lmap.ArgRun
import Lmap.ArgScan
import Lmap.Arp
import Lmap.Blocks
import Lmap.Bucket
import Lmap.ByteOrder
import Lmap.Capture
import Lmap.Captured
import Lmap.ChainBound
import Lmap.CommandLine
import Lmap.Complete
import Lmap.Decode
import Lmap.Decoder
import Lmap.DecoderSpec
import Lmap.DecoderTable
import Lmap.Encoded
import Lmap.FailedLock
import Lmap.FingerAlgebra
import Lmap.FingerFields
import Lmap.Fingerprint
import Lmap.FingerprintFile
import Lmap.FingerprintTable
import Lmap.Gateway
import Lmap.GetOpt
import Lmap.Hash
import Lmap.HexDump
import Lmap.Iface
import Lmap.Inet
import Lmap.InitOrder
import Lmap.Key
import Lmap.Kill
import Lmap.Library.AddressGrammar
import Lmap.Library.Agree
import Lmap.Library.Ahead
import Lmap.Library.BlockSwap
import Lmap.Library.CString
import Lmap.Library.FoldHash
import Lmap.Library.Format
import Lmap.Library.HashChain
import Lmap.Library.LinkedList
import Lmap.Library.Loop
import Lmap.Library.Memory
import Lmap.Library.Ownership
import Lmap.Library.PlainText
import Lmap.Library.Scan
import Lmap.Library.Settled
import Lmap.Library.SimpleQueue
import Lmap.Library.Tlv
import Lmap.Library.Transition
import Lmap.Life
import Lmap.Machine
import Lmap.ManufTable
import Lmap.Menu
import Lmap.MenuCounts
import Lmap.MissingString
import Lmap.MsgQueue
import Lmap.Nameserver
import Lmap.NetworkOrder
import Lmap.OptionArea
import Lmap.OptionFields
import Lmap.OptionReads
import Lmap.OptionTrace
import Lmap.OptionWalk
import Lmap.Outcome
import Lmap.Overlap
import Lmap.Parity
import Lmap.Reads
import Lmap.Records
import Lmap.RecursiveMutex
import Lmap.ReportLines
import Lmap.RoundTrip
import Lmap.SameBytes
import Lmap.ScreenLeft
import Lmap.Screens
import Lmap.Scroll
import Lmap.Shift
import Lmap.Shutdown
import Lmap.Stat
import Lmap.StatCount
import Lmap.StatList
import Lmap.StatMap
import Lmap.SynFinger
import Lmap.TcpOptions
import Lmap.Terminal
import Lmap.ThreadList
import Lmap.ThreadRegistry
import Lmap.Transcript
import Lmap.UiFlush
import Lmap.UiHook
import Lmap.UiMsg
import Lmap.WifiParity
import Lmap.Window
import Lmap.WindowRun
import Lmap.Wire
