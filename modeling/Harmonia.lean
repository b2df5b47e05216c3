import Harmonia.Library.Machine
import Harmonia.Io.Wire
import Harmonia.Io.Read
import Harmonia.Nar.RadixTree
import Harmonia.Nar.Drive
import Harmonia.Nar.Framing
import Harmonia.Nar.Safety
import Harmonia.Nar.Grammar
import Harmonia.Nar.Lengths
import Harmonia.Nar.Reader
import Harmonia.Nar.Conformance
import Harmonia.Io.BytesReader
import Harmonia.Io.Gather
import Harmonia.Nar.PaddedReader
import Harmonia.Nar.Parser
import Harmonia.Nar.Transcript
import Harmonia.Nar.Session
import Harmonia.Nar.Story
import Harmonia.Nar.Hostile
import Harmonia.Nar.Consumer
import Harmonia.Nar.Agreement
import Harmonia.Io.Sink
import Harmonia.Nar.Truncated
import Harmonia.Nar.Writer
import Harmonia.Nar.Encoding
import Harmonia.Nar.RoundTrip
import Harmonia.Nar.Canonical
import Harmonia.Library.Runs
import Harmonia.Pool.State
import Harmonia.Pool.System
import Harmonia.Pool.Accounting
import Harmonia.Pool.Wakeups
import Harmonia.Pool.Refinement
import Harmonia.Pool.Hygiene
import Harmonia.Library.Text
import Harmonia.Library.Ordered
import Harmonia.Library.Digits
import Harmonia.Store.Encoding
import Harmonia.Store.Path
import Harmonia.Store.Base32
import Harmonia.Store.Hash
import Harmonia.Store.Derived
import Harmonia.Store.Derivation
import Harmonia.Protocol.Read
import Harmonia.Protocol.Wire
import Harmonia.Protocol.Values
import Harmonia.Protocol.Derivation
import Harmonia.Protocol.Request
import Harmonia.Protocol.Logging
import Harmonia.Protocol.RoundTrip
import Harmonia.Io.Prepare
import Harmonia.Protocol.Chunked
import Harmonia.Protocol.Limited
import Harmonia.Protocol.Hostile
import Harmonia.Protocol.Stderr
import Harmonia.Protocol.Framed
import Harmonia.Daemon.Store
import Harmonia.Daemon.Server
import Harmonia.Daemon.Lending
import Harmonia.Daemon.Client
import Harmonia.Daemon.Calls
import Harmonia.Daemon.Agreement
import Harmonia.Store.Json
import Harmonia.Store.Inputs
import Harmonia.Io.Write
import Harmonia.Io.Honest
import Harmonia.Io.Script
import Harmonia.Protocol.FramedWriter
import Harmonia.Fs.Path
import Harmonia.Fs.Tree
import Harmonia.Fs.Resolve
import Harmonia.Nar.Dumper
import Harmonia.Nar.Dumping
import Harmonia.Cache.NarList
import Harmonia.Cache.Serve
import Harmonia.Nar.Restorer
import Harmonia.Nar.CaseHack
import Harmonia.Nar.CaseRoundTrip
import Harmonia.Nar.ChannelWriter
import Harmonia.Nar.Sending
import Harmonia.Nar.ByteStream
import Harmonia.Nar.PaddedRead
import Harmonia.Nar.Schedule
import Harmonia.Io.Tee
import Harmonia.Io.Watched
import Harmonia.Library.Memory
import Harmonia.Io.BufferMut
import Harmonia.Protocol.NixWriter
import Harmonia.Protocol.Display
import Harmonia.Daemon.AddMultiple
import Harmonia.Protocol.Bookkeeping
import Harmonia.Protocol.Drive
import Harmonia.Daemon.Upload
import Harmonia.Protocol.ZeroWrites
import Harmonia.Nar.ZeroWrites
import Harmonia.Library.Sha2
import Harmonia.Store.Fingerprint
import Harmonia.Store.Sri
import Harmonia.Store.Placeholder
import Harmonia.Db.Schema
import Harmonia.Db.Query
import Harmonia.Db.Write
import Harmonia.Library.Lexicographic
import Harmonia.Daemon.Handler
import Harmonia.Daemon.Absence
import Harmonia.Daemon.HashPart
import Harmonia.Db.Sound
import Harmonia.Db.Store
import Harmonia.Db.Refinement
import Harmonia.Db.Runs
import Harmonia.Db.Answers
import Harmonia.Library.Document
import Harmonia.Store.Serde
import Harmonia.Store.DerivationJson
import Harmonia.Protocol.Json
import Harmonia.Cache.Narinfo
import Harmonia.Cache.Nar
import Harmonia.Nar.RadixInsert
import Harmonia.Protocol.Placed
import Harmonia.Daemon.Directory
import Harmonia.Io.Forcing
import Harmonia.Io.Lending
import Harmonia.Nar.Forcing
import Harmonia.Nar.Stacked
