import DataDiode.Decimal
import DataDiode.Utf8
import DataDiode.UnixPath
import DataDiode.PathBelow
import DataDiode.Slices
import DataDiode.Machine
import DataDiode.FileTree
import DataDiode.Proto
import DataDiode.SafePath
import DataDiode.Packet
import DataDiode.Canonical
import DataDiode.Crypto
import DataDiode.World
import DataDiode.ReceiveState
import DataDiode.Batches
import DataDiode.Receiver
import DataDiode.Source
import DataDiode.Steady
import DataDiode.Sender
import DataDiode.InOrder
import DataDiode.Interpolation
import DataDiode.Reference
import DataDiode.Layout
import DataDiode.Effects
import DataDiode.Invariant
import DataDiode.Quiet
import DataDiode.UdpSender
import DataDiode.UdpForward
import DataDiode.Checked
import DataDiode.UdpTransfer
import DataDiode.UdpStrays
import DataDiode.UdpLosses
import DataDiode.Emission
import DataDiode.Chunks
import DataDiode.Transmission
import DataDiode.Restore
import DataDiode.Progress
import DataDiode.Collecting
import DataDiode.Tracking
import DataDiode.Delivery
import DataDiode.Reachable
import DataDiode.Truncation
import DataDiode.Stream
import DataDiode.Neighbours
import DataDiode.Buffers
import DataDiode.NoPanic
import DataDiode.ParityNumbers
import DataDiode.Records
import DataDiode.Outcome
import DataDiode.Repetition
import DataDiode.Recovery
import DataDiode.Recoverable
import DataDiode.Written
import DataDiode.Removal
import DataDiode.WalkFiles
import DataDiode.SendFiles
import DataDiode.Splitter
import DataDiode.SplitFiles
import DataDiode.PyString
import DataDiode.MergeFiles
import DataDiode.Manifest
import DataDiode.SplitMerge
import DataDiode.ConfigParser
import DataDiode.Scripts
import DataDiode.Packages
import DataDiode.Dependencies
import DataDiode.Pins
import DataDiode.Spaced
import DataDiode.Pacer
import DataDiode.Gregorian
import DataDiode.Logging
import DataDiode.Enumeration
import DataDiode.Selection
import DataDiode.Judging
import DataDiode.Verdicts
import DataDiode.Pipeline
import DataDiode.Separation
import DataDiode.Footprint
import DataDiode.Threads
import DataDiode.Mirror
import DataDiode.SourceTree
import DataDiode.Watching
import DataDiode.Diode
import DataDiode.WireRate
import DataDiode.Display
import DataDiode.Gathering
import DataDiode.Sessions
import DataDiode.Restart
import DataDiode.Passes
import DataDiode.Carrying
import DataDiode.Update
import DataDiode.Holdings
import DataDiode.Reruns
