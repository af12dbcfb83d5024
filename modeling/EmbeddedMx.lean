import EmbeddedMx.Lib.Bytes
import EmbeddedMx.Lib.Ring
import EmbeddedMx.Lib.TSys
import EmbeddedMx.Lib.Linked
import EmbeddedMx.Lib.Ends
import EmbeddedMx.Lib.Cyclic
import EmbeddedMx.Lib.Digest
import EmbeddedMx.Lib.Crc
import EmbeddedMx.Lib.Trace
import EmbeddedMx.Cba.Model
import EmbeddedMx.Cba.Chain
import EmbeddedMx.Cba.Isolation
import EmbeddedMx.Cba.Objects
import EmbeddedMx.Cba.Fifo
import EmbeddedMx.Cba.Reclaim
import EmbeddedMx.Cba.Bounds
import EmbeddedMx.Cba.Walk
import EmbeddedMx.Cba.Realloc
import EmbeddedMx.Cba.Validation
import EmbeddedMx.Message.Model
import EmbeddedMx.Message.List
import EmbeddedMx.Message.Sequence
import EmbeddedMx.Lib.Priority
import EmbeddedMx.Message.Queue
import EmbeddedMx.Message.Store
import EmbeddedMx.RingBuffer
import EmbeddedMx.Lock
import EmbeddedMx.Timer
import EmbeddedMx.Dart.Frame
import EmbeddedMx.Dart.Model
import EmbeddedMx.Dart.Output
import EmbeddedMx.Dart.Engine
import EmbeddedMx.Dart.Refinement
import EmbeddedMx.Dart.Endpoint
import EmbeddedMx.Dart.Decoder
import EmbeddedMx.Dart.Stream
import EmbeddedMx.Dart.Fate
import EmbeddedMx.Dart.Requests
import EmbeddedMx.Dart.History
import EmbeddedMx.Dart.Trigger
import EmbeddedMx.Dart.Watch
import EmbeddedMx.Dart.Course
import EmbeddedMx.Dart.Supervision
import EmbeddedMx.Dart.Sending
import EmbeddedMx.Dart.Completion
import EmbeddedMx.Dart.Priority
import EmbeddedMx.Dart.Buffer
import EmbeddedMx.Dart.Reception
import EmbeddedMx.Dart.Whole
import EmbeddedMx.Dart.Callbacks
import EmbeddedMx.Dart.Damage
import EmbeddedMx.Dart.Checksum
import EmbeddedMx.Dart.Stall
import EmbeddedMx.Dart.Payload
import EmbeddedMx.Dart.Attempts
import EmbeddedMx.Link.Model
import EmbeddedMx.Link.Flight
import EmbeddedMx.Link.Delivery
import EmbeddedMx.Scheduler.Model
import EmbeddedMx.Scheduler.Machine
import EmbeddedMx.Scheduler.Steps
import EmbeddedMx.Scheduler.ProcessList
import EmbeddedMx.Scheduler.Liveness
import EmbeddedMx.Scheduler.Rounds
import EmbeddedMx.Scheduler.Announcement
import EmbeddedMx.Scheduler.Progress
import EmbeddedMx.Scheduler.Returns
import EmbeddedMx.Scheduler.Broadcast
import EmbeddedMx.Scheduler.Mail
import EmbeddedMx.Scheduler.Mailbox
import EmbeddedMx.Scheduler.Delivery
import EmbeddedMx.Scheduler.Current
import EmbeddedMx.Scheduler.Polls
import EmbeddedMx.Scheduler.Timers
import EmbeddedMx.Scheduler.Sizes
import EmbeddedMx.Scheduler.Pointers
import EmbeddedMx.Hsm.Model
import EmbeddedMx.Hsm.Dispatch
import EmbeddedMx.Hsm.Ticks
import EmbeddedMx.Hsm.Exact
import EmbeddedMx.Hsm.Init
import EmbeddedMx.Clock
import EmbeddedMx.Lib.Extremes
import EmbeddedMx.Lib.Numeral
import EmbeddedMx.Average
import EmbeddedMx.Strings
import EmbeddedMx.Strings.Value
import EmbeddedMx.Strings.Print
import EmbeddedMx.Lib.Comp
import EmbeddedMx.Protothread.Model
import EmbeddedMx.Protothread.Expansion
import EmbeddedMx.Scheduler.Firmware
import EmbeddedMx.Protothread.Process
import EmbeddedMx.Dart.Work
import EmbeddedMx.Link.Traffic
import EmbeddedMx.Dart.Drain
import EmbeddedMx.Dart.Queries
import EmbeddedMx.Lib.Flips
import EmbeddedMx.Dart.Flips
import EmbeddedMx.Scheduler.TimerRuns
import EmbeddedMx.Protothread.Semaphore
import EmbeddedMx.Cba.Layout
import EmbeddedMx.Dart.Past
