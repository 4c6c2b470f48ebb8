import KyokaMirror.Library.Transition
import KyokaMirror.Library.Copy
import KyokaMirror.Library.Ring
import KyokaMirror.Library.Linked
import KyokaMirror.Library.LastWriter
import KyokaMirror.Library.Pattern
import KyokaMirror.Library.Perform
import KyokaMirror.Library.Word
import KyokaMirror.Library.Calendar
import KyokaMirror.Library.Selection
import KyokaMirror.Library.Truncation
import KyokaMirror.Library.Loop
import KyokaMirror.Library.Tiling
import KyokaMirror.Library.Stream
import KyokaMirror.Library.Waiting
import KyokaMirror.Library.Wrap
import KyokaMirror.Users
import KyokaMirror.RtThread.Mailbox
import KyokaMirror.RtThread.Serial
import KyokaMirror.RtThread.MessageQueue
import KyokaMirror.RtThread.Heap
import KyokaMirror.RtThread.HeapBlocks
import KyokaMirror.RtThread.HeapInvariant
import KyokaMirror.RtThread.HeapOperations
import KyokaMirror.RtThread.HeapResize
import KyokaMirror.RtThread.HeapClients
import KyokaMirror.RtThread.Ipc
import KyokaMirror.RtThread.Event
import KyokaMirror.RtThread.Mutex
import KyokaMirror.RtThread.MutexPriority
import KyokaMirror.RtThread.MailboxWait
import KyokaMirror.RtThread.Timer
import KyokaMirror.RtThread.TimerPunctual
import KyokaMirror.RtThread.TimerFires
import KyokaMirror.RtThread.Ffs
import KyokaMirror.RtThread.Scheduler
import KyokaMirror.RtThread.SchedulerCalls
import KyokaMirror.RtThread.RoundRobin
import KyokaMirror.Esp32.Scan
import KyokaMirror.Esp32.Bounds
import KyokaMirror.Esp32.Delivery
import KyokaMirror.Esp32.Frame
import KyokaMirror.Esp32.Publish
import KyokaMirror.Esp32.Dispatch
import KyokaMirror.Esp32.Notification
import KyokaMirror.Esp32.Unread
import KyokaMirror.Esp32.Payload
import KyokaMirror.Esp32.Branches
import KyokaMirror.Esp32.Occurrences
import KyokaMirror.Esp32.Refinement
import KyokaMirror.Json.Tokens
import KyokaMirror.Json.Service
import KyokaMirror.Json.Lifetime
import KyokaMirror.Json.Script
import KyokaMirror.Json.Safety
import KyokaMirror.Json.Document
import KyokaMirror.Json.Members
import KyokaMirror.Json.RoundTrip
import KyokaMirror.Json.UserTable
import KyokaMirror.Json.ListReply
import KyokaMirror.Http.Download
import KyokaMirror.Http.Cells
import KyokaMirror.Http.Reference
import KyokaMirror.Http.Bounds
import KyokaMirror.Http.Split
import KyokaMirror.Http.WebClient
import KyokaMirror.Http.KnownLength
import KyokaMirror.Http.Chunked
import KyokaMirror.Http.CellLoop
import KyokaMirror.Ls1c.Pin
import KyokaMirror.Ls1c.Isolation
import KyokaMirror.Ls1c.Clock
import KyokaMirror.Ls1c.PixelClock
import KyokaMirror.Ls1c.Timer
import KyokaMirror.Ls1c.Pwm
import KyokaMirror.Ls1c.Public
import KyokaMirror.Ls1c.Spi
import KyokaMirror.Can.Config
import KyokaMirror.Can.Consistency
import KyokaMirror.Can.Interrupt
import KyokaMirror.Can.Message
import KyokaMirror.Can.Payload
import KyokaMirror.Can.Filter
import KyokaMirror.Can.Acceptance
import KyokaMirror.Can.DualFilter
import KyokaMirror.Can.SetFilter
import KyokaMirror.I2c.Master
import KyokaMirror.I2c.Answers
import KyokaMirror.I2c.Accesses
import KyokaMirror.I2c.Failures
import KyokaMirror.OpenMv.Scan
import KyokaMirror.Rtc.Time
import KyokaMirror.Rtc.Libc
import KyokaMirror.Rtc.Weekday
import KyokaMirror.Touch.Sample
import KyokaMirror.Touch.Scale
import KyokaMirror.Touch.Gesture
