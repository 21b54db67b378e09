import BinderDownload.Lib.Text
import BinderDownload.Lib.Feed
import BinderDownload.Lib.Overlay
import BinderDownload.Lib.Run
import BinderDownload.Lib.Calls
import BinderDownload.Lib.Cut
import BinderDownload.Lib.Int64
import BinderDownload.Http.Url
import BinderDownload.Http.Message
import BinderDownload.Http.Reader
import BinderDownload.Http.Source
import BinderDownload.Http.Pump
import BinderDownload.Http.Chunked
import BinderDownload.Http.Exchange
import BinderDownload.Http.Arithmetic
import BinderDownload.Http.Reply
import BinderDownload.Http.Get
import BinderDownload.Http.Segmentation
import BinderDownload.Http.Render
import BinderDownload.Http.RoundTrip
import BinderDownload.Http.Truncation
import BinderDownload.Http.Peer
import BinderDownload.Http.Sections
import BinderDownload.Http.Collect
import BinderDownload.Http.Stall
import BinderDownload.Files.Path
import BinderDownload.Files.Fs
import BinderDownload.Files.Calls
import BinderDownload.Files.Frame
import BinderDownload.Files.Ancestor
import BinderDownload.Service.HttpService
import BinderDownload.Service.Writes
import BinderDownload.Service.Fetch
import BinderDownload.Service.Requests
import BinderDownload.Service.DownloadService
import BinderDownload.Service.Attempt
import BinderDownload.Service.Parents
import BinderDownload.Service.Resume
import BinderDownload.Service.Finish
import BinderDownload.Service.Size
import BinderDownload.Service.Mixing
import BinderDownload.Service.Cancel
import BinderDownload.Service.Handshake
import BinderDownload.Service.Cancellation
import BinderDownload.Service.NoLostCancel
import BinderDownload.Service.Await
import BinderDownload.Service.Wakeup
import BinderDownload.Service.Workers
import BinderDownload.Service.Solo
import BinderDownload.Service.WorkerSteps
import BinderDownload.Service.Interference
import BinderDownload.Service.Messages
import BinderDownload.Service.Acts
import BinderDownload.Service.Protocol
import BinderDownload.Http.Announced
import BinderDownload.Http.ChunkGrammar
import BinderDownload.Http.Length
import BinderDownload.Http.RequestGrammar
import BinderDownload.Http.ContentRange
import BinderDownload.Http.UrlParts
import BinderDownload.Http.UrlGrammar
import BinderDownload.Http.Redirect
import BinderDownload.Http.Interim
import BinderDownload.Http.Coding
import BinderDownload.Http.Journal
import BinderDownload.Http.Replay
import BinderDownload.Http.Canceled
import BinderDownload.Http.Accounting
import BinderDownload.Service.FinalCounters
import BinderDownload.Client.Bar
import BinderDownload.Client.FileName
import BinderDownload.Service.Percent
import BinderDownload.Service.Arithmetic
import BinderDownload.Service.Destination
import BinderDownload.Service.Litter
import BinderDownload.Service.Reported
import BinderDownload.Service.ForeignCancel
import BinderDownload.Service.Hole
import BinderDownload.Service.Terminal
import BinderDownload.Vintf.Apex
import BinderDownload.Vintf.Declared
import BinderDownload.Manager.Processes
import BinderDownload.Manager.Rules
import BinderDownload.Manager.Bookkeeping
import BinderDownload.Manager.Ownership
import BinderDownload.Manager.Interrupt
import BinderDownload.Lib.Past
import BinderDownload.Registry.Access
import BinderDownload.Registry.ServiceManager
import BinderDownload.Registry.Slot
import BinderDownload.Registry.Serve
import BinderDownload.Registry.Refine
import BinderDownload.Registry.Effect
import BinderDownload.Registry.Runs
import BinderDownload.Registry.Entries
import BinderDownload.Registry.Watchers
import BinderDownload.Registry.Clients
import BinderDownload.Registry.Ends
import BinderDownload.Registry.Obituary
import BinderDownload.Lib.Packed
import BinderDownload.Wire.Unicode
import BinderDownload.Wire.Utf8
import BinderDownload.Wire.Parcel
import BinderDownload.Wire.Writes
import BinderDownload.Wire.Reads
import BinderDownload.Wire.Guard
import BinderDownload.Wire.Buffer
import BinderDownload.Wire.Data
import BinderDownload.Wire.Format
import BinderDownload.Wire.RoundTrip
import BinderDownload.Wire.Untrusted
import BinderDownload.Wire.Status
import BinderDownload.Registry.Remote
