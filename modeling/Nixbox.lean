import Nixbox.Lib.Runs
import Nixbox.Service.System
import Nixbox.Store.Invariant
import Nixbox.Server.Footprint
import Nixbox.Server.Launch
import Nixbox.Jobs.Steps
import Nixbox.Service.Frames
import Nixbox.Service.SecretsAgree
import Nixbox.Service.Refusals
import Nixbox.Service.Destroys
import Nixbox.Server.Saves
import Nixbox.Service.Histories
import Nixbox.Service.Applies
import Nixbox.Service.Consumed
import Nixbox.Service.Stamps
import Nixbox.Store.Mounts
import Nixbox.Service.SecretEdits
import Nixbox.Service.Badges
import Nixbox.Service.Spared
import Nixbox.Lib.Threads
import Nixbox.Server.Filing
import Nixbox.Service.Threads
import Nixbox.Service.Files
import Nixbox.Service.InTurn
import Nixbox.Auth.Serve
import Nixbox.Auth.Redirect
import Nixbox.Auth.Order
import Nixbox.Auth.Threads
import Nixbox.Auth.Sessions
import Nixbox.Auth.Attempts
import Nixbox.Store.JobRows
import Nixbox.Jobs.Slot
import Nixbox.Jobs.Exclusive
import Nixbox.Jobs.Calls
import Nixbox.Lib.Lines
import Nixbox.Server.Events
import Nixbox.Auth.Browser
import Nixbox.Lib.Crash
import Nixbox.Store.Migrations
import Nixbox.Service.Bindings
import Nixbox.Lib.Transaction
import Nixbox.Store.Transactions
import Nixbox.Store.Snapshots
import Nixbox.Server.Sealing
import Nixbox.Server.Pruning
import Nixbox.Service.Ciphertexts
import Nixbox.Service.Sweeps
import Nixbox.Lib.Deeds
import Nixbox.Server.Delivering
import Nixbox.Service.Mounted
import Nixbox.Nix.Reading
import Nixbox.Nix.PortRows
import Nixbox.Lib.Sorted
import Nixbox.Nix.Stable
import Nixbox.Lib.Marks
import Nixbox.Service.SecretSaves
import Nixbox.Auth.Limiter
import Nixbox.Jobs.Starts
import Nixbox.Server.Polls
import Nixbox.Lib.EventStream
import Nixbox.Server.EventSource
import Nixbox.Go.Split
import Nixbox.Machine.Units
import Nixbox.Machine.Usages
import Nixbox.Lib.Stamping
import Nixbox.Store.Badges
import Nixbox.Lib.UrlEncoded
import Nixbox.Service.Editing
import Nixbox.Lib.FileTree
import Nixbox.Nix.Modules
import Nixbox.Nix.Init
import Nixbox.Jobs.Power
import Nixbox.Go.Url
import Nixbox.Server.SetLang
import Nixbox.Lib.Fallback
import Nixbox.Web.Localizer
import Nixbox.Machine.CPU
import Nixbox.Go.Time
import Nixbox.Auth.Deadlines
import Nixbox.Lib.Pattern
import Nixbox.Nix.NamePatterns
import Nixbox.Nix.Validate
import Nixbox.Lib.Mirror
import Nixbox.Service.Plaintexts
import Nixbox.Lib.Routes
import Nixbox.Nix.Expr
import Nixbox.Nix.FlakeReading
import Nixbox.Nix.IndexReading
import Nixbox.Server.Routes
import Nixbox.Service.Readable
import Nixbox.Lib.Rely
import Nixbox.Service.Contained
import Nixbox.Jobs.Commands
import Nixbox.Server.Terminal
import Nixbox.Service.Commands
import Nixbox.Web.NewWorkload
import Nixbox.Web.Terminal
import Nixbox.Machine.Streams
