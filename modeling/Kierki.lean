import Kierki.Library.Execution
import Kierki.Library.Fallible
import Kierki.Library.Framing
import Kierki.Library.Lockstep
import Kierki.Library.Locks
import Kierki.Library.Patterns
import Kierki.Library.Progress
import Kierki.Library.Shares
import Kierki.Library.TrickGame
import Kierki.Library.UnorderedMap
import Kierki.Common.Types
import Kierki.Common.SendJob
import Kierki.Common.NetworkMsgParser
import Kierki.Common.Codec
import Kierki.Common.Scenario
import Kierki.Common.SendNoBlock
import Kierki.Server.GameRules
import Kierki.Server.IOWorkerMgr
import Kierki.Server.Server
import Kierki.Server.Mail
import Kierki.Server.Effect
import Kierki.Server.Seats
import Kierki.Server.Reference
import Kierki.Server.Cards
import Kierki.Server.Emitted
import Kierki.Server.Tricks
import Kierki.Server.Scores
import Kierki.Server.Wire
import Kierki.Server.Penalties
import Kierki.Server.Delivery
import Kierki.Server.Deals
import Kierki.Server.Histories
import Kierki.Server.Prompts
import Kierki.Server.Progress
import Kierki.Server.IOWorker
import Kierki.Server.Move
import Kierki.Server.System
import Kierki.Server.Frame
import Kierki.Server.Alike
import Kierki.Server.Seatless
import Kierki.Server.Ticks
import Kierki.Server.Deadline
import Kierki.Server.Intake
import Kierki.Server.Threads
import Kierki.Server.Exit
import Kierki.Server.Shutdown
import Kierki.Server.Pause
import Kierki.Server.Transmission
import Kierki.Server.Strangers
import Kierki.Server.Locking
import Kierki.Server.Hands
import Kierki.Server.Rulings
import Kierki.Server.Watched
import Kierki.Server.Cleaner
import Kierki.Server.Wakeup
import Kierki.Server.Faultless
import Kierki.Server.Requests
import Kierki.Server.Ownership
import Kierki.Server.Workload
import Kierki.Server.Ending
import Kierki.Client.Player
import Kierki.Client.Client
import Kierki.Client.Commands
import Kierki.Client.Dispatch
import Kierki.Client.Session
import Kierki.Client.Tally
import Kierki.Client.Consistency
import Kierki.Client.Console
import Kierki.Client.Automatic
import Kierki.Client.Replay
import Kierki.Client.Options
import Kierki.Client.EventLoop
import Kierki.Client.Party
import Kierki.Client.Channels
import Kierki.Client.Solo
