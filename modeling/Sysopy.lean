import Sysopy.Chat.Agreement
import Sysopy.Chat.POSIX.Pairing
import Sysopy.Chat.SystemV.Exclusive
import Sysopy.Chat.SystemV.History
import Sysopy.Chat.SystemV.ListReply
import Sysopy.Chat.SystemV.Replies
import Sysopy.Find.Directory
import Sysopy.Find.Search
import Sysopy.GameServer.Datagrams
import Sysopy.GameServer.Departures
import Sysopy.GameServer.Framing
import Sysopy.GameServer.GameEnd
import Sysopy.GameServer.Play
import Sysopy.GameServer.Prompts
import Sysopy.GameServer.Refusals
import Sysopy.Kolokwium.CondVar
import Sysopy.Kolokwium.ForkWait
import Sysopy.Kolokwium.SemFile
import Sysopy.Merge.Table
import Sysopy.Negate.Columns
import Sysopy.Negate.Loading
import Sysopy.Negate.Program
import Sysopy.Pizzeria.Delivered
import Sysopy.Pizzeria.Oven
import Sysopy.Pizzeria.OvenPlace
import Sysopy.Pizzeria.Queue
import Sysopy.Rows.Bounds
import Sysopy.Shell.Children
import Sysopy.Shell.Names
import Sysopy.Shell.Session
import Sysopy.Signals.EndMark
import Sysopy.Signals.WakeUp
import Sysopy.TextLibrary.Broken
import Sysopy.TextLibrary.Builds
import Sysopy.TextLibrary.Filtered
import Sysopy.TextLibrary.Merged
import Sysopy.TextLibrary.Replaced
import Sysopy.Workshop.Atomic
import Sysopy.Workshop.Shutdown
