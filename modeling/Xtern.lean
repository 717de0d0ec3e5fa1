import Xtern.Basic
import Xtern.Time
import Xtern.Sched
import Xtern.Runtime
import Xtern.Wrappers
import Xtern.Thread
import Xtern.Calls
import Xtern.Discipline
import Xtern.System
import Xtern.Locks
import Xtern.Spawn
import Xtern.Log
import Xtern.Serializer
import Xtern.Wakeup
import Xtern.CondVar
import Xtern.LogDefs
import Xtern.EventMgr
import Xtern.Tables
import Xtern.Barrier
import Xtern.Lineup
import Xtern.Queues
import Xtern.Local
import Xtern.Fifo
import Xtern.Untimed
import Xtern.Determinism
import Xtern.Join
import Xtern.Regions
import Xtern.NonDetRelease
import Xtern.WaitRelease
