import Comproject.Lib.CString
import Comproject.Lib.Decimal
import Comproject.Lib.Runs
import Comproject.Lib.UpdateSum
import Comproject.Lib.Stacks
import Comproject.Lib.Framing
import Comproject.Lib.FramingIndependence
import Comproject.Lib.Rwlock
import Comproject.Lib.Mutex
import Comproject.Lib.Once
import Comproject.Lib.Ownership
import Comproject.Base.Singleton
import Comproject.Base.SingletonTheorems
import Comproject.Base.SingletonThreads
import Comproject.Base.SingletonThreadsTheorems
import Comproject.Base.Logging
import Comproject.Base.LoggingTheorems
import Comproject.Db.Reply
import Comproject.Db.ReplyTheorems
import Comproject.Db.ReplyKernelTheorems
import Comproject.Db.Command
import Comproject.Db.CommandTheorems
import Comproject.Db.MutexScopedLock
import Comproject.Db.MutexProgressTheorems
import Comproject.Db.RWMutexScopedLock
import Comproject.Db.RWMutexScopedLockTheorems
import Comproject.Db.Upgrade
import Comproject.Db.UpgradeTheorems
import Comproject.Db.ProgressTheorems
import Comproject.Db.StarvationTheorems
import Comproject.Db.ReopenTheorems
import Comproject.Db.CounterTheorems
import Comproject.Db.CounterOutcomes
import Comproject.Echo.ReadCb
import Comproject.Echo.ReadCbTheorems
import Comproject.Echo.EventServer
import Comproject.Echo.EventServerTheorems
import Comproject.Json.Value
import Comproject.Json.Record
import Comproject.Json.RecordTheorems
import Comproject.Json.DecodeTheorems
import Comproject.Json.RoundTripTheorems
import Comproject.Json.RelayTheorems
import Comproject.Server.MainRun
import Comproject.Server.MainRunTheorems
import Comproject.Server.RunTheorems
import Comproject.Server.Signals
import Comproject.Server.SignalsTheorems
