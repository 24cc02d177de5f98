import AcMuduo.QueueBeforeLoop
import AcMuduo.LoopThreadEnd
import AcMuduo.TimerArming
import AcMuduo.TimerExpiry
import AcMuduo.TimerAddRace
import AcMuduo.IdleChannels
import AcMuduo.AsyncStop
import AcMuduo.LogRecord
import AcMuduo.ThreadPoolHistory
import AcMuduo.DateT
import AcMuduo.ZoneUsable
import AcMuduo.UtcTime
import AcMuduo.RepeatedHour
import AcMuduo.LogTime
import AcMuduo.LogStreamMemory
import AcMuduo.BoundedBlockingQueue
import AcMuduo.LogFileRolls
import AcMuduo.LogFileChecks
import AcMuduo.AppendFile
import AcMuduo.ProcName
import AcMuduo.ThreadLifetime
import AcMuduo.IntegerText
import AcMuduo.SocketsOps
import AcMuduo.ReactorDispatch
import AcMuduo.ReactorUse
import AcMuduo.LogPipelineHistory
import AcMuduo.LogFileNames
import AcMuduo.TimerIntervals
import AcMuduo.BlockingQueue
import AcMuduo.CountDownLatch
import AcMuduo.FormatSizeReading
import AcMuduo.EventLoopTheadPool
import AcMuduo.IsoDate
import AcMuduo.EpollEvents
import AcMuduo.StringPiece
import AcMuduo.ThreadNames
import AcMuduo.QuitRequest
