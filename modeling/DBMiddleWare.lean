import DBMiddleWare.InFlight
import DBMiddleWare.PreLogin
import DBMiddleWare.ReadHandler
import DBMiddleWare.Writers
import DBMiddleWare.Authentication
import DBMiddleWare.NicknameIndex
import DBMiddleWare.LoginRace
import DBMiddleWare.Closing
import DBMiddleWare.Terminal
import DBMiddleWare.ShardScan
import DBMiddleWare.MySqlPool
import DBMiddleWare.InsertStatement
import DBMiddleWare.SingleReader
import DBMiddleWare.Acceptor
import DBMiddleWare.LockDiscipline
import DBMiddleWare.NicknameRelease
import DBMiddleWare.DrainBound
import DBMiddleWare.Answers
import DBMiddleWare.Inactivity
import DBMiddleWare.UnauthCleanup
import DBMiddleWare.Lifetime
import DBMiddleWare.Twins
import DBMiddleWare.ExpiredNicknames
import DBMiddleWare.Strangers
import DBMiddleWare.Reader
import DBMiddleWare.ReadStream
import DBMiddleWare.Speech
import DBMiddleWare.Outgoing
import DBMiddleWare.Conversation
import DBMiddleWare.Library.Progress
import DBMiddleWare.Settling
import DBMiddleWare.Serving
import DBMiddleWare.Admission
import DBMiddleWare.Reclaim
import DBMiddleWare.Overflow
import DBMiddleWare.PoolDemand
import DBMiddleWare.Library.Conflicts
import DBMiddleWare.Independence
import DBMiddleWare.NicknameHistory
import DBMiddleWare.SessionCount
