import UServer.Net.EventLoop
import UServer.Net.SocketAddressOrder
import UServer.Net.SockAddrStorage
import UServer.Net.TextRoundTrip
import UServer.Net.HostText
import UServer.Net.ArmedEvents
import UServer.Net.ConnectProgress
import UServer.Net.OpenRegistered
import UServer.Net.ShortSends
import UServer.Net.DeadSockets
import UServer.Net.CloseInHandler
import UServer.Http.ResponseWrites
import UServer.Http.SelfDeadlock
import UServer.Http.OrphanedConnections
import UServer.Http.ClientCount
import UServer.Http.ReadBuffer
import UServer.Http.ResponseAssembly
import UServer.Concurrency.QuitWakeUp
import UServer.Concurrency.PostedTasks
import UServer.Concurrency.QuitDrains
import UServer.Concurrency.ThreadLifecycle
import UServer.Concurrency.CurrentQueue
import UServer.Concurrency.ProcessContract
import UServer.Concurrency.WaitTimeout
import UServer.Concurrency.TimedWait
import UServer.Concurrency.WaitGroup
import UServer.Concurrency.EventWaits
import UServer.Concurrency.SharedSignaler
import UServer.Memory.AccountingExact
import UServer.Memory.ElementLifetimes
import UServer.Net.AddressGrammar
import UServer.Net.SockAddrIn
import UServer.Net.NarrowedLengths
import UServer.Net.ReportedPeers
import UServer.Net.SocketOptions
import UServer.Net.SelectSnapshots
import UServer.Net.CreateForgets
import UServer.Net.IPAddressOrder
import UServer.Concurrency.EventAccounts
import UServer.Base.Finally
import UServer.Sigslot.DestroyedObjects
import UServer.Net.RemoveBarrier
import UServer.Net.BatchCompletion
import UServer.Net.SelectRounds
import UServer.Concurrency.Quiescence
import UServer.Concurrency.EventRest
import UServer.Concurrency.EventServer
import UServer.Net.MappedAddresses
import UServer.Http.AlwaysListening
import UServer.Http.KeptSockets
import UServer.Http.AnswerParts
import UServer.Http.RequestsAnswered
import UServer.Http.SlotConnections
