import NetworkLibrary.Foundations.Transition
import NetworkLibrary.Foundations.Threads
import NetworkLibrary.Foundations.Memory
import NetworkLibrary.Foundations.Feedback
import NetworkLibrary.Foundations.Framing
import NetworkLibrary.Foundations.Links
import NetworkLibrary.Foundations.Flips
import NetworkLibrary.Foundations.Calls
import NetworkLibrary.Foundations.Reservations
import NetworkLibrary.Foundations.Simulation
import NetworkLibrary.Packet.Tampering
import NetworkLibrary.Packet.Serialize
import NetworkLibrary.Packet.Encoding
import NetworkLibrary.Session.Orphans
import NetworkLibrary.Session.Cancelled
import NetworkLibrary.Receive.Room
import NetworkLibrary.Send.WakeUp
import NetworkLibrary.Send.Capacity
import NetworkLibrary.Queue.Fifo
import NetworkLibrary.Queue.Sequential
import NetworkLibrary.Queue.Empty
import NetworkLibrary.Stack.Lifo
import NetworkLibrary.Stack.Empty
import NetworkLibrary.Config.Roundtrip
import NetworkLibrary.Client.Returned
import NetworkLibrary.Server.Stopped
import NetworkLibrary.Memory.Counters
import NetworkLibrary.Memory.FreeList
import NetworkLibrary.Packet.WideString
import NetworkLibrary.Statistics.Percentile
import NetworkLibrary.Config.Get
import NetworkLibrary.Config.Accepted
import NetworkLibrary.Config.Integer
import NetworkLibrary.Config.Load
import NetworkLibrary.Receive.Shift
import NetworkLibrary.ChatServer.Payloads
import NetworkLibrary.Foundations.Places
import NetworkLibrary.RefCnt.Pool
import NetworkLibrary.Echo.Verified
import NetworkLibrary.ChatDummyClient.Arrives
import NetworkLibrary.ChatServer.JobQueue
import NetworkLibrary.ChatServer.MessageBuf
import NetworkLibrary.Queue.Refinement
import NetworkLibrary.Queue.RefCnts
import NetworkLibrary.Stack.Refinement
import NetworkLibrary.ChatDummyClient.Worker
