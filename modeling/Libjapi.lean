import Libjapi.Runs
import Libjapi.CreadlineLines
import Libjapi.Segmentation
import Libjapi.CreadlineLimit
import Libjapi.CreadlineReads
import Libjapi.Arrivals
import Libjapi.JsonC
import Libjapi.StartServer
import Libjapi.Serving
import Libjapi.Services
import Libjapi.Isolation
import Libjapi.Unsubscriptions
import Libjapi.Responses
import Libjapi.PushThreads
import Libjapi.PushLifecycle
import Libjapi.SendWalk
import Libjapi.WriteFraming
import Libjapi.RwN
import Libjapi.ClientCounter
import Libjapi.PushAnswers
import Libjapi.ReservedNames
import Libjapi.FdSets
import Libjapi.EchoedArgs
import Libjapi.Teardown
import Libjapi.UnlinkLoops
import Libjapi.ServiceList
import Libjapi.Ownership
import Libjapi.Process
import Libjapi.Rounds
import Libjapi.Wire
import Libjapi.CreadlineStatic
import Libjapi.Networking
import Libjapi.Getters
import Libjapi.ContextRuns
import Libjapi.Messages
import Libjapi.PushSerial
import Libjapi.JsonSession
import Libjapi.Delivery
