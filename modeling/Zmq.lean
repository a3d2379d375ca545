import Zmq.Inproc.Pending
import Zmq.Engine.IoError
import Zmq.Session.RoutingId
import Zmq.Session.Zap
import Zmq.Pattern.Upstream
import Zmq.Pattern.Interruption
import Zmq.Pattern.Request
import Zmq.Wire.WsInput
import Zmq.Wire.DataPhase
import Zmq.Engine.Heartbeat
import Zmq.Engine.WsMechanism
import Zmq.Storage.Release
import Zmq.Wire.Pieces
import Zmq.Session.Subscription
import Zmq.Session.Commands
import Zmq.Session.Groups
import Zmq.Z85
import Zmq.Mailbox
import Zmq.Threads
import Zmq.Pattern.Manual
import Zmq.Pattern.Fairness
import Zmq.Pattern.StreamT
import Zmq.Ownership
import Zmq.Connecter.Backoff
import Zmq.Engine.Base64
import Zmq.TcpAddressMask
