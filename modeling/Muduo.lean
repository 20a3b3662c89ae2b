import Muduo.Verification.Buffer.Integers
import Muduo.Verification.Connection.Graceful
import Muduo.Verification.Connection.Pressure
import Muduo.Verification.Connector.Restraint
import Muduo.Verification.EventLoop.Wakeups
import Muduo.Verification.Fastcgi.Html
import Muduo.Verification.Fastcgi.Responses
import Muduo.Verification.Http.Advice
import Muduo.Verification.Http.Fragmentation
import Muduo.Verification.Http.Framing
import Muduo.Verification.Http.Independence
import Muduo.Verification.Http.Leaks
import Muduo.Verification.Http.Reentry
import Muduo.Verification.Inspect.Commands
import Muduo.Verification.Lifecycle.CloseOnce
import Muduo.Verification.Lifecycle.Teardown
import Muduo.Verification.Logging.Stamps
import Muduo.Verification.Logging.Stopping
import Muduo.Verification.Poller.Bijection
import Muduo.Verification.Poller.Interchange
import Muduo.Verification.Poller.Registration
import Muduo.Verification.Protobuf.RoundTrip
import Muduo.Verification.Rpc.Correlation
import Muduo.Verification.Server.Bookkeeping
import Muduo.Verification.Threads.BoundedQueue
import Muduo.Verification.Threads.Stopping
import Muduo.Verification.Time.Utc
import Muduo.Verification.Time.ZoneFile
import Muduo.Verification.Timers.Arming
import Muduo.Verification.Timers.Cancellation
import Muduo.Verification.Timers.Firing
import Muduo.Verification.Zlib.Composition
