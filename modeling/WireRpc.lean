import WireRpc.Alignment
import WireRpc.ReplyRejection
import WireRpc.Budget
import WireRpc.BatchDeadline
import WireRpc.ReplyRoom
import WireRpc.Accounting
import WireRpc.HttpOwnership
import WireRpc.FrameAlignment
import WireRpc.ChannelOwnership
import WireRpc.FailureIsolation
import WireRpc.PayloadQueue
import WireRpc.SendFailure
import WireRpc.ConnectionLifecycle
import WireRpc.TableAgreement
import WireRpc.DispatchAuthorization
import WireRpc.SessionSafety
import WireRpc.BackendAgreement
import WireRpc.ThreadBound
import WireRpc.IssuedKeys
import WireRpc.TcpHandshakes
import WireRpc.ExpiryHeap
import WireRpc.ThreadClosure
import WireRpc.StdoutShutdown
import WireRpc.SharedSecret
import WireRpc.RoutedApps
import WireRpc.HttpAccounting
import WireRpc.WorkerSlots
import WireRpc.DependencyLifecycle
import WireRpc.CookieHistory
import WireRpc.ChildShutdown
import WireRpc.StdinFrames
import WireRpc.ListenDrain
import WireRpc.HttpExchange
import WireRpc.TcpClientClose
