import WireRpc.Execution
import WireRpc.Library.Machine

/-!
# The unicast app

`_listen` receives a message, runs `process` on it in a task of its own, sends the
response and goes on with the next message. The events are the stretches between
two awaits of the loop, for any handlers and any state of the app they run in.
-/
namespace WireRpc.App
open Library Execution

/-- Where `_listen` stands: awaiting `recv`, the task of a message, or the end of
`send` (of `finish_notification`, when there is no response). It ends with `break`, or
it has crashed with an exception. -/
inductive Loop where
  | receiving
  | processing (data : Bytes)
  | sending (response : Option Bytes)
  | ended
  | crashed
  deriving DecidableEq

/-- `closed`, that a call of the transport has failed, be it `recv` or the `send` of a response,
belongs to the history: the connection counts as closed from then on. -/
structure State where
  loop : Loop
  stopping : Bool
  closed : Bool

def start : State := ⟨.receiving, false, false⟩

/-- How `send` ends. `lost` is a `ConnectionError` or a `TimeoutError`. -/
inductive Sent where
  | done
  | lost
  | failed

/-- `processed` carries the handlers of the message and the state they find. `expire`
is the end of the shutdown deadline. -/
inductive Event (W : Type) where
  | receive (data : Bytes)
  | noticeStop
  | closeTransport
  | failTransport
  | stop
  | processed (dispatch : Dispatch W) (host : Execution.State W)
  | expire
  | sent (how : Sent)

/-- `response = task.result()`. -/
def settle (s : State) : Outcome (Option Bytes) → State
  | .value response => { s with loop := .sending response }
  | .raised _ => { s with loop := .crashed }
  | .cancelled => { s with loop := .crashed }

/-- After the response: the next message, unless the app is stopping. -/
def proceed (s : State) : Sent → State
  | .done => { s with loop := if s.stopping then .ended else .receiving }
  | .lost => { s with loop := .ended, closed := true }
  | .failed => { s with loop := .crashed, closed := true }

variable {W : Type}

def step (app : ExecutionHost W) (s : State) : Event W → Option State
  | .receive data => if s.loop = .receiving then some { s with loop := .processing data } else none
  | .noticeStop =>
    if s.stopping = true ∧ s.loop = .receiving then some { s with loop := .ended } else none
  | .closeTransport =>
    if s.loop = .receiving then some { s with loop := .ended, closed := true } else none
  -- an exception of `recv` that is not about the end of the connection
  | .failTransport =>
    if s.loop = .receiving then some { s with loop := .crashed, closed := true } else none
  | .stop => some { s with stopping := true }
  | .processed dispatch host =>
    match s.loop with
    | .processing data => some (settle s (process app dispatch none data host).2)
    | _ => none
  | .expire =>
    match s.loop, s.stopping with
    | .processing _, true => some { s with loop := .ended }
    | _, _ => none
  | .sent how =>
    match s.loop with
    | .sending _ => some (proceed s how)
    | _ => none

end WireRpc.App
