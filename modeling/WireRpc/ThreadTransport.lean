import WireRpc.Codec
import WireRpc.Library.Machine

/-!
# Two threads of one process

`ThreadTransport`: the two ends of a pair, each used on the event loop of its own thread. The
threads run side by side, so code between two awaits is taken apart: one instruction of an
end makes at most one access to what the other end may change at the same time. Within one
end nothing else runs between two awaits.
-/
namespace WireRpc.ThreadTransport
open Library

/-- The limits that `pair()` gives to both ends. -/
structure Config where
  maxMessageSize : ℕ
  maxQueueSize : ℕ
  limit : 0 < maxQueueSize

inductive Side where
  | a
  | b
  deriving DecidableEq

def Side.peer : Side → Side
  | .a => .b
  | .b => .a

@[simp] theorem Side.peer_peer (x : Side) : x.peer.peer = x := by cases x <;> rfl

theorem Side.peer_ne (x : Side) : x.peer ≠ x := by cases x <;> nofun

theorem Side.eq_or_eq_peer (x y : Side) : y = x ∨ y = x.peer := by
  cases x <;> cases y <;> simp [Side.peer]

/-- `ConnectionError('Thread channel closed')`, `InvalidFrameSizeError`, `ConnectionError('Peer
did not connect in time')`, `ConnectionError('Peer inbox full')` and `CancelledError`. -/
inductive Failure where
  | closed
  | invalidFrameSize
  | notConnected
  | full
  | cancelled
  deriving DecidableEq

/-- A call of `send` waits only for the other end to connect. -/
inductive SendPhase where
  | idle
  | waiting
  | running
  | returned
  | raised (e : Failure)
  deriving DecidableEq

inductive RecvPhase where
  | idle
  | waiting
  | returned (data : Bytes)
  | raised (e : Failure)
  deriving DecidableEq

/-- Where the thread of an end stands inside `connect`, `send` or `close`. -/
inductive Segment where
  | connectLoop
  | connectReady
  | sendInbox (t : ℕ)
  | sendClosed (t : ℕ) (inbox : Bool)
  | sendLoop (t : ℕ) (inbox : Bool)
  | sendCopy (t : ℕ)
  | sendSize (t : ℕ) (data : Bytes)
  | sendPost (t : ℕ) (data : Bytes)
  | closeReady
  | closeInbox
  | closeLoop
  | closePeerInbox
  | closePost
  deriving DecidableEq

/-- An end. A `None` in its inbox wakes a `recv` that is to raise. `callbacks` are the calls
of `inbox.put_nowait` posted to its loop that have not run, `stopped` says that the loop was
closed. `buffers` are what callers hand to `send`. `posted`, `announced` and `popped` belong
to the history: what its sends handed to the other loop, whether its `close` did, and what
its `recv` calls took out of the inbox. -/
structure End where
  closed : Bool := false
  ready : Bool := false
  loop : Bool := false
  inbox : Option (List (Option Bytes)) := none
  callbacks : List (Option Bytes) := []
  stopped : Bool := false
  running : Option Segment := none
  sends : ℕ → SendPhase := fun _ => .idle
  buffers : ℕ → Bytes := fun _ => []
  recvs : ℕ → RecvPhase := fun _ => .idle
  posted : List (ℕ × Bytes) := []
  announced : Bool := false
  popped : List (ℕ × Option Bytes) := []

/-- What the thread of an end does next. `t` names a call. -/
inductive Action where
  | connect
  | send (t : ℕ) (data : Bytes)
  | change (t : ℕ) (data : Bytes)
  | resume (t : ℕ)
  | timeout (t : ℕ)
  | cancelSend (t : ℕ)
  | recv (t : ℕ)
  | wake (t : ℕ)
  | cancelRecv (t : ℕ)
  | close
  | callback
  | stop
  | next
  deriving DecidableEq

namespace End

def setSend (e : End) (t : ℕ) (phase : SendPhase) : End :=
  { e with sends := Function.update e.sends t phase }

def setRecv (e : End) (t : ℕ) (phase : RecvPhase) : End :=
  { e with recvs := Function.update e.recvs t phase }

def goto (e : End) (segment : Segment) : End := { e with running := some segment }

/-- The code runs into an await or ends. -/
def done (e : End) : End := { e with running := none }

def fail (e : End) (t : ℕ) (failure : Failure) : End := (e.setSend t (.raised failure)).done

end End

/-- What `recv` makes of an item. -/
def outcome : Option Bytes → RecvPhase
  | some data => .returned data
  | none => .raised .closed

/-- `Queue.get`, at a moment when it looks at the inbox. -/
def take (e : End) (t : ℕ) : End :=
  match e.inbox with
  | some (item :: rest) =>
    { e with inbox := some rest, popped := e.popped ++ [(t, item)] }.setRecv t (outcome item)
  | _ => e.setRecv t .waiting

variable (c : Config)

/-- What begins when the thread of an end is free. -/
def start (own peer : End) : Action → Option End
  | .connect =>
    if own.loop || own.closed then some own
    else some ({ own with inbox := some [] }.goto .connectLoop)
  | .send t data =>
    if own.sends t = .idle then
      let own := { own with buffers := Function.update own.buffers t data }
      if own.closed then some (own.fail t .closed)
      else if data.length = 0 ∨ data.length > c.maxMessageSize then
        some (own.fail t .invalidFrameSize)
      else if peer.ready then some ((own.setSend t .running).goto (.sendInbox t))
      else some (own.setSend t .waiting)
    else none
  | .change t data => some { own with buffers := Function.update own.buffers t data }
  | .resume t =>
    if own.sends t = .waiting ∧ peer.ready = true then
      some ((own.setSend t .running).goto (.sendInbox t))
    else none
  | .timeout t => if own.sends t = .waiting then some (own.fail t .notConnected) else none
  | .cancelSend t => if own.sends t = .waiting then some (own.fail t .cancelled) else none
  | .recv t =>
    if own.recvs t = .idle then
      if own.closed ∨ own.inbox = none then some (own.setRecv t (.raised .closed))
      else some (take own t)
    else none
  | .wake t => if own.recvs t = .waiting then some (take own t) else none
  | .cancelRecv t =>
    if own.recvs t = .waiting then some (own.setRecv t (.raised .cancelled)) else none
  | .close =>
    if own.closed then some own else some ({ own with closed := true }.goto .closeReady)
  | .callback =>
    match own.callbacks, own.inbox with
    | item :: rest, some inbox =>
      some { own with callbacks := rest, inbox := some (inbox ++ [item]) }
    | _, _ => none
  | .stop => some { own with stopped := true }
  | .next => none

/-- The next instruction, and what it posts to the loop of the other end. -/
def advance (own peer : End) : Segment → End × List (Option Bytes)
  | .connectLoop => ({ own with loop := true }.goto .connectReady, [])
  | .connectReady => ({ own with ready := true }.done, [])
  | .sendInbox t => (own.goto (.sendClosed t peer.inbox.isSome), [])
  | .sendClosed t inbox =>
    if own.closed || peer.closed then (own.fail t .closed, [])
    else (own.goto (.sendLoop t inbox), [])
  | .sendLoop t inbox =>
    if !peer.loop || !inbox then (own.fail t .closed, []) else (own.goto (.sendCopy t), [])
  | .sendCopy t => (own.goto (.sendSize t (own.buffers t)), [])
  | .sendSize t data =>
    if (peer.inbox.getD []).length ≥ c.maxQueueSize then (own.fail t .full, [])
    else (own.goto (.sendPost t data), [])
  | .sendPost t data =>
    if peer.stopped then (own.fail t .closed, [])
    else
      (({ own with posted := own.posted ++ [(t, data)] }.setSend t .returned).done, [some data])
  | .closeReady => ({ own with ready := true }.goto .closeInbox, [])
  | .closeInbox => ({ own with inbox := own.inbox.map (· ++ [none]) }.goto .closeLoop, [])
  | .closeLoop => if peer.loop then (own.goto .closePeerInbox, []) else (own.done, [])
  | .closePeerInbox => if peer.inbox.isSome then (own.goto .closePost, []) else (own.done, [])
  | .closePost =>
    if peer.stopped then (own.done, []) else ({ own with announced := true }.done, [none])

/-- A thread that is inside `connect`, `send` or `close` goes on there. Otherwise its loop
runs one of the things that are due. -/
def act (own peer : End) (action : Action) : Option (End × List (Option Bytes)) :=
  match own.running, action with
  | some segment, .next => some (advance c own peer segment)
  | some _, _ => none
  | none, action => if own.stopped then none else (start c own peer action).map fun e => (e, [])

abbrev State := Side → End

def pair : State := fun _ => {}

def put (s : State) (x : Side) (r : End × List (Option Bytes)) : State := fun y =>
  if y = x then r.1 else { s y with callbacks := (s y).callbacks ++ r.2 }

variable {s : State} {x : Side} {r : End × List (Option Bytes)}

@[simp] theorem put_self : put s x r x = r.1 := if_pos rfl

@[simp] theorem put_peer :
    put s x r x.peer = { s x.peer with callbacks := (s x.peer).callbacks ++ r.2 } :=
  if_neg x.peer_ne

def step (s : State) (e : Side × Action) : Option State :=
  (act c (s e.1) (s e.1.peer) e.2).map (put s e.1)

end WireRpc.ThreadTransport
