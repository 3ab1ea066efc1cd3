import WireRpc.Client
import WireRpc.Library.Lists

/-!
# Who owns the client's channel

Any number of tasks use one client. An exchange waits for the call lock and then
owns the transport until it has its reply or has failed. The events are the
stretches between two awaits: the transport answers or fails, a deadline passes
or the task is cancelled, at any of them.
-/
namespace WireRpc.ClientChannel
open Library Client

/-- `onNotification` tells whether a handler is set. -/
structure Config where
  codec : Codec
  onNotification : Bool

/-- `call`, `notify` and `batch` are `_locked_exchange` with what they send and
what they accept as the reply, if they wait for one. -/
inductive Exchange (α : Type) where
  | locked (data : Bytes) (accept : Option (Json → Except ClientError α))
  | receiveNotification

def Exchange.isReceive {α : Type} : Exchange α → Bool
  | receiveNotification => true
  | _ => false

/-- How an exchange ends: with a result, by a failure that closed the client, because
the client was closed already, or cancelled before it had the channel. -/
inductive Outcome where
  | returned
  | failed
  | refused
  | cancelled

/-- Where a task stands. It awaits the lock, `send`, `recv`, the notification
handler, or `close` after a failure. -/
inductive Phase where
  | absent
  | waiting
  | sending
  | receiving
  | delivering
  | aborting
  | over (outcome : Outcome)

namespace Phase

/-- The exchange uses the transport. -/
def active : Phase → Bool
  | sending | receiving | delivering => true
  | _ => false

/-- The exchange has the lock. -/
def holds : Phase → Bool
  | aborting => true
  | p => p.active

/-- The exchange had the channel and failed. -/
def failed : Phase → Bool
  | .aborting | .over .failed => true
  | _ => false

end Phase

/-- One call of the transport, or its return. -/
inductive Io where
  | send (data : Bytes)
  | sent
  | recv
  | received (data : Bytes)

/-- The last three fields are the history: what the tasks did with the transport, the
notifications they handed over, and the messages they took as replies. -/
structure State (α : Type) where
  closed : Bool
  lock : Option ℕ
  exchanges : ℕ → Option (Exchange α)
  phases : ℕ → Phase
  io : List (ℕ × Io)
  handed : List (ℕ × Notification)
  accepted : List (ℕ × Bytes)

def start {α : Type} : State α where
  closed := false
  lock := none
  exchanges := fun _ => none
  phases := fun _ => .absent
  io := []
  handed := []
  accepted := []

/-- `acquire` is the moment a waiting task gets the lock. `fail` is an exception at an
await of the exchange: the transport, the deadline or a cancellation. `aborted` is
the end of `_abort`, and `cancel` reaches a task that still waits. -/
inductive Event (α : Type) where
  | begin (k : ℕ) (exchange : Exchange α)
  | acquire (k : ℕ)
  | sent (k : ℕ)
  | received (k : ℕ) (data : Bytes)
  | delivered (k : ℕ)
  | fail (k : ℕ)
  | aborted (k : ℕ)
  | cancel (k : ℕ)
  | close

def Event.task {α : Type} : Event α → Option ℕ
  | begin k _ | acquire k | sent k | received k _ | delivered k | fail k | aborted k | cancel k =>
    some k
  | close => none

variable {α : Type}

/-- The notification that a message is, if it is a well-formed one. -/
def notice (c : Codec) (data : Bytes) : Option Notification :=
  match c.decode data with
  | some (.obj envelope) =>
    if isNotification envelope then (notification envelope).toOption else none
  | _ => none

/-- What `receive_notification` makes of a message. -/
def receiveNotification (c : Codec) (data : Bytes) : Except ClientError Notification :=
  match c.decode data with
  | none => .error (.connection "RPC channel broken or reply undecodable")
  | some (.obj envelope) =>
    if isNotification envelope then notification envelope
    else .error (.connection "Expected a server notification")
  | some _ => .error (.connection "Expected a server notification")

/-- The task uses the transport and goes to its next await. It keeps the lock until
it is over. -/
def advance (s : State α) (k : ℕ) (phase : Phase) (io : List Io) : State α :=
  { s with
    lock := if phase.holds then some k else none
    phases := Function.update s.phases k phase
    io := s.io ++ io.map (k, ·) }

/-- `_abort` marks the client closed before it awaits anything. -/
def abort (s : State α) (k : ℕ) (io : List Io) : State α :=
  { advance s k .aborting io with closed := true }

/-- A task that does not have the lock is over. -/
def withdraw (s : State α) (k : ℕ) (outcome : Outcome) : State α :=
  { s with phases := Function.update s.phases k (.over outcome) }

/-- The task that has the channel got a message from the transport. -/
def received (c : Config) (s : State α) (k : ℕ) (data : Bytes) : Exchange α → Option (State α)
  | .locked _ none => none
  | .locked _ (some accept) =>
    match readMessage c.codec accept data with
    | .delivers n =>
      if c.onNotification then
        some { advance s k .delivering [.received data] with handed := s.handed ++ [(k, n)] }
      else some (advance s k .receiving [.received data, .recv])
    | .returns (.ok _) =>
      some { advance s k (.over .returned) [.received data] with
        accepted := s.accepted ++ [(k, data)] }
    | .returns (.error _) => some (abort s k [.received data])
  | .receiveNotification =>
    match receiveNotification c.codec data with
    | .ok n =>
      some { advance s k (.over .returned) [.received data] with handed := s.handed ++ [(k, n)] }
    | .error _ => some (abort s k [.received data])

def step (c : Config) (s : State α) : Event α → Option (State α)
  | .begin k exchange =>
    match s.phases k with
    | .absent => some { s with
        exchanges := Function.update s.exchanges k (some exchange)
        phases := Function.update s.phases k .waiting }
    | _ => none
  | .acquire k =>
    match s.phases k, s.lock, s.exchanges k with
    | .waiting, none, some exchange =>
      if s.closed then some (withdraw s k .refused)
      else
        match exchange with
        | .locked data _ => some (advance s k .sending [.send data])
        | .receiveNotification => some (advance s k .receiving [.recv])
    | _, _, _ => none
  | .sent k =>
    match s.phases k, s.exchanges k with
    | .sending, some (.locked _ none) => some (advance s k (.over .returned) [.sent])
    | .sending, some (.locked _ (some _)) => some (advance s k .receiving [.sent, .recv])
    | _, _ => none
  | .received k data =>
    match s.phases k with
    | .receiving => (s.exchanges k).bind (received c s k data)
    | _ => none
  | .delivered k =>
    match s.phases k with
    | .delivering => some (advance s k .receiving [.recv])
    | _ => none
  | .fail k => if (s.phases k).active then some (abort s k []) else none
  | .aborted k =>
    match s.phases k with
    | .aborting => some (advance s k (.over .failed) [])
    | _ => none
  | .cancel k =>
    match s.phases k with
    | .waiting => some (withdraw s k .cancelled)
    | _ => none
  | .close => some { s with closed := true }

/-- What becomes of a message that an exchange reads: a well-formed notification goes
to the handler, if there is one, or is the result of `receive_notification`. -/
def handover (c : Config) (exchanges : ℕ → Option (Exchange α)) :
    ℕ × Io → Option (ℕ × Notification)
  | (k, .received data) =>
    if c.onNotification ∨ (exchanges k).any Exchange.isReceive then
      (notice c.codec data).map (k, ·)
    else none
  | _ => none

/-- Exchanges take turns with the transport, every notification is handed over once
and in order, and none is taken as a reply. -/
structure Owned (c : Config) (s : State α) : Prop where
  turns : Grouped (s.io.map Prod.fst)
  handed_over : s.handed = s.io.filterMap (handover c s.exchanges)
  not_reply : ∀ p ∈ s.accepted, notice c.codec p.2 = none

theorem notice_of_delivers {β : Type} {c : Codec} {accept : Json → Except ClientError β}
    {data : Bytes} {n : Notification} (h : readMessage c accept data = .delivers n) :
    notice c data = some n := by
  unfold readMessage at h
  unfold notice
  split at h
  · cases h
  · split_ifs at h with hn
    split at h
    · obtain rfl := Turn.delivers.inj h
      simp [*, Except.toOption]
    · cases h
  · cases h

theorem notice_of_returns {β : Type} {c : Codec} {accept : Json → Except ClientError β}
    {data : Bytes} {r : Except ClientError β} (h : readMessage c accept data = .returns r) :
    notice c data = none := by
  unfold notice
  split
  · rename_i envelope hdec
    simp only [readMessage, hdec] at h
    split_ifs at h ⊢
    · split at h
      · cases h
      · simp [*, Except.toOption]
    · rfl
  · rfl

theorem notice_eq_toOption (c : Codec) (data : Bytes) :
    notice c data = (receiveNotification c data).toOption := by
  unfold notice
  split
  · rename_i envelope hdec
    simp only [receiveNotification, hdec]
    split_ifs <;> rfl
  · rename_i hne
    unfold receiveNotification
    split
    · rfl
    · rename_i envelope hdec
      exact (hne envelope hdec).elim
    · rfl

end WireRpc.ClientChannel
