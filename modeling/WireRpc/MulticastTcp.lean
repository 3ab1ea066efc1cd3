import WireRpc.Codec
import WireRpc.Library.Machine
import WireRpc.SingleClient

/-!
# Many clients over TCP

The handling tasks of `TcpMulticastServerTransport`, the calls of `send` (a broadcast is
one for each client) and of `close`. An event is a stretch between two awaits. Clients have
the number of their handling task, and the receive queue is without its bounds, which only
delay a reader.
-/
namespace WireRpc.MulticastTcp
open Library

structure Config where
  maxConnections : ℕ
  maxFrameSize : ℕ
  authenticates : Bool
  keepAlive : Bool

/-- Where `_handle_client` stands: in `_close_writer` of a connection it does not admit, in
`verify`, in `_read_frame`, in `put`, in the `connection.close()` of its cleanup, or over. -/
inductive Handler where
  | absent
  | refusing
  | verifying
  | reading
  | queueing (payload : Bytes)
  | leaving
  | ended
  deriving DecidableEq

def Handler.isRegistered : Handler → Bool
  | reading | queueing _ => true
  | _ => false

/-- The task is inside `_connection_limiter.slot()`. -/
def Handler.holdsSlot : Handler → Bool
  | verifying | reading | queueing _ | leaving => true
  | _ => false

def Handler.isRunning : Handler → Bool
  | absent | ended => false
  | _ => true

/-- Where a `send` stands: waiting for the write lock, in `drain`, closing the connection
that failed, or over. -/
inductive Sender where
  | absent
  | waiting (client : ℕ)
  | draining (client : ℕ)
  | expelling
  | over
  deriving DecidableEq

/-- Where a `close` stands. `closingConnections` holds the connections it has taken from
the table and whose `connection.close()` has not begun. -/
inductive Closer where
  | absent
  | draining (tracked : Finset ℕ)
  | gathering (tracked : Finset ℕ)
  | closingConnections (pending : Finset ℕ)
  | awaitingServer
  | returned
  deriving DecidableEq

/-- `active` is the counter of the limiter. `registered`, the clients that ever entered the
table, belongs to the history. -/
structure State where
  closing : Bool
  active : ℤ
  clients : Finset ℕ
  principals : ℕ → Option String
  queue : List (ℕ × Bytes)
  connectionTasks : Finset ℕ
  handlers : ℕ → Handler
  writerClosed : ℕ → Bool
  inflight : Finset ℕ
  senders : ℕ → Sender
  closers : ℕ → Closer
  registered : Finset ℕ

def start : State where
  closing := false
  active := 0
  clients := ∅
  principals := fun _ => none
  queue := []
  connectionTasks := ∅
  handlers := fun _ => .absent
  writerClosed := fun _ => false
  inflight := ∅
  senders := fun _ => .absent
  closers := fun _ => .absent
  registered := ∅

/-- `refused` is a socket that takes no keep-alive options. `failed` is a read or a `put`
that raises, by whatever cause, and `expel` the close of a connection whose credentials
were revoked. -/
inductive Event where
  | accept (t : ℕ) (refused : Bool)
  | verified (t : ℕ) (verdict : Verdict)
  | frame (t : ℕ) (payload : Bytes)
  | queued (t : ℕ)
  | failed (t : ℕ)
  | finished (t : ℕ)
  | recv
  | send (j client : ℕ) (data : Bytes) (idle : Bool)
  | write (j : ℕ)
  | sent (j : ℕ)
  | failSend (j : ℕ)
  | expelled (j : ℕ)
  | expel (t : ℕ)
  | beginClose (k : ℕ)
  | drained (k : ℕ)
  | gathered (k : ℕ)
  | closeConnection (k t : ℕ)
  | connectionsClosed (k : ℕ)
  | returned (k : ℕ)

section
variable (c : Config) (s : State) (t : ℕ)

def setHandler (phase : Handler) : State :=
  { s with handlers := Function.update s.handlers t phase }

def setSender (j : ℕ) (phase : Sender) : State :=
  { s with senders := Function.update s.senders j phase }

def setCloser (k : ℕ) (phase : Closer) : State :=
  { s with closers := Function.update s.closers k phase }

/-- `writer.close()` comes before the first await of every way of closing. -/
def closeWriter : State :=
  { s with writerClosed := Function.update s.writerClosed t true }

/-- `_clients.pop` and `_recv_queue.drop_peer`. -/
def unregister : State :=
  { s with clients := s.clients.erase t, queue := s.queue.filter (·.1 ≠ t) }

/-- The `finally` block of `_serve_client`: while the transport closes, a registered
connection is left to `close`. -/
def leave (registered : Bool) : State :=
  if s.closing && registered then
    { setHandler s t .ended with
      active := s.active - 1
      connectionTasks := s.connectionTasks.erase t }
  else
    let s := if registered then unregister s t else s
    setHandler (closeWriter s t) t .leaving

theorem leave_unregistered : leave s t false = setHandler (closeWriter s t) t .leaving := by
  unfold leave
  rw [if_neg (by simp)]
  rfl

theorem leave_open (hopen : s.closing = false) :
    leave s t true = setHandler (closeWriter (unregister s t) t) t .leaving := by
  unfold leave
  rw [if_neg (by simp [hopen])]
  rfl

theorem leave_closing (hclosing : s.closing = true) :
    leave s t true = { setHandler s t .ended with
      active := s.active - 1
      connectionTasks := s.connectionTasks.erase t } := by
  unfold leave
  rw [if_pos (by simp [hclosing])]

def register (principal : Option String) : State :=
  { setHandler s t .reading with
    clients := insert t s.clients
    principals := Function.update s.principals t principal
    registered := insert t s.registered }

def track : State := { s with connectionTasks := insert t s.connectionTasks }

/-- `_handle_client` up to its first await. -/
def accept (refused : Bool) : State :=
  if s.closing then setHandler (closeWriter (track s t) t) t .refusing
  else if s.active ≥ c.maxConnections then setHandler (closeWriter (track s t) t) t .refusing
  else
    let s := { track s t with active := s.active + 1 }
    if c.keepAlive && refused then leave s t false
    else if c.authenticates then setHandler s t .verifying
    else register s t none

def verified : Verdict → State
  | .principal name => if s.closing then leave s t false else register s t (some name)
  | _ => leave s t false

/-- A payload was read. -/
def frame (payload : Bytes) : State :=
  if s.closing then leave s t true else setHandler s t (.queueing payload)

/-- The cleanup of a task is over; the slot is released if it had one. -/
def finished : State :=
  { setHandler s t .ended with
    active := if (s.handlers t).holdsSlot then s.active - 1 else s.active
    connectionTasks := s.connectionTasks.erase t }

/-- `send` up to the write lock. An idle connection is closed, and its queued frames stay. -/
def send (j client : ℕ) (data : Bytes) (idle : Bool) : State :=
  if s.closing || client ∉ s.clients || data.length == 0 || data.length > c.maxFrameSize then
    setSender s j .over
  else if idle then
    { setSender (closeWriter s client) j .expelling with
      clients := s.clients.erase client
      inflight := insert j s.inflight }
  else { setSender s j (.waiting client) with inflight := insert j s.inflight }

/-- A failing `send` takes its client from the table and closes the connection. -/
def failSend (j client : ℕ) : State :=
  setSender (closeWriter (if client ∈ s.clients then unregister s client else s) client) j
    .expelling

/-- The write lock is granted. -/
def write (j client : ℕ) : State :=
  if s.writerClosed client then failSend s j client else setSender s j (.draining client)

def endSend (j : ℕ) : State := { setSender s j .over with inflight := s.inflight.erase j }

def beginClose (k : ℕ) : State :=
  { setCloser s k (.draining s.inflight) with closing := true, queue := [] }

/-- The readers have ended: `close` takes the connections that are left. -/
def gathered (k : ℕ) : State :=
  if s.clients = ∅ then setCloser s k .awaitingServer
  else { setCloser s k (.closingConnections s.clients) with clients := ∅ }

def step : Event → Option State
  | .accept t refused => if s.handlers t = .absent then some (accept c s t refused) else none
  | .verified t verdict => if s.handlers t = .verifying then some (verified s t verdict) else none
  | .frame t payload => if s.handlers t = .reading then some (frame s t payload) else none
  | .queued t =>
    match s.handlers t with
    | .queueing payload =>
      if s.closing then none
      else some { setHandler s t .reading with queue := s.queue ++ [(t, payload)] }
    | _ => none
  | .failed t => if (s.handlers t).isRegistered then some (leave s t true) else none
  | .finished t =>
    if s.handlers t = .refusing ∨ s.handlers t = .leaving then some (finished s t) else none
  | .recv => if s.queue = [] then none else some { s with queue := s.queue.tail }
  | .send j client data idle =>
    if s.senders j = .absent then some (send c s j client data idle) else none
  | .write j =>
    match s.senders j with
    | .waiting client => some (write s j client)
    | _ => none
  | .sent j =>
    match s.senders j with
    | .draining _ => some (endSend s j)
    | _ => none
  | .failSend j =>
    match s.senders j with
    | .waiting client | .draining client => some (failSend s j client)
    | _ => none
  | .expelled j => if s.senders j = .expelling then some (endSend s j) else none
  | .expel t => if t ∈ s.registered then some (closeWriter s t) else none
  | .beginClose k => if s.closers k = .absent then some (beginClose s k) else none
  | .drained k =>
    match s.closers k with
    | .draining tracked =>
      if ∀ j ∈ tracked, s.senders j = .over then
        some (setCloser s k (.gathering s.connectionTasks))
      else none
    | _ => none
  | .gathered k =>
    match s.closers k with
    | .gathering tracked =>
      if ∀ t ∈ tracked, s.handlers t = .ended then some (gathered s k) else none
    | _ => none
  | .closeConnection k t =>
    match s.closers k with
    | .closingConnections pending =>
      if t ∈ pending then
        some (setCloser (closeWriter s t) k (.closingConnections (pending.erase t)))
      else none
    | _ => none
  | .connectionsClosed k =>
    if s.closers k = .closingConnections ∅ then some (setCloser s k .awaitingServer) else none
  | .returned k => if s.closers k = .awaitingServer then some (setCloser s k .returned) else none

end

/-- The events that can happen, with the state after them. -/
inductive Happens (c : Config) (s : State) : Event → State → Prop
  | accept (t : ℕ) (refused : Bool) (ht : s.handlers t = .absent) :
      Happens c s (.accept t refused) (accept c s t refused)
  | verified (t : ℕ) (verdict : Verdict) (ht : s.handlers t = .verifying) :
      Happens c s (.verified t verdict) (verified s t verdict)
  | frame (t : ℕ) (payload : Bytes) (ht : s.handlers t = .reading) :
      Happens c s (.frame t payload) (frame s t payload)
  | queued (t : ℕ) (payload : Bytes) (ht : s.handlers t = .queueing payload)
      (hopen : s.closing = false) :
      Happens c s (.queued t) { setHandler s t .reading with queue := s.queue ++ [(t, payload)] }
  | failed (t : ℕ) (ht : (s.handlers t).isRegistered = true) :
      Happens c s (.failed t) (leave s t true)
  | finished (t : ℕ) (ht : s.handlers t = .refusing ∨ s.handlers t = .leaving) :
      Happens c s (.finished t) (finished s t)
  | recv (hqueue : s.queue ≠ []) : Happens c s .recv { s with queue := s.queue.tail }
  | send (j client : ℕ) (data : Bytes) (idle : Bool) (hj : s.senders j = .absent) :
      Happens c s (.send j client data idle) (send c s j client data idle)
  | write (j client : ℕ) (hj : s.senders j = .waiting client) :
      Happens c s (.write j) (write s j client)
  | sent (j client : ℕ) (hj : s.senders j = .draining client) : Happens c s (.sent j) (endSend s j)
  | failSend (j client : ℕ) (hj : s.senders j = .waiting client ∨ s.senders j = .draining client) :
      Happens c s (.failSend j) (failSend s j client)
  | expelled (j : ℕ) (hj : s.senders j = .expelling) : Happens c s (.expelled j) (endSend s j)
  | expel (t : ℕ) (ht : t ∈ s.registered) : Happens c s (.expel t) (closeWriter s t)
  | beginClose (k : ℕ) (hk : s.closers k = .absent) : Happens c s (.beginClose k) (beginClose s k)
  | drained (k : ℕ) (tracked : Finset ℕ) (hk : s.closers k = .draining tracked)
      (hover : ∀ j ∈ tracked, s.senders j = .over) :
      Happens c s (.drained k) (setCloser s k (.gathering s.connectionTasks))
  | gathered (k : ℕ) (tracked : Finset ℕ) (hk : s.closers k = .gathering tracked)
      (hended : ∀ t ∈ tracked, s.handlers t = .ended) : Happens c s (.gathered k) (gathered s k)
  | closeConnection (k t : ℕ) (pending : Finset ℕ)
      (hk : s.closers k = .closingConnections pending) (ht : t ∈ pending) :
      Happens c s (.closeConnection k t)
        (setCloser (closeWriter s t) k (.closingConnections (pending.erase t)))
  | connectionsClosed (k : ℕ) (hk : s.closers k = .closingConnections ∅) :
      Happens c s (.connectionsClosed k) (setCloser s k .awaitingServer)
  | returned (k : ℕ) (hk : s.closers k = .awaitingServer) :
      Happens c s (.returned k) (setCloser s k .returned)

theorem happens_of_step {c : Config} {s s' : State} {e : Event} (hs : step c s e = some s') :
    Happens c s e s' := by
  cases e with
  | accept t refused =>
    obtain ⟨ht, hs⟩ := Option.ite_none_right_eq_some.mp hs
    exact Option.some.inj hs ▸ .accept t refused ht
  | verified t verdict =>
    obtain ⟨ht, hs⟩ := Option.ite_none_right_eq_some.mp hs
    exact Option.some.inj hs ▸ .verified t verdict ht
  | frame t payload =>
    obtain ⟨ht, hs⟩ := Option.ite_none_right_eq_some.mp hs
    exact Option.some.inj hs ▸ .frame t payload ht
  | queued t =>
    simp only [step] at hs
    split at hs
    next payload ht =>
      obtain ⟨hopen, hs⟩ := Option.ite_none_left_eq_some.mp hs
      exact Option.some.inj hs ▸ .queued t payload ht (Bool.eq_false_iff.mpr hopen)
    next => nomatch hs
  | failed t =>
    obtain ⟨ht, hs⟩ := Option.ite_none_right_eq_some.mp hs
    exact Option.some.inj hs ▸ .failed t ht
  | finished t =>
    obtain ⟨ht, hs⟩ := Option.ite_none_right_eq_some.mp hs
    exact Option.some.inj hs ▸ .finished t ht
  | recv =>
    obtain ⟨hqueue, hs⟩ := Option.ite_none_left_eq_some.mp hs
    exact Option.some.inj hs ▸ .recv hqueue
  | send j client data idle =>
    obtain ⟨hj, hs⟩ := Option.ite_none_right_eq_some.mp hs
    exact Option.some.inj hs ▸ .send j client data idle hj
  | write j =>
    simp only [step] at hs
    split at hs
    next client hj => exact Option.some.inj hs ▸ .write j client hj
    next => nomatch hs
  | sent j =>
    simp only [step] at hs
    split at hs
    next client hj => exact Option.some.inj hs ▸ .sent j client hj
    next => nomatch hs
  | failSend j =>
    simp only [step] at hs
    split at hs
    next client hj => exact Option.some.inj hs ▸ .failSend j client (.inl hj)
    next client hj => exact Option.some.inj hs ▸ .failSend j client (.inr hj)
    next => nomatch hs
  | expelled j =>
    obtain ⟨hj, hs⟩ := Option.ite_none_right_eq_some.mp hs
    exact Option.some.inj hs ▸ .expelled j hj
  | expel t =>
    obtain ⟨ht, hs⟩ := Option.ite_none_right_eq_some.mp hs
    exact Option.some.inj hs ▸ .expel t ht
  | beginClose k =>
    obtain ⟨hk, hs⟩ := Option.ite_none_right_eq_some.mp hs
    exact Option.some.inj hs ▸ .beginClose k hk
  | drained k =>
    simp only [step] at hs
    split at hs
    next tracked hk =>
      obtain ⟨hover, hs⟩ := Option.ite_none_right_eq_some.mp hs
      exact Option.some.inj hs ▸ .drained k tracked hk hover
    next => nomatch hs
  | gathered k =>
    simp only [step] at hs
    split at hs
    next tracked hk =>
      obtain ⟨hended, hs⟩ := Option.ite_none_right_eq_some.mp hs
      exact Option.some.inj hs ▸ .gathered k tracked hk hended
    next => nomatch hs
  | closeConnection k t =>
    simp only [step] at hs
    split at hs
    next pending hk =>
      obtain ⟨ht, hs⟩ := Option.ite_none_right_eq_some.mp hs
      exact Option.some.inj hs ▸ .closeConnection k t pending hk ht
    next => nomatch hs
  | connectionsClosed k =>
    obtain ⟨hk, hs⟩ := Option.ite_none_right_eq_some.mp hs
    exact Option.some.inj hs ▸ .connectionsClosed k hk
  | returned k =>
    obtain ⟨hk, hs⟩ := Option.ite_none_right_eq_some.mp hs
    exact Option.some.inj hs ▸ .returned k hk

end WireRpc.MulticastTcp
