import WireRpc.Codec
import WireRpc.Library.Machine
import WireRpc.SingleClient
import Mathlib.Data.List.AList

/-!
# Many clients over WebSocket

The serving tasks of `MulticastWsServerTransport`, the calls of `send`, `broadcast` and
`close`. An event is a stretch between two awaits. A client, its socket and its upgrade
request have the number of the serving task, and the receive queue is without its bounds.
-/
namespace WireRpc.MulticastWs
open Library

structure Config where
  maxConnections : ℕ
  maxMsgSize : ℕ
  authenticates : Bool

/-- Where `_handle_ws` stands: in `verify`, in `ws.prepare`, closing a socket that came too
late, waiting for a message, in `put`, in the `_close_ws` of its cleanup, or over. -/
inductive Handler where
  | absent
  | verifying
  | preparing (principal : Option String)
  | discarding
  | serving
  | queueing (payload : Bytes)
  | leaving
  | ended
  deriving DecidableEq

def Handler.isRegistered : Handler → Bool
  | serving | queueing _ => true
  | _ => false

/-- A `_send`, of `send` or of the delivery of a broadcast to a client: in `send_str`, in
the `_close_ws` after a failure, in the second `_close_ws` of a delivery, or over. -/
inductive Sender where
  | absent
  | sending (ws : ℕ) (delivery : Option ℕ)
  | failing (ws : ℕ) (delivery : Option ℕ)
  | dropping
  | over
  deriving DecidableEq

inductive Closer where
  | absent
  | closingSockets (pending : List ℕ)
  | awaitingRunner
  | returned
  deriving DecidableEq

/-- The three tables are `_clients`, `_requests` and `_principals`. `broadcasts` holds the
deliveries of each broadcast that have not begun. -/
structure State where
  closing : Bool
  active : ℤ
  clients : AList fun _ : ℕ => ℕ
  requests : AList fun _ : ℕ => ℕ
  principals : AList fun _ : ℕ => Option String
  queue : List (ℕ × Bytes)
  handlers : ℕ → Handler
  wsClosed : ℕ → Bool
  broadcasts : ℕ → List (ℕ × ℕ)
  senders : ℕ → Sender
  closers : ℕ → Closer

def start : State where
  closing := false
  active := 0
  clients := ∅
  requests := ∅
  principals := ∅
  queue := []
  handlers := fun _ => .absent
  wsClosed := fun _ => false
  broadcasts := fun _ => []
  senders := fun _ => .absent
  closers := fun _ => .absent

/-- `foreign` is an origin that is not allowed, `interrupted` a `_close_ws` that is
cancelled. `failed` is the end of the messages or a `put` that raises, by whatever cause,
`sent` a `_send` that leaves its socket open, and `expel` the close of a socket whose
credentials were revoked. -/
inductive Event where
  | accept (t : ℕ) (foreign : Bool)
  | verified (t : ℕ) (verdict : Verdict)
  | prepared (t : ℕ) (succeeds : Bool)
  | message (t : ℕ) (payload : Bytes)
  | queued (t : ℕ)
  | failed (t : ℕ)
  | finished (t : ℕ)
  | recv
  | send (j client : ℕ) (data : Bytes)
  | broadcast (b : ℕ)
  | deliver (b j client ws : ℕ) (data : Bytes)
  | sent (j : ℕ)
  | failSend (j : ℕ)
  | sendClosed (j : ℕ) (interrupted : Bool)
  | dropped (j : ℕ)
  | expel (t : ℕ)
  | beginClose (k : ℕ)
  | closeSocket (k t : ℕ)
  | cleared (k : ℕ)
  | returned (k : ℕ)

section
variable (c : Config) (s : State) (t : ℕ)

def setHandler (phase : Handler) : State :=
  { s with handlers := Function.update s.handlers t phase }

def setSender (j : ℕ) (phase : Sender) : State :=
  { s with senders := Function.update s.senders j phase }

def setCloser (k : ℕ) (phase : Closer) : State :=
  { s with closers := Function.update s.closers k phase }

/-- `ws.close()` marks the socket before its first await. -/
def closeWs : State := { s with wsClosed := Function.update s.wsClosed t true }

def release : State := { setHandler s t .ended with active := s.active - 1 }

/-- `_handle_ws` up to its first await. -/
def accept (foreign : Bool) : State :=
  if s.closing || foreign then setHandler s t .ended
  else if s.active ≥ c.maxConnections then setHandler s t .ended
  else
    { setHandler s t (if c.authenticates then .verifying else .preparing none) with
      active := s.active + 1 }

/-- Without a principal the request is answered with an error. -/
def verified : Verdict → State
  | .principal name => setHandler s t (.preparing (some name))
  | _ => release s t

def register (principal : Option String) : State :=
  { setHandler s t .serving with
    clients := s.clients.insert t t
    requests := s.requests.insert t t
    principals := s.principals.insert t principal }

/-- The upgrade has been answered, or has failed. -/
def prepared (principal : Option String) (succeeds : Bool) : State :=
  if !succeeds then release s t
  else if s.closing then setHandler (closeWs s t) t .discarding
  else register s t principal

def forget : State :=
  { s with
    clients := s.clients.erase t
    requests := s.requests.erase t
    principals := s.principals.erase t }

/-- The `finally` block of `_serve_ws`. -/
def leave : State :=
  let s := if s.clients.lookup t = some t then forget s t else s
  setHandler (closeWs { s with queue := s.queue.filter (·.1 ≠ t) } t) t .leaving

/-- A message was read; one that is too long ends the connection. -/
def message (payload : Bytes) : State :=
  if payload.length > c.maxMsgSize then leave s t else setHandler s t (.queueing payload)

/-- `_send` up to `send_str`. -/
def trySend (j : ℕ) (ws : Option ℕ) (data : Bytes) (delivery : Option ℕ) : State :=
  if data.length > c.maxMsgSize then setSender s j .over
  else
    match ws with
    | none => setSender s j .over
    | some ws => setSender s j (.sending ws delivery)

/-- The exception of `_send` reaches the delivery, which takes its client out of
`_clients` and closes the socket once more. -/
def drop (j client ws : ℕ) : State :=
  let s :=
    if s.clients.lookup client = some ws then { s with clients := s.clients.erase client } else s
  setSender (closeWs s ws) j .dropping

/-- The `_close_ws` after a failure is over and the exception is raised again. A delivery
handles it, unless it is a cancellation. -/
def sendClosed (j ws : ℕ) (delivery : Option ℕ) (interrupted : Bool) : State :=
  match delivery, interrupted with
  | some client, false => drop s j client ws
  | _, _ => setSender s j .over

def beginClose (k : ℕ) : State :=
  { setCloser s k (.closingSockets (s.clients.entries.map Sigma.snd)) with
    closing := true
    queue := [] }

def cleared (k : ℕ) : State :=
  { setCloser s k .awaitingRunner with clients := ∅, requests := ∅, principals := ∅ }

def step : Event → Option State
  | .accept t foreign => if s.handlers t = .absent then some (accept c s t foreign) else none
  | .verified t verdict => if s.handlers t = .verifying then some (verified s t verdict) else none
  | .prepared t succeeds =>
    match s.handlers t with
    | .preparing principal => some (prepared s t principal succeeds)
    | _ => none
  | .message t payload => if s.handlers t = .serving then some (message c s t payload) else none
  | .queued t =>
    match s.handlers t with
    | .queueing payload =>
      if s.closing then none
      else some { setHandler s t .serving with queue := s.queue ++ [(t, payload)] }
    | _ => none
  | .failed t => if (s.handlers t).isRegistered then some (leave s t) else none
  | .finished t =>
    if s.handlers t = .discarding ∨ s.handlers t = .leaving then some (release s t) else none
  | .recv => if s.queue = [] then none else some { s with queue := s.queue.tail }
  | .send j client data =>
    if s.senders j = .absent then some (trySend c s j (s.clients.lookup client) data none)
    else none
  | .broadcast b =>
    some { s with
      broadcasts := Function.update s.broadcasts b (s.clients.entries.map fun e => (e.1, e.2)) }
  | .deliver b j client ws data =>
    if s.senders j = .absent ∧ (client, ws) ∈ s.broadcasts b then
      some (trySend c
        { s with
          broadcasts := Function.update s.broadcasts b ((s.broadcasts b).erase (client, ws)) }
        j (some ws) data (some client))
    else none
  | .sent j =>
    match s.senders j with
    | .sending _ _ => some (setSender s j .over)
    | _ => none
  | .failSend j =>
    match s.senders j with
    | .sending ws delivery => some (setSender (closeWs s ws) j (.failing ws delivery))
    | _ => none
  | .sendClosed j interrupted =>
    match s.senders j with
    | .failing ws delivery => some (sendClosed s j ws delivery interrupted)
    | _ => none
  | .dropped j =>
    match s.senders j with
    | .dropping => some (setSender s j .over)
    | _ => none
  | .expel t => if s.handlers t = .absent then none else some (closeWs s t)
  | .beginClose k => if s.closers k = .absent then some (beginClose s k) else none
  | .closeSocket k t =>
    match s.closers k with
    | .closingSockets pending =>
      if t ∈ pending then some (setCloser (closeWs s t) k (.closingSockets (pending.erase t)))
      else none
    | _ => none
  | .cleared k => if s.closers k = .closingSockets [] then some (cleared s k) else none
  | .returned k => if s.closers k = .awaitingRunner then some (setCloser s k .returned) else none

end

/-- The events that can happen, with the state after them. -/
inductive Happens (c : Config) (s : State) : Event → State → Prop
  | accept (t : ℕ) (foreign : Bool) (ht : s.handlers t = .absent) :
      Happens c s (.accept t foreign) (accept c s t foreign)
  | verified (t : ℕ) (verdict : Verdict) (ht : s.handlers t = .verifying) :
      Happens c s (.verified t verdict) (verified s t verdict)
  | prepared (t : ℕ) (principal : Option String) (succeeds : Bool)
      (ht : s.handlers t = .preparing principal) :
      Happens c s (.prepared t succeeds) (prepared s t principal succeeds)
  | message (t : ℕ) (payload : Bytes) (ht : s.handlers t = .serving) :
      Happens c s (.message t payload) (message c s t payload)
  | queued (t : ℕ) (payload : Bytes) (ht : s.handlers t = .queueing payload)
      (hopen : s.closing = false) :
      Happens c s (.queued t) { setHandler s t .serving with queue := s.queue ++ [(t, payload)] }
  | failed (t : ℕ) (ht : (s.handlers t).isRegistered = true) : Happens c s (.failed t) (leave s t)
  | finished (t : ℕ) (ht : s.handlers t = .discarding ∨ s.handlers t = .leaving) :
      Happens c s (.finished t) (release s t)
  | recv (hqueue : s.queue ≠ []) : Happens c s .recv { s with queue := s.queue.tail }
  | send (j client : ℕ) (data : Bytes) (hj : s.senders j = .absent) :
      Happens c s (.send j client data) (trySend c s j (s.clients.lookup client) data none)
  | broadcast (b : ℕ) :
      Happens c s (.broadcast b) { s with
        broadcasts := Function.update s.broadcasts b (s.clients.entries.map fun e => (e.1, e.2)) }
  | deliver (b j client ws : ℕ) (data : Bytes) (hj : s.senders j = .absent)
      (hb : (client, ws) ∈ s.broadcasts b) :
      Happens c s (.deliver b j client ws data) (trySend c
        { s with
          broadcasts := Function.update s.broadcasts b ((s.broadcasts b).erase (client, ws)) }
        j (some ws) data (some client))
  | sent (j ws : ℕ) (delivery : Option ℕ) (hj : s.senders j = .sending ws delivery) :
      Happens c s (.sent j) (setSender s j .over)
  | failSend (j ws : ℕ) (delivery : Option ℕ) (hj : s.senders j = .sending ws delivery) :
      Happens c s (.failSend j) (setSender (closeWs s ws) j (.failing ws delivery))
  | sendClosed (j ws : ℕ) (delivery : Option ℕ) (interrupted : Bool)
      (hj : s.senders j = .failing ws delivery) :
      Happens c s (.sendClosed j interrupted) (sendClosed s j ws delivery interrupted)
  | dropped (j : ℕ) (hj : s.senders j = .dropping) : Happens c s (.dropped j) (setSender s j .over)
  | expel (t : ℕ) (ht : s.handlers t ≠ .absent) : Happens c s (.expel t) (closeWs s t)
  | beginClose (k : ℕ) (hk : s.closers k = .absent) : Happens c s (.beginClose k) (beginClose s k)
  | closeSocket (k t : ℕ) (pending : List ℕ) (hk : s.closers k = .closingSockets pending)
      (ht : t ∈ pending) :
      Happens c s (.closeSocket k t) (setCloser (closeWs s t) k (.closingSockets (pending.erase t)))
  | cleared (k : ℕ) (hk : s.closers k = .closingSockets []) :
      Happens c s (.cleared k) (cleared s k)
  | returned (k : ℕ) (hk : s.closers k = .awaitingRunner) :
      Happens c s (.returned k) (setCloser s k .returned)

theorem happens_of_step {c : Config} {s s' : State} {e : Event} (hs : step c s e = some s') :
    Happens c s e s' := by
  cases e with
  | accept t foreign =>
    obtain ⟨ht, hs⟩ := Option.ite_none_right_eq_some.mp hs
    exact Option.some.inj hs ▸ .accept t foreign ht
  | verified t verdict =>
    obtain ⟨ht, hs⟩ := Option.ite_none_right_eq_some.mp hs
    exact Option.some.inj hs ▸ .verified t verdict ht
  | prepared t succeeds =>
    simp only [step] at hs
    split at hs
    next principal ht => exact Option.some.inj hs ▸ .prepared t principal succeeds ht
    next => nomatch hs
  | message t payload =>
    obtain ⟨ht, hs⟩ := Option.ite_none_right_eq_some.mp hs
    exact Option.some.inj hs ▸ .message t payload ht
  | queued t =>
    simp only [step] at hs
    split at hs
    next payload ht =>
      obtain ⟨hopen, hs⟩ := Option.ite_none_left_eq_some.mp hs
      exact Option.some.inj hs ▸ .queued t payload ht (Bool.eq_false_iff.mpr hopen)
    next => nomatch hs
  | failed t =>
    obtain ⟨ht, hs⟩ := Option.ite_none_right_eq_some.mp hs
    exact Option.some.inj hs ▸ .failed t ht
  | finished t =>
    obtain ⟨ht, hs⟩ := Option.ite_none_right_eq_some.mp hs
    exact Option.some.inj hs ▸ .finished t ht
  | recv =>
    obtain ⟨hqueue, hs⟩ := Option.ite_none_left_eq_some.mp hs
    exact Option.some.inj hs ▸ .recv hqueue
  | send j client data =>
    obtain ⟨hj, hs⟩ := Option.ite_none_right_eq_some.mp hs
    exact Option.some.inj hs ▸ .send j client data hj
  | broadcast b => exact Option.some.inj hs ▸ .broadcast b
  | deliver b j client ws data =>
    obtain ⟨⟨hj, hb⟩, hs⟩ := Option.ite_none_right_eq_some.mp hs
    exact Option.some.inj hs ▸ .deliver b j client ws data hj hb
  | sent j =>
    simp only [step] at hs
    split at hs
    next ws delivery hj => exact Option.some.inj hs ▸ .sent j ws delivery hj
    next => nomatch hs
  | failSend j =>
    simp only [step] at hs
    split at hs
    next ws delivery hj => exact Option.some.inj hs ▸ .failSend j ws delivery hj
    next => nomatch hs
  | sendClosed j interrupted =>
    simp only [step] at hs
    split at hs
    next ws delivery hj => exact Option.some.inj hs ▸ .sendClosed j ws delivery interrupted hj
    next => nomatch hs
  | dropped j =>
    simp only [step] at hs
    split at hs
    next hj => exact Option.some.inj hs ▸ .dropped j hj
    next => nomatch hs
  | expel t =>
    obtain ⟨ht, hs⟩ := Option.ite_none_left_eq_some.mp hs
    exact Option.some.inj hs ▸ .expel t ht
  | beginClose k =>
    obtain ⟨hk, hs⟩ := Option.ite_none_right_eq_some.mp hs
    exact Option.some.inj hs ▸ .beginClose k hk
  | closeSocket k t =>
    simp only [step] at hs
    split at hs
    next pending hk =>
      obtain ⟨ht, hs⟩ := Option.ite_none_right_eq_some.mp hs
      exact Option.some.inj hs ▸ .closeSocket k t pending hk ht
    next => nomatch hs
  | cleared k =>
    obtain ⟨hk, hs⟩ := Option.ite_none_right_eq_some.mp hs
    exact Option.some.inj hs ▸ .cleared k hk
  | returned k =>
    obtain ⟨hk, hs⟩ := Option.ite_none_right_eq_some.mp hs
    exact Option.some.inj hs ▸ .returned k hk

end WireRpc.MulticastWs
