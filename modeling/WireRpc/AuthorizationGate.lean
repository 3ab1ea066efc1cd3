import WireRpc.Conformance
import WireRpc.MulticastTcp
import WireRpc.MulticastWs

/-!
# The authorization gate

The tasks of a `MulticastApp` on a transport that can verify its clients again. Each item
of a message is taken up, `get_principal` asks the authenticator about the connection, and
only then is the item dispatched. Slots and peer locks, which only delay a task, are left
out, and a deadline is a verification or a dispatch that ends with an exception.
-/
namespace WireRpc.AuthorizationGate
open Library Execution

/-- A transport, and its `get_principal` cut where the authenticator is awaited: `κ` is
what the call holds meanwhile. `presented` is the connection whose credentials are shown,
`expected` the identity that must come back, and `confirm` the check after it did.
`authentication` reads the results at connect time off the events. -/
structure Transport (σ ε κ : Type) where
  start : σ
  step : σ → ε → Option σ
  recv : ε
  head : σ → Option (ℕ × Bytes)
  authentication : ε → Option (ℕ × String)
  isClosed : σ → ℕ → Bool
  verifies : Bool
  lookup : σ → ℕ → Option κ
  presented : κ → ℕ
  expected : σ → κ → Option String
  confirm : σ → κ → Bool
  expel : σ → κ → σ

/-- A transport of the TCP server. The connection is the one that was looked up, whatever
became of the table since. -/
def tcp (c : MulticastTcp.Config) (revalidates : Bool) :
    Transport MulticastTcp.State MulticastTcp.Event ℕ where
  start := MulticastTcp.start
  step := MulticastTcp.step c
  recv := .recv
  head s := s.queue.head?
  authentication
    | .verified t (.principal name) => some (t, name)
    | _ => none
  isClosed s client := s.writerClosed client
  verifies := revalidates
  lookup s client :=
    if client ∈ s.clients ∧ s.writerClosed client = false then some client else none
  presented connection := connection
  expected s connection := s.principals connection
  confirm s connection := !s.closing && !s.writerClosed connection
  expel s connection := MulticastTcp.closeWriter s connection

/-- What `get_principal` of the WebSocket server reads from its tables at once. -/
structure Session where
  key : ℕ
  ws : ℕ
  request : ℕ
  principal : Option String

/-- The client is looked up again after the verification. -/
def webSocket (c : MulticastWs.Config) :
    Transport MulticastWs.State MulticastWs.Event Session where
  start := MulticastWs.start
  step := MulticastWs.step c
  recv := .recv
  head s := s.queue.head?
  authentication
    | .verified t (.principal name) => some (t, name)
    | _ => none
  isClosed s client := s.wsClosed client
  verifies := c.authenticates
  lookup s client := do
    let ws ← s.clients.lookup client
    let principal ← s.principals.lookup client
    let request ← s.requests.lookup client
    return ⟨client, ws, request, principal⟩
  presented session := session.request
  expected _ session := session.principal
  confirm s session := !s.closing && s.clients.lookup session.key == some session.ws
  expel s session := MulticastWs.closeWs s session.ws

/-- The items of a batch that `process` goes through: none of one that is refused. -/
def takenFrom {W : Type} (app : ExecutionHost W) (items : List Json) : List Json :=
  match items.mapM (fallback app.codec) with
  | none => []
  | some fallbacks =>
    if items.length > app.maxBatchSize ∨ reserve fallbacks > app.maxResponseSize then []
    else items

def takenItems {W : Type} (app : ExecutionHost W) (data : Bytes) : List Json :=
  match app.codec.decode data with
  | none => []
  | some (.arr items) => takenFrom app items
  | some envelope => [envelope]

/-- Where a task stands inside `process`: before its next item, in the authenticator, in
the close of a connection whose credentials were revoked, in a handler, or cancelled. -/
inductive Phase (κ : Type) where
  | absent
  | between (items : List Json)
  | verifying (request : RawWireRequest) (session : κ) (items : List Json)
  | expelling (items : List Json)
  | dispatching (items : List Json)
  | cancelled

/-- What a task does, in order. `entered` is the entry of `dispatch`, with the principal of
its `RequestContext`. -/
inductive Action where
  | taken (item : Json)
  | started (connection : ℕ)
  | verified (verdict : Verdict)
  | entered (request : RawWireRequest) (principal : Option String)

/-- `authenticated`, what the authentication of each connection returned at connect time,
and the traces belong to the history. -/
structure State (σ κ : Type) where
  transport : σ
  clients : ℕ → ℕ
  phases : ℕ → Phase κ
  authenticated : ℕ → Option String
  traces : ℕ → List Action

/-- `ended` is a handler that is over or the close of an expelled connection, by whatever
way but a cancellation. -/
inductive Event (ε : Type) where
  | transport (e : ε)
  | receive (t : ℕ)
  | takeUp (t : ℕ)
  | verified (t : ℕ) (verdict : Verdict)
  | ended (t : ℕ)
  | cancelled (t : ℕ)

section
variable {σ ε κ W : Type} (T : Transport σ ε κ) (app : ExecutionHost W) (s : State σ κ) (t : ℕ)

def start : State σ κ where
  transport := T.start
  clients := fun _ => 0
  phases := fun _ => .absent
  authenticated := fun _ => none
  traces := fun _ => []

def setPhase (phase : Phase κ) : State σ κ :=
  { s with phases := Function.update s.phases t phase }

def record (actions : List Action) : State σ κ :=
  { s with traces := Function.update s.traces t (s.traces t ++ actions) }

/-- The identities known after an event of the transport. -/
def authenticate (e : ε) (authenticated : ℕ → Option String) : ℕ → Option String :=
  match T.authentication e with
  | some (client, name) => Function.update authenticated client (some name)
  | none => authenticated

/-- `_listen` hands a message to a new task. -/
def receive (client : ℕ) (data : Bytes) (transport : σ) : State σ κ :=
  { setPhase s t (.between (takenItems app data)) with
    transport := transport
    clients := Function.update s.clients t client }

/-- The last check of `get_principal`, and `dispatch` right after it. -/
def proceed (request : RawWireRequest) (session : κ) (items : List Json) : State σ κ :=
  if T.confirm s.transport session then
    setPhase (record s t [.entered request (T.expected s.transport session)]) t
      (.dispatching items)
  else setPhase s t (.between items)

/-- `_process_one` up to the call of the authenticator. -/
def takeUp (item : Json) (items : List Json) : State σ κ :=
  match validate item with
  | none => setPhase (record s t [.taken item]) t (.between items)
  | some request =>
    match T.lookup s.transport (s.clients t) with
    | none => setPhase (record s t [.taken item]) t (.between items)
    | some session =>
      if T.verifies then
        setPhase (record s t [.taken item, .started (T.presented session)]) t
          (.verifying request session items)
      else proceed T (record s t [.taken item]) t request session items

/-- The connection is closed and the request ends with `PermissionError`. -/
def revoke (session : κ) (items : List Json) : State σ κ :=
  setPhase { s with transport := T.expel s.transport session } t (.expelling items)

/-- The authenticator has answered. An exception becomes the answer to the item. -/
def answered (request : RawWireRequest) (session : κ) (items : List Json) :
    Verdict → State σ κ
  | .principal name =>
    if T.expected s.transport session = some name then proceed T s t request session items
    else revoke T s t session items
  | .rejected => revoke T s t session items
  | .cancelled => setPhase s t .cancelled
  | _ => setPhase s t (.between items)

def step : Event ε → Option (State σ κ)
  | .transport e => (T.step s.transport e).map fun transport =>
      { s with
        transport := transport
        authenticated := authenticate T e s.authenticated }
  | .receive t =>
    match s.phases t, T.head s.transport with
    | .absent, some (client, data) =>
      (T.step s.transport T.recv).map fun transport => receive app s t client data transport
    | _, _ => none
  | .takeUp t =>
    match s.phases t with
    | .between (item :: items) => some (takeUp T s t item items)
    | _ => none
  | .verified t verdict =>
    match s.phases t with
    | .verifying request session items =>
      some (answered T (record s t [.verified verdict]) t request session items verdict)
    | _ => none
  | .ended t =>
    match s.phases t with
    | .expelling items | .dispatching items => some (setPhase s t (.between items))
    | _ => none
  | .cancelled t =>
    match s.phases t with
    | .expelling _ | .dispatching _ => some (setPhase s t .cancelled)
    | _ => none

end

section
variable {W : Type} {app : ExecutionHost W} {dispatch : Dispatch W} {clientId : Option String}

end
end WireRpc.AuthorizationGate
