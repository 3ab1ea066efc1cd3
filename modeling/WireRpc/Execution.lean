import WireRpc.Envelope

/-!
# The per-request failure boundary

`process` decodes one message, dispatches what is valid in it and encodes the
reply. Handlers, middleware and the transport's identity check are an
environment with a state of its own: each awaited call is given the deadline
of the scope it runs in and says how it ends. Durations are not modelled, so
an access line holds everything but its time.
-/
namespace WireRpc.Execution
open Library

/-- Ordinary exceptions, as far as the code tells them apart. -/
inductive Failure where
  | timeout
  | peerBusy
  | permission
  | other
  deriving DecidableEq, Repr

/-- How an awaited call ends. `cancelled` is `asyncio.CancelledError`. -/
inductive Outcome (α : Type*) where
  | value (a : α)
  | raised (e : Failure)
  | cancelled
  deriving DecidableEq, Repr

structure ExecutionStats where
  requests : ℕ := 0
  active : ℕ := 0
  completed : ℕ := 0
  failed : ℕ := 0
  timedOut : ℕ := 0
  invalid : ℕ := 0
  deriving DecidableEq, Repr

/-- What `current_request()` returns while a handler runs. -/
structure RequestContext where
  requestId : RequestId
  method : String
  principal : Option String
  connectionId : Option String
  deriving DecidableEq, Repr

/-- What an access line is about: a method, or one of the bracketed labels. -/
inductive Subject where
  | method (name : String)
  | invalid
  | unparseable
  | batch
  deriving DecidableEq, Repr

inductive AccessOutcome where
  | ok
  | notification
  | cancelled
  | code (n : ℤ)
  deriving DecidableEq, Repr

structure AccessLine where
  subject : Subject
  outcome : AccessOutcome
  peer : Option String
  deriving DecidableEq, Repr

/-- The mutable state `process` reads and writes. `world` belongs to the
environment; `dispatched` records the requests handed to `dispatch`. -/
structure State (W : Type) where
  stats : ExecutionStats
  context : Option RequestContext
  log : List AccessLine
  dispatched : List RawWireRequest
  world : W

/-- An awaited call under a deadline. -/
abbrev Await (W α : Type) := ℕ → W → W × Outcome α

/-- `dispatch` reads the request and, through `current_request()`, its context. -/
abbrev Dispatch (W : Type) := RequestContext → RawWireRequest → Await W WireResponse

/-- What `process` needs from an app. The constructor refuses a response budget
under 2048 bytes and a batch limit of zero, so neither can be built. -/
structure ExecutionHost (W : Type) where
  codec : Codec
  getPrincipal : Option (Option String → Await W (Option String))
  clock : W → ℕ
  handlerTimeout : ℕ
  maxResponseSize : ℕ
  maxBatchSize : ℕ
  response_budget : 2048 ≤ maxResponseSize
  batch_limit : 0 < maxBatchSize

variable {W : Type}

namespace State

def access (s : State W) (subject : Subject) (outcome : AccessOutcome) (peer : Option String) :
    State W :=
  { s with log := s.log ++ [⟨subject, outcome, peer⟩] }

/-- A valid request is being handled. -/
def enter (s : State W) : State W :=
  { s with stats := { s.stats with active := s.stats.active + 1 } }

/-- The `finally` block: one request less, and the context as it was before. -/
def leave (s : State W) (context : Option RequestContext) : State W :=
  { s with
    stats := { s.stats with active := s.stats.active - 1 }
    context := context }

def countInvalid (s : State W) : State W :=
  { s with stats := { s.stats with invalid := s.stats.invalid + 1 } }

def countCompleted (s : State W) : State W :=
  { s with stats := { s.stats with completed := s.stats.completed + 1 } }

/-- A timeout counts as a failure and, besides, as a timeout. -/
def countFailed (s : State W) (e : Failure) : State W :=
  { s with stats := { s.stats with
      failed := s.stats.failed + 1
      timedOut := if e = .timeout then s.stats.timedOut + 1 else s.stats.timedOut } }

@[simp] theorem dispatched_access (s : State W) (subject : Subject) (outcome : AccessOutcome)
    (peer : Option String) : (s.access subject outcome peer).dispatched = s.dispatched := rfl

@[simp] theorem dispatched_enter (s : State W) : s.enter.dispatched = s.dispatched := rfl

@[simp] theorem dispatched_leave (s : State W) (context : Option RequestContext) :
    (s.leave context).dispatched = s.dispatched := rfl

@[simp] theorem dispatched_countInvalid (s : State W) : s.countInvalid.dispatched = s.dispatched :=
  rfl

@[simp] theorem dispatched_countCompleted (s : State W) :
    s.countCompleted.dispatched = s.dispatched := rfl

@[simp] theorem dispatched_countFailed (s : State W) (e : Failure) :
    (s.countFailed e).dispatched = s.dispatched := rfl

end State

/-- Encoding a reply raises when the codec refuses it. -/
def encodeReply (c : Codec) (r : WireResponse) : Outcome (Option Bytes) :=
  match c.encodeResponse r with
  | some b => .value (some b)
  | none => .raised .other

def invalidRequest : WireResponse := .error ⟨.invalidRequest, "Invalid request", .null⟩ .null

/-- The check before anything runs: an object of version 2.0 that converts. -/
def validate (envelope : Json) : Option RawWireRequest :=
  match envelope with
  | .obj fields =>
    match Json.get? fields "jsonrpc" with
    | some (.str "2.0") => convert envelope
    | _ => none
  | _ => none

/-- The id the fallback error carries: the item's `id` when it is a string or an
integer, null otherwise. -/
def fallbackId (item : Json) : RequestId :=
  match item with
  | .obj fields =>
    match Json.get? fields "id" with
    | some v => (RequestId.ofJson v).getD .null
    | none => .null
  | _ => .null

/-- A valid notification as `_fallback` recognises it: an object without an `id`
that passes the request checks. -/
def silent (item : Json) : Bool :=
  match item with
  | .obj fields =>
    (Json.get? fields "id").isNone &&
      (match Json.get? fields "jsonrpc" with
      | some (.str "2.0") => (convert item).isSome
      | _ => false)
  | _ => false

/-- The small error that replaces an item's reply when the batch runs out of
room, `some none` for a valid notification. The outer `none` is the codec
refusing to encode it. -/
def fallback (c : Codec) (item : Json) : Option (Option Bytes) :=
  if silent item then some none
  else (c.encodeResponse
    (.error ⟨.internal, "Internal server error", .null⟩ (fallbackId item))).map some

/-- The sanitized error for an exception. -/
def errorFor : Failure → WireError
  | .timeout => ⟨.server (-32000), "Request deadline exceeded", .null⟩
  | .peerBusy => ⟨.server (-32002), "Peer already has an active request", .null⟩
  | .permission => ⟨.server (-32001), "Access denied", .null⟩
  | .other => ⟨.internal, "Internal server error", .null⟩

/-- Continue after an awaited step unless it failed: exceptions propagate. -/
def andThen {α β : Type*} (r : State W × Outcome α)
    (next : State W → α → State W × Outcome β) : State W × Outcome β :=
  match r with
  | (s, .value a) => next s a
  | (s, .raised e) => (s, .raised e)
  | (s, .cancelled) => (s, .cancelled)

/-- The transport's identity check; a transport without one has no principal. -/
def principalOf (app : ExecutionHost W) (deadline : ℕ) (clientId : Option String) (s : State W) :
    State W × Outcome (Option String) :=
  match app.getPrincipal with
  | none => (s, .value none)
  | some getPrincipal =>
    let r := getPrincipal clientId deadline s.world
    ({ s with world := r.1 }, r.2)

/-- The body of the deadline scope: identity check, context, dispatch. -/
def scope (app : ExecutionHost W) (dispatch : Dispatch W) (deadline : ℕ) (clientId : Option String)
    (request : RawWireRequest) (s : State W) : State W × Outcome WireResponse :=
  andThen (principalOf app deadline clientId s) fun s principal =>
    let context : RequestContext := ⟨request.responseId, request.method, principal, clientId⟩
    let r := dispatch context request deadline s.world
    ({ s with
        world := r.1
        context := some context
        dispatched := s.dispatched ++ [request] }, r.2)

/-- The `except Exception` branch: a sanitized error, or silence for a notification. -/
def fail (c : Codec) (request : RawWireRequest) (s : State W) (e : Failure) :
    State W × AccessOutcome × Outcome (Option Bytes) :=
  (s.countFailed e, .code (errorFor e).code,
    if request.id.isNone then .value none
    else encodeReply c (.error (errorFor e) request.responseId))

def responseOutcome : WireResponse → AccessOutcome
  | .success _ _ => .ok
  | .error e _ => .code e.code

/-- From the dispatch outcome to the reply, the counters and the logged outcome. -/
def settle (app : ExecutionHost W) (request : RawWireRequest) (s : State W) :
    Outcome WireResponse → State W × AccessOutcome × Outcome (Option Bytes)
  | .cancelled => (s, .cancelled, .cancelled)
  | .raised e => fail app.codec request s e
  | .value response =>
    if request.id.isNone then (s, .notification, .value none)
    else
      match app.codec.encodeResponse response with
      | none => fail app.codec request s .other
      | some encoded =>
        if encoded.length > app.maxResponseSize then fail app.codec request s .other
        else (s.countCompleted, responseOutcome response, .value (some encoded))

/-- Validate, dispatch and encode one decoded request. -/
def processOne (app : ExecutionHost W) (dispatch : Dispatch W) (deadline : ℕ)
    (clientId : Option String) (envelope : Json) (s : State W) :
    State W × Outcome (Option Bytes) :=
  match validate envelope with
  | none =>
    (s.countInvalid.access .invalid (.code (-32600)) clientId,
      encodeReply app.codec invalidRequest)
  | some request =>
    let ran := scope app dispatch deadline clientId request s.enter
    let settled := settle app request ran.1 ran.2
    ((settled.1.leave s.context).access (.method request.method) settled.2.1 clientId, settled.2.2)

/-- A batch refused before any of it ran. -/
def refuseBatch (app : ExecutionHost W) (clientId : Option String) (s : State W) :
    State W × Outcome (Option Bytes) :=
  (s.countInvalid.access .batch (.code (-32600)) clientId, encodeReply app.codec invalidRequest)

@[simp] theorem dispatched_refuseBatch (app : ExecutionHost W) (clientId : Option String)
    (s : State W) : (refuseBatch app clientId s).1.dispatched = s.dispatched := rfl

/-- The batch loop. `remaining` is the room left in the reply, `reserved` what
the fallbacks of the unfinished items need of it. -/
def batchLoop (app : ExecutionHost W) (dispatch : Dispatch W) (deadline : ℕ)
    (clientId : Option String) :
    List (Json × Option Bytes) → ℤ → ℤ → State W → State W × Outcome (List Bytes)
  | [], _, _, s => (s, .value [])
  | (item, fallback) :: rest, remaining, reserved, s =>
    andThen (processOne app dispatch deadline clientId item s) fun s reply =>
      let reserved := match fallback with
        | some f => reserved - f.length
        | none => reserved
      match reply with
      | none => batchLoop app dispatch deadline clientId rest remaining reserved s
      | some reply =>
        let kept := match fallback with
          | some f => if reply.length > remaining - reserved then f else reply
          | none => reply
        andThen (batchLoop app dispatch deadline clientId rest (remaining - kept.length) reserved s)
          fun s replies => (s, .value (kept :: replies))

/-- Bytes the fallbacks of a batch need, with room for the list around them. -/
def reserve (fallbacks : List (Option Bytes)) : ℕ :=
  (fallbacks.map fun f => (f.getD []).length).sum + fallbacks.length + 8

/-- Join the replies to one encoded list; no reply at all when there is none. -/
def joinReplies (c : Codec) (replies : List Bytes) : Outcome (Option Bytes) :=
  if replies = [] then .value none
  else
    match replies.mapM c.decode with
    | none => .raised .other
    | some values =>
      match c.encode (.arr values) with
      | some b => .value (some b)
      | none => .raised .other

def processBatch (app : ExecutionHost W) (dispatch : Dispatch W) (deadline : ℕ)
    (clientId : Option String) (items : List Json) (s : State W) :
    State W × Outcome (Option Bytes) :=
  if items.length = 0 then refuseBatch app clientId s
  else if items.length > app.maxBatchSize then refuseBatch app clientId s
  else
    match items.mapM (fallback app.codec) with
    | none => (s, .raised .other)
    | some fallbacks =>
      if reserve fallbacks > app.maxResponseSize then refuseBatch app clientId s
      else
        let remaining : ℤ := app.maxResponseSize - items.length - 8
        let reserved : ℤ := reserve fallbacks - items.length - 8
        andThen
          (batchLoop app dispatch deadline clientId (items.zip fallbacks) remaining reserved s)
          fun s replies => (s, joinReplies app.codec replies)

/-- The message is counted, whatever it holds. -/
def State.countRequest (s : State W) : State W :=
  { s with stats := { s.stats with requests := s.stats.requests + 1 } }

@[simp] theorem State.dispatched_countRequest (s : State W) :
    s.countRequest.dispatched = s.dispatched := rfl

/-- A decoded message is one request or a batch of them. -/
def processEnvelope (app : ExecutionHost W) (dispatch : Dispatch W) (clientId : Option String)
    (envelope : Json) (s : State W) : State W × Outcome (Option Bytes) :=
  let deadline := app.clock s.world + app.handlerTimeout
  match envelope with
  | .arr items => processBatch app dispatch deadline clientId items s
  | _ => processOne app dispatch deadline clientId envelope s

def parseError : WireResponse := .error ⟨.parse, "Invalid encoded request", .null⟩ .null

/-- Decode, dispatch and encode one message. -/
def process (app : ExecutionHost W) (dispatch : Dispatch W) (clientId : Option String)
    (data : Bytes) (s : State W) : State W × Outcome (Option Bytes) :=
  match app.codec.decode data with
  | none =>
    (s.countRequest.countInvalid.access .unparseable (.code (-32700)) clientId,
      encodeReply app.codec parseError)
  | some envelope => processEnvelope app dispatch clientId envelope s.countRequest

theorem process_of_not_decode {app : ExecutionHost W} {dispatch : Dispatch W}
    {clientId : Option String} {data : Bytes} {s : State W} (h : app.codec.decode data = none) :
    process app dispatch clientId data s =
      (s.countRequest.countInvalid.access .unparseable (.code (-32700)) clientId,
        encodeReply app.codec parseError) := by
  simp only [process, h]

theorem process_of_decode {app : ExecutionHost W} {dispatch : Dispatch W}
    {clientId : Option String} {data : Bytes} {envelope : Json} {s : State W}
    (h : app.codec.decode data = some envelope) :
    process app dispatch clientId data s =
      processEnvelope app dispatch clientId envelope s.countRequest := by
  simp only [process, h]

theorem processEnvelope_arr {app : ExecutionHost W} {dispatch : Dispatch W}
    {clientId : Option String} {items : List Json} {s : State W} :
    processEnvelope app dispatch clientId (.arr items) s =
      processBatch app dispatch (app.clock s.world + app.handlerTimeout) clientId items s := rfl

theorem processEnvelope_of_ne_arr {app : ExecutionHost W} {dispatch : Dispatch W}
    {clientId : Option String} {envelope : Json} {s : State W}
    (h : ∀ items, envelope ≠ .arr items) :
    processEnvelope app dispatch clientId envelope s =
      processOne app dispatch (app.clock s.world + app.handlerTimeout) clientId envelope s := by
  cases envelope with
  | arr items => exact absurd rfl (h items)
  | _ => rfl

/-- An app with the JSON codec and the least response budget, on a transport
that names no principal. -/
def leastHost (maxBatchSize : ℕ) (h : 0 < maxBatchSize := by decide) : ExecutionHost Unit where
  codec := msgSpecJsonCodec
  getPrincipal := none
  clock := fun _ => 0
  handlerTimeout := 30
  maxResponseSize := 2048
  maxBatchSize := maxBatchSize
  response_budget := le_rfl
  batch_limit := h

theorem leastHost_decode {n : ℕ} (hn : 0 < n) (v : Json) :
    (leastHost n hn).codec.decode (Json.encode v) = some v :=
  msgSpecJsonCodec_roundTrips v _ rfl

def initial : State Unit := ⟨{}, none, [], [], ()⟩

/-- Every handler raises. -/
def failing : Dispatch Unit := fun _ _ _ w => (w, .raised .other)

def callItem (id : ℤ) : Json := RawWireRequest.toJson ⟨"add", some (.int id), .null⟩

/-- A message that is one call. -/
def callData : Bytes := Json.encode (callItem 1)

/-- A message that is one notification. -/
def noteData : Bytes := Json.encode (RawWireRequest.toJson ⟨"log", none, .null⟩)

theorem process_noteData (clientId : Option String) :
    (process (leastHost 1) failing clientId noteData initial).2 = .value none := by
  rw [noteData, process_of_decode (msgSpecJsonCodec_roundTrips _ _ rfl)]
  rfl

end WireRpc.Execution
