import WireRpc.Envelope
import Mathlib.Data.List.ReduceOption

/-!
# The client's side of an exchange

What the client sends, which incoming messages it takes as its reply, and what
it makes of them. `uuid4` is the source of request ids, read one after another.
A conversion to a response type is a partial function on decoded values.
-/
namespace WireRpc.Client
open Library

/-- What an operation raises. `type` and `key` are Python's own errors. -/
inductive ClientError where
  | rpc (code : ℤ) (message : String) (data : Json)
  | connection (message : String)
  | value (message : String)
  | conversion
  | type
  | key

/-- The members of a decoded object. -/
abbrev Envelope := List (String × Json)

structure Notification where
  method : String
  params : Json

/-- One item of a batch, a `BatchCall` with its response type or a
`BatchNotification`. -/
inductive BatchItem (R : Type) where
  | call (method : String) (responseType : Json → Option R) (params : Json)
  | notification (method : String) (params : Json)

namespace BatchItem

variable {R : Type}

def method : BatchItem R → String
  | call method _ _ => method
  | notification method _ => method

def params : BatchItem R → Json
  | call _ _ params => params
  | notification _ params => params

def isCall : BatchItem R → Bool
  | call _ _ _ => true
  | notification _ _ => false

end BatchItem

variable {R : Type}

/-- A call takes the next id, a notification has none. -/
def requestId (uuid4 : ℕ → String) : BatchItem R → ℕ → Option String
  | .call _ _ _, n => some (uuid4 n)
  | .notification _ _, _ => none

/-- How many ids are drawn after the item. -/
def drawn : BatchItem R → ℕ → ℕ
  | .call _ _ _, n => n + 1
  | .notification _ _, n => n

def requestIds (uuid4 : ℕ → String) : List (BatchItem R) → ℕ → List (Option String)
  | [], _ => []
  | item :: rest, n => requestId uuid4 item n :: requestIds uuid4 rest (drawn item n)

def toRequest (item : BatchItem R) (id : Option String) : RawWireRequest :=
  ⟨item.method, id.map .str, item.params⟩

def requests (items : List (BatchItem R)) (ids : List (Option String)) : List RawWireRequest :=
  List.zipWith toRequest items ids

/-- The message of a batch. -/
def batchJson (items : List (BatchItem R)) (ids : List (Option String)) : Json :=
  .arr ((requests items ids).map RawWireRequest.toJson)

/-- The ids a batch waits for. -/
def expected (ids : List (Option String)) : Finset String := ids.reduceOption.toFinset

def callJson (method : String) (id : String) (params : Json) : Json :=
  RawWireRequest.toJson ⟨method, some (.str id), params⟩

def notifyJson (method : String) (params : Json) : Json :=
  RawWireRequest.toJson ⟨method, none, params⟩

/-- The id of an envelope when it is a string. -/
def idString (envelope : Envelope) : Option String :=
  match Json.get? envelope "id" with
  | some (.str id) => some id
  | _ => none

def isNotification (envelope : Envelope) : Bool :=
  (Json.get? envelope "method").isSome && (Json.get? envelope "id").isNone

/-- The version member is the string "2.0". -/
def hasVersion (envelope : Envelope) : Bool :=
  match Json.get? envelope "jsonrpc" with
  | some (.str version) => version = "2.0"
  | _ => false

def notification (envelope : Envelope) : Except ClientError Notification :=
  match Json.get? envelope "method" with
  | some (.str method) =>
    if hasVersion envelope then .ok ⟨method, (Json.get? envelope "params").getD .null⟩
    else .error (.connection "Invalid server notification")
  | _ => .error (.connection "Invalid server notification")

/-- Check the error object of an envelope. Returned is the `WireRpcError` that
the caller builds from its members. -/
def validateError (envelope : Envelope) : Except ClientError ClientError :=
  match Json.get? envelope "error" with
  | some (.obj error) =>
    match Json.get? error "code", Json.get? error "message" with
    | some (.int code), some (.str message) =>
      .ok (.rpc code message ((Json.get? error "data").getD .null))
    | _, _ => .error (.connection "Invalid RPC error envelope")
  | _ => .error (.connection "Invalid RPC error envelope")

def validateResponse (envelope : Envelope) (requestId : String) : Except ClientError Unit :=
  if hasVersion envelope ∧ idString envelope = some requestId ∧
      (Json.get? envelope "result").isSome ≠ (Json.get? envelope "error").isSome then
    if (Json.get? envelope "error").isSome then
      match validateError envelope with
      | .ok _ => .ok ()
      | .error e => .error e
    else .ok ()
  else .error (.connection "Invalid RPC response envelope")

/-- The reply to a call is an object that answers its id. -/
def response (message : Json) (requestId : String) : Except ClientError Envelope :=
  match message with
  | .obj envelope =>
    match validateResponse envelope requestId with
    | .ok () => .ok envelope
    | .error e => .error e
  | _ => .error (.connection "Invalid RPC response envelope")

/-- A batch is refused as a whole, with the error given, or answered. -/
inductive BatchReply where
  | refused (e : ClientError)
  | envelopes (es : List Envelope)

/-- The loop over the envelopes of a batch reply. Looking up a list or an object
in a set is a `TypeError`. -/
def checkEnvelopes (expected : Finset String) :
    List Json → Finset String → Except ClientError (List Envelope)
  | [], seen =>
    if seen = expected then .ok [] else .error (.connection "Invalid RPC batch response")
  | .obj envelope :: rest, seen =>
    match Json.get? envelope "id" with
    | some (.str id) =>
      if id ∈ expected ∧ id ∉ seen then
        match validateResponse envelope id with
        | .ok () =>
          match checkEnvelopes expected rest (insert id seen) with
          | .ok envelopes => .ok (envelope :: envelopes)
          | .error e => .error e
        | .error e => .error e
      else .error (.connection "Invalid RPC batch response")
    | some (.arr _) => .error .type
    | some (.obj _) => .error .type
    | _ => .error (.connection "Invalid RPC batch response")
  | _ :: _, _ => .error (.connection "Invalid RPC batch response")

/-- A batch reply is a list with one response for each expected id, or a single
error object with a null id. -/
def batchResponse (expected : Finset String) (message : Json) : Except ClientError BatchReply :=
  match message with
  | .obj envelope =>
    match (Json.get? envelope "id").getD .null with
    | .null =>
      if (Json.get? envelope "error").isSome then
        match validateError envelope with
        | .ok e => .ok (.refused e)
        | .error e => .error e
      else .error (.connection "Invalid RPC batch response")
    | _ => .error (.connection "Invalid RPC batch response")
  | .arr envelopes =>
    match checkEnvelopes expected envelopes ∅ with
    | .ok es => .ok (.envelopes es)
    | .error e => .error e
  | _ => .error (.connection "Invalid RPC batch response")

/-- One entry of what `batch` returns. -/
inductive Result (R : Type) where
  | none
  | value (r : R)
  | failed (e : ClientError)

/-- A converted result, or the error of the envelope, returned and not raised. -/
def resultOf (responseType : Json → Option R) (envelope : Envelope) :
    Except ClientError (Result R) :=
  match Json.get? envelope "error" with
  | some _ =>
    match validateError envelope with
    | .ok e => .ok (.failed e)
    | .error e => .error e
  | none =>
    match Json.get? envelope "result" with
    | some v =>
      match responseType v with
      | some r => .ok (.value r)
      | none => .error .conversion
    | none => .error .key

/-- `by_id`: later envelopes replace earlier ones. -/
def byId (envelopes : List Envelope) (id : String) : Option Envelope :=
  envelopes.reverse.find? fun envelope => idString envelope = some id

def batchResults (envelopes : List Envelope) :
    List (BatchItem R) → List (Option String) → Except ClientError (List (Result R))
  | .call _ responseType _ :: items, some id :: ids =>
    match byId envelopes id with
    | none => .error .key
    | some envelope =>
      match resultOf responseType envelope, batchResults envelopes items ids with
      | .ok r, .ok rs => .ok (r :: rs)
      | .error e, _ => .error e
      | _, .error e => .error e
  | _ :: items, _ :: ids =>
    match batchResults envelopes items ids with
    | .ok rs => .ok (.none :: rs)
    | .error e => .error e
  | _, _ => .ok []

/-- What `batch` does with an accepted reply. -/
def finishBatch (items : List (BatchItem R)) (ids : List (Option String)) :
    BatchReply → Except ClientError (List (Result R))
  | .refused e => .error e
  | .envelopes es => batchResults es items ids

/-- One turn of the loop in `_locked_exchange`: a message is handed over as a
notification, or ends the exchange. -/
inductive Turn (α : Type) where
  | delivers (n : Notification)
  | returns (r : Except ClientError α)

def readMessage {α : Type} (c : Codec) (accept : Json → Except ClientError α) (data : Bytes) :
    Turn α :=
  match c.decode data with
  | none => .returns (.error (.connection "RPC channel broken or reply undecodable"))
  | some (.obj envelope) =>
    if isNotification envelope then
      match notification envelope with
      | .ok n => .delivers n
      | .error e => .returns (.error e)
    else .returns (accept (.obj envelope))
  | some message => .returns (accept message)

/-- What an exchange returns is what it made of the decoded message. -/
theorem readMessage_ok {α : Type} {c : Codec} {accept : Json → Except ClientError α} {data : Bytes}
    {r : α} (h : readMessage c accept data = .returns (.ok r)) :
    ∃ message, c.decode data = some message ∧ accept message = .ok r := by
  unfold readMessage at h
  split at h
  · cases h
  · split_ifs at h
    · split at h <;> cases h
    · exact ⟨_, ‹_›, Turn.returns.inj h⟩
  · exact ⟨_, ‹_›, Turn.returns.inj h⟩

end WireRpc.Client
