import WireRpc.Codec

/-!
# Request and response envelopes

The JSON-RPC 2.0 messages as the server and the client build them, and the
conversion of a decoded value to a request, which is where ids, method names
and the protocol version are checked.
-/
namespace WireRpc
open Library

/-- The id of a response: `str | int | None`. -/
inductive RequestId where
  | null
  | int (n : ℤ)
  | str (s : String)
  deriving DecidableEq, Repr

namespace RequestId

def toJson : RequestId → Json
  | null => .null
  | int n => .int n
  | str s => .str s

/-- The ids a request may carry. -/
def Allowed : RequestId → Prop
  | null => True
  | int n => -2 ^ 63 ≤ n ∧ n ≤ 2 ^ 63 - 1
  | str s => s.length ≤ 255

instance (i : RequestId) : Decidable i.Allowed :=
  match i with
  | null => inferInstanceAs (Decidable True)
  | int n => inferInstanceAs (Decidable (-2 ^ 63 ≤ n ∧ n ≤ 2 ^ 63 - 1))
  | str s => inferInstanceAs (Decidable (s.length ≤ 255))

/-- The id a decoded value stands for. Booleans and floats are not ids. -/
def ofJson : Json → Option RequestId
  | .null => some null
  | .int n => some (int n)
  | .str s => some (str s)
  | _ => none

@[simp] theorem ofJson_toJson (i : RequestId) : ofJson i.toJson = some i := by cases i <;> rfl

end RequestId

/-- A request whose params are not converted yet. An `id` of `none` is UNSET,
which makes it a notification; missing params are `null`. -/
structure RawWireRequest where
  method : String
  id : Option RequestId
  params : Json
  deriving Repr

namespace RawWireRequest

/-- The id of the response: null for a notification. -/
def responseId (r : RawWireRequest) : RequestId := r.id.getD .null

def idField : Option RequestId → List (String × Json)
  | none => []
  | some i => [("id", i.toJson)]

/-- A struct is encoded in the order of its fields; an unset field is left out. -/
def toJson (r : RawWireRequest) : Json :=
  .obj ([("method", .str r.method)] ++ idField r.id ++
    [("params", r.params), ("jsonrpc", .str "2.0")])

end RawWireRequest

/-- Method names have 1 to 255 characters. -/
def ValidMethod (method : String) : Prop := 1 ≤ method.length ∧ method.length ≤ 255

instance (method : String) : Decidable (ValidMethod method) :=
  inferInstanceAs (Decidable (_ ∧ _))

/-- A missing id is UNSET, an id that is not allowed fails the conversion. -/
def convertId : Option Json → Option (Option RequestId)
  | none => some none
  | some v =>
    match RequestId.ofJson v with
    | some i => if i.Allowed then some (some i) else none
    | none => none

/-- `codec.convert(obj, RawWireRequest)`: the checks the struct's annotations
declare. A missing version takes its default, unknown members are ignored. -/
def convert : Json → Option RawWireRequest
  | .obj fields =>
    match Json.get? fields "method", convertId (Json.get? fields "id"),
        (Json.get? fields "jsonrpc").getD (.str "2.0") with
    | some (.str method), some id, .str version =>
      if ValidMethod method ∧ version = "2.0" then
        some ⟨method, id, (Json.get? fields "params").getD .null⟩
      else none
    | _, _, _ => none
  | _ => none

/-- The error classes, each with its own code. -/
inductive ErrorKind where
  | parse
  | invalidRequest
  | methodNotFound
  | invalidParams
  | internal
  | server (code : ℤ)
  deriving DecidableEq, Repr

def ErrorKind.code : ErrorKind → ℤ
  | parse => -32700
  | invalidRequest => -32600
  | methodNotFound => -32601
  | invalidParams => -32602
  | internal => -32603
  | server code => code

structure WireError where
  kind : ErrorKind
  message : String
  data : Json := .null

namespace WireError

def code (e : WireError) : ℤ := e.kind.code

/-- `ServerError` declares its code before its data, the others after it. -/
def toJson (e : WireError) : Json :=
  match e.kind with
  | .server code => .obj [("message", .str e.message), ("code", .int code), ("data", e.data)]
  | kind => .obj [("message", .str e.message), ("data", e.data), ("code", .int kind.code)]

end WireError

/-- A response envelope. A `result` of `none` is an object no codec encodes. -/
inductive WireResponse where
  | success (result : Option Json) (id : RequestId)
  | error (error : WireError) (id : RequestId)

namespace WireResponse

def id : WireResponse → RequestId
  | success _ id => id
  | error _ id => id

def errorJson (e : WireError) (id : RequestId) : Json :=
  .obj [("error", e.toJson), ("id", id.toJson), ("jsonrpc", .str "2.0")]

def successJson (result : Json) (id : RequestId) : Json :=
  .obj [("result", result), ("id", id.toJson), ("jsonrpc", .str "2.0")]

def toJson : WireResponse → Option Json
  | success result id => result.map fun r => successJson r id
  | error e id => some (errorJson e id)

end WireResponse

namespace Codec

/-- `codec.encode(response)`. -/
def encodeResponse (c : Codec) (r : WireResponse) : Option Bytes := r.toJson.bind c.encode

/-- Error envelopes hold only strings, integers and null, and are always encoded. This asks it
for ids of any size, of which the decoder of a format yields only those it has. -/
def EncodesErrors (c : Codec) : Prop :=
  ∀ kind message id, (c.encode (WireResponse.errorJson ⟨kind, message, .null⟩ id)).isSome

end Codec

theorem msgSpecJsonCodec_encodesErrors : msgSpecJsonCodec.EncodesErrors := fun _ _ _ => rfl

end WireRpc
