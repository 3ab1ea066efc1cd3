import WireRpc.Codec
import WireRpc.Library.Tables

/-!
# Session stores

What the session backends share: the record of a session and its text, the operations that
a backend executes, and the public calls that `SessionStoreBase` makes of them. Raw tokens
never reach a backend, only their digests do. `secrets` and `hashlib` are not modelled: a
new token is chosen by the environment and the digest is a parameter.
-/
namespace WireRpc.Sessions
open Library

/-- `ValueError`, `AuthUnavailableError`, and `SessionCapacityError`, which is one of those. -/
inductive SessionError where
  | value
  | unavailable
  | capacity
  deriving DecidableEq

structure SessionRecord where
  principal : String
  payload : List (String × Json)

/-- A principal has 1 to 255 characters, no space or control character among them. -/
def identity (value : String) : Bool :=
  1 ≤ value.length && value.length ≤ 255 &&
    value.toList.all fun c => 33 ≤ c.toNat && c.toNat != 127

/-- The shape of the tokens that a store issues. -/
def valid (token : String) : Bool :=
  token.length == 43 && token.toList.all fun c => c.isAlphanum || c == '_' || c == '-'

def SessionRecord.toJson (record : SessionRecord) : Json :=
  .obj [("principal", .str record.principal), ("payload", .obj record.payload)]

/-- `json.dumps` of a record, up to the escapes of characters that are not ASCII. -/
def SessionRecord.dumps (record : SessionRecord) : Bytes := Json.encode record.toJson

/-- What a character of the text takes with those escapes: a surrogate pair has two. -/
def asciiWidth (c : Char) : ℕ :=
  if 32 ≤ c.toNat ∧ c.toNat < 127 then 1 else if c.toNat < 0x10000 then 6 else 12

/-- `len(value)`. A float takes what `Json.print` writes for it, which is not what `json.dumps`
does. -/
def SessionRecord.length (record : SessionRecord) : ℕ :=
  ((Json.print record.toJson).map asciiWidth).sum

/-- `json.loads(value)['principal']`. -/
def principalOf (value : Bytes) : Option String :=
  match (Json.decode value).bind (·.member "principal") with
  | some (.str principal) => some principal
  | _ => none

/-- The record that `get` reads from a text, unless it is corrupt. -/
def loads (value : Bytes) : Option SessionRecord := do
  let data ← Json.decode value
  match data.member "principal", data.member "payload" with
  | some (.str principal), some (.obj payload) =>
    if identity principal then some ⟨principal, payload⟩ else none
  | _, _ => none

theorem principalOf_dumps (record : SessionRecord) :
    principalOf record.dumps = some record.principal := by
  unfold principalOf SessionRecord.dumps
  rw [Json.decode_encode]
  simp [SessionRecord.toJson]

theorem loads_dumps {record : SessionRecord} (h : identity record.principal = true) :
    loads record.dumps = some record := by
  unfold loads SessionRecord.dumps
  rw [Json.decode_encode]
  simp [SessionRecord.toJson, h]

inductive Operation (κ : Type) where
  | create (key : κ) (value : Bytes)
  | get (key : κ)
  | destroy (key : κ)
  | rotate (key newKey : κ)
  | revoke (principal : String)

/-- What `_execute` returns, as far as its callers look at it. -/
inductive Reply where
  | done
  | found (value : Option Bytes)
  | rotated (b : Bool)
  | revoked (n : ℕ)
  deriving DecidableEq

/-- One call of `_execute`. -/
abbrev Execute (σ κ : Type) := Operation κ → σ → σ × Except SessionError Reply

section
variable {σ κ : Type} (execute : Execute σ κ) (digest : String → κ)

/-- `create` with the token that `secrets` gave out. -/
def create (userId : String) (payload : List (String × Json)) (token : String) (s : σ) :
    σ × Except SessionError String :=
  if identity userId = false then (s, .error .value)
  else
    let record : SessionRecord := ⟨userId, payload⟩
    if record.length > 16384 then (s, .error .value)
    else
      let r := execute (.create (digest token) record.dumps) s
      (r.1, r.2.map fun _ => token)

def get (sessionId : String) (s : σ) : σ × Except SessionError (Option SessionRecord) :=
  if valid sessionId = false then (s, .ok none)
  else
    match execute (.get (digest sessionId)) s with
    | (s, .ok (.found (some value))) =>
      match loads value with
      | some record => (s, .ok (some record))
      | none => (s, .error .unavailable)
    | (s, .error e) => (s, .error e)
    | (s, _) => (s, .ok none)

/-- The principal of a session. -/
def validate (sessionId : String) (s : σ) : σ × Except SessionError (Option String) :=
  let r := get execute digest sessionId s
  (r.1, r.2.map fun record => record.map SessionRecord.principal)

def destroy (sessionId : String) (s : σ) : σ × Except SessionError Unit :=
  if valid sessionId = false then (s, .ok ())
  else
    let r := execute (.destroy (digest sessionId)) s
    (r.1, r.2.map fun _ => ())

/-- `rotate`, to the token that `secrets` gave out. -/
def rotate (sessionId token : String) (s : σ) : σ × Except SessionError (Option String) :=
  if valid sessionId = false then (s, .ok none)
  else
    let r := execute (.rotate (digest sessionId) (digest token)) s
    (r.1, r.2.map fun reply => if reply = .rotated true then some token else none)

def revokeAll (userId : String) (s : σ) : σ × Except SessionError ℕ :=
  if identity userId = false then (s, .error .value)
  else
    let r := execute (.revoke userId) s
    (r.1, r.2.map fun reply => match reply with
      | .revoked n => n
      | _ => 0)

end
def firstToken : String := "aaaaaaaaaaaaaaaaaaaaaaaaaaaaaaaaaaaaaaaaaaa"

def secondToken : String := "bbbbbbbbbbbbbbbbbbbbbbbbbbbbbbbbbbbbbbbbbbb"

/-- It agrees with SHA-256 on the two tokens. -/
def sampleDigest (token : String) : String :=
  Equiv.swap firstToken "66d34fba71f8f450f7e45598853e53bfc23bbd129027cbb131a2f4ffd7878cd0"
    (Equiv.swap secondToken "f01b57226261ae3756b93936e1c4e6b849f9a5b0933fa3b91843bf4195b9d964"
      token)

theorem sampleDigest_injective : Function.Injective sampleDigest :=
  (Equiv.injective _).comp (Equiv.injective _)

end WireRpc.Sessions
