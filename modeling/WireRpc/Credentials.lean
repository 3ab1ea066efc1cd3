import WireRpc.Sessions
import Mathlib.Data.Rat.Defs

/-!
# API keys

The keys that `ApiKeyRecord.from_secret` issues, the header that a client builds of one,
and the checks of `ApiKeyAuth` and `ApiKeyValidator`. SHA-256 and the lookup are parameters,
and a finite float is a rational number.
-/
namespace WireRpc.Credentials
open Sessions

inductive AuthError where
  | value (message : String)
  | unavailable (message : String)
  deriving DecidableEq

/-- `token_text`: 1 to `maximum` printable ASCII characters with no spaces. -/
def tokenText (value : String) (maximum : ℕ) : Bool :=
  1 ≤ value.length && value.length ≤ maximum &&
    value.toList.all fun c => 0x21 ≤ c.toNat && c.toNat ≤ 0x7e

/-- `validated`: a validator that fails is not one that rejects. -/
def validated (validate : String → Except AuthError (Option String)) (value : String) :
    Except AuthError (Option String) :=
  match validate value with
  | .ok none => .ok none
  | .ok (some principal) =>
    if identity principal then .ok (some principal)
    else .error (.unavailable "Authentication backend unavailable")
  | .error (.unavailable message) => .error (.unavailable message)
  | .error _ => .error (.unavailable "Authentication backend unavailable")

/-- `[0-9a-f]{64}`. -/
def isHexDigest (text : String) : Bool :=
  text.length == 64 && text.toList.all fun c => c.isDigit || ('a' ≤ c && c ≤ 'f')

/-- The hex digest of the UTF-8 bytes of a text. -/
structure Sha256 where
  hexdigest : String → String
  isHex : ∀ text, isHexDigest (hexdigest text) = true

/-- What `__post_init__` accepts. -/
structure ApiKeyRecord where
  principal : String
  secretDigest : String
  expiresAt : Option ℚ
  enabled : Bool
  principal_valid : identity principal = true
  digest_valid : isHexDigest secretDigest = true

section
variable (hash : Sha256)

/-- `ApiKeyRecord.from_secret`. -/
def fromSecret (principal secret : String) (expiresAt : Option ℚ) :
    Except AuthError ApiKeyRecord :=
  if h : identity principal = true then
    if !tokenText secret 4096 || secret.length < 32 then
      .error (.value
        "API keys require at least 32 characters of high-entropy secret material")
    else .ok ⟨principal, hash.hexdigest secret, expiresAt, true, h, hash.isHex secret⟩
  else .error (.value
    "Identity must be a bounded nonempty string without whitespace or controls")

/-- `token.split('.', 1)`. -/
def splitDot (token : String) : String × String :=
  (String.ofList (token.toList.takeWhile (· ≠ '.')),
    String.ofList (token.toList.dropWhile (· ≠ '.')).tail)

/-- `ApiKeyValidator.validate` at the time `now`. An unknown id is refused after its secret
was hashed, and the principal of a record is an identity already. -/
def validate (lookup : String → Except AuthError (Option ApiKeyRecord)) (now : ℚ)
    (token : String) : Except AuthError (Option String) :=
  if !tokenText token 4096 || '.' ∉ token.toList then .ok none
  else
    let (keyId, secret) := splitDot token
    if !(1 ≤ keyId.length && keyId.length ≤ 128) || secret.length < 32 then .ok none
    else
      match lookup keyId with
      | .error _ => .error (.unavailable "API key backend unavailable")
      | .ok none => .ok none
      | .ok (some record) =>
        if hash.hexdigest secret != record.secretDigest || !record.enabled then .ok none
        else if record.expiresAt.any (· ≤ now) then .ok none
        else .ok (some record.principal)

end

/-- `[A-Za-z0-9-]{1,64}`. -/
def isHeaderName (name : String) : Bool :=
  1 ≤ name.length && name.length ≤ 64 && name.toList.all fun c => c.isAlphanum || c == '-'

/-- The headers of a request, in order. -/
abbrev Headers := List (String × String)

/-- `credential_headers`. -/
def credentialHeaders (bearer apiKey : Option String) (apiKeyHeader : String) :
    Except AuthError Headers :=
  match bearer, apiKey with
  | some token, none =>
    if !isHeaderName apiKeyHeader then .error (.value "Invalid header name")
    else if !tokenText token 16384 then .error (.value "Invalid credential")
    else .ok [("Authorization", "Bearer " ++ token)]
  | none, some token =>
    if !isHeaderName apiKeyHeader then .error (.value "Invalid header name")
    else if !tokenText token 16384 then .error (.value "Invalid credential")
    else .ok [(apiKeyHeader, token)]
  | _, _ => .error (.value "Choose exactly one credential scheme")

/-- Names of headers are compared without regard to case. -/
def sameName (name other : String) : Bool := name.toLower == other.toLower

structure Request where
  secure : Bool
  headers : Headers

/-- `request.headers.getall`. -/
def Request.getall (request : Request) (name : String) : List String :=
  (request.headers.filter fun header => sameName header.1 name).map Prod.snd

/-- What the constructor accepts. -/
structure ApiKeyAuth where
  header : String
  requireTls : Bool
  valid : isHeaderName header = true

/-- `ApiKeyAuth.verify`. -/
def ApiKeyAuth.verify (auth : ApiKeyAuth) (validator : String → Except AuthError (Option String))
    (request : Request) : Except AuthError (Option String) :=
  if auth.requireTls && !request.secure then .ok none
  else
    match request.getall auth.header with
    | [value] => if tokenText value 4096 then validated validator value else .ok none
    | _ => .ok none

end WireRpc.Credentials
