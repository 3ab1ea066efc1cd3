import WireRpc.Sessions
import WireRpc.Library.Framing
import WireRpc.Library.Raising

/-!
# The HMAC handshake over TCP

`HmacChallengeAuth.verify`, on what a peer sends. Each await may end with an exception: a
timeout, a broken connection, a cancellation. The nonce is chosen by the environment, and
`hmac.digest` and `hashlib.sha256` are parameters.
-/
namespace WireRpc.HmacHandshake
open Library Framing Sessions

/-- What ends a handshake. -/
inductive Fault where
  | permission (reason : String)
  | unicode
  | connection
  | timeout
  | incomplete
  | other
  deriving DecidableEq

/-- `verify` answers these with `None`, and passes on anything else. -/
def Fault.handled : Fault → Bool
  | .other => false
  | _ => true

inductive Exchange where
  | received (data : Bytes)
  | wrote (data : Bytes)
  deriving DecidableEq

/-- The reader and the writer. `input` is what the peer sends that has not been read yet,
`faults` tells for each await to come whether it raises, and `log` is the history: the frames
read and written. `verified` is the entry of the writer in `_verified`. -/
structure Connection where
  tls : Bool
  input : Bytes
  faults : List (Option Fault)
  log : List Exchange
  closed : Bool
  verified : Option (String × Bytes)

abbrev Handshake (α : Type) := EStateM Fault Connection α

def await : Handshake Unit := do
  let conn ← get
  match conn.faults with
  | [] => pure ()
  | none :: faults => set { conn with faults := faults }
  | some fault :: faults =>
    set { conn with faults := faults }
    throw fault

def readexactly (n : ℕ) : Handshake Bytes := do
  await
  let conn ← get
  if conn.input.length < n then throw .incomplete
  else
    set { conn with input := conn.input.drop n }
    return conn.input.take n

/-- `_read`. -/
def read (maximum : ℕ) : Handshake Bytes := do
  let header ← readexactly 4
  let length := fromBytes header
  if 0 < length ∧ length ≤ maximum then
    let data ← readexactly length
    modify fun conn => { conn with log := conn.log ++ [.received data] }
    return data
  else throw (.permission "Invalid authentication frame")

/-- `_write`. -/
def write (data : Bytes) : Handshake Unit := do
  modify fun conn => { conn with log := conn.log ++ [.wrote data] }
  await

/-- `_tls`. -/
def checkTls (required : Bool) : Handshake Unit := do
  if required && !(← get).tls then throw (.permission "Authentication requires TLS")
  else pure ()

/-- `bytes.decode('utf-8')`. -/
def decodeText (bytes : Bytes) : Option String :=
  bytes.toByteArray.utf8Decode?.map fun chars => String.ofList chars.toList

def encodeText (text : String) : Bytes := text.toList.flatMap String.utf8EncodeChar

theorem decodeText_eq_some {bytes : Bytes} {text : String} (h : decodeText bytes = some text) :
    encodeText text = bytes := by
  obtain ⟨chars, hchars, rfl⟩ := Option.map_eq_some_iff.mp h
  apply List.toByteArray_inj.mp
  have hsome : bytes.toByteArray.utf8Decode?.isSome = true := Option.isSome_of_eq_some hchars
  have hget : bytes.toByteArray.utf8Decode?.get hsome = chars :=
    Option.get_of_eq_some hsome hchars
  unfold encodeText
  rw [String.toList_ofList, ← hget]
  exact ByteArray.utf8Encode_get_utf8Decode?

/-- What the constructor accepts. -/
structure HmacChallengeAuth where
  keys : Table String (String × Bytes)
  requireTls : Bool
  dummy : Bytes
  valid : ∀ keyId principal secret, keys.lookup keyId = some (principal, secret) →
    identity keyId = true ∧ identity principal = true ∧ 32 ≤ secret.length

abbrev Nonce := { nonce : Bytes // nonce.length = 32 }

/-- `b'WRPC-HMAC-1\x00'` and the nonce. -/
def challenge (nonce : Nonce) : Bytes := encodeText "WRPC-HMAC-1" ++ 0 :: nonce.val

def ok : Bytes := encodeText "OK"

section
variable (digest : Bytes → Bytes → Bytes) (sha256 : Bytes → Bytes) (auth : HmacChallengeAuth)
  (nonce : Nonce)

/-- The body of `verify`. -/
def handshake : Handshake String := do
  checkTls auth.requireTls
  let keyBytes ← read 255
  match decodeText keyBytes with
  | none => throw .unicode
  | some keyId =>
    let entry := auth.keys.lookup keyId
    write (challenge nonce)
    let proof ← read 32
    let secret := match entry with
      | some (_, secret) => secret
      | none => auth.dummy
    let expected := digest secret (challenge nonce ++ 0 :: keyBytes)
    match entry, decide (proof = expected) with
    | some (principal, secret), true =>
      write ok
      modify fun conn => { conn with verified := some (keyId, sha256 secret) }
      return principal
    | _, _ => throw (.permission "Invalid credentials")

def verify (conn : Connection) : Except Fault (Option String) × Connection :=
  match (handshake digest sha256 auth nonce).run conn with
  | .ok principal conn => (.ok (some principal), conn)
  | .error fault conn =>
    (if fault.handled then .ok none else .error fault, { conn with closed := true })

def revalidate (conn : Connection) : Option String := do
  let (keyId, fingerprint) ← conn.verified
  let (principal, secret) ← auth.keys.lookup keyId
  if sha256 secret = fingerprint then some principal else none

end

section
variable {conn conn' : Connection}

/-- Nothing but the peer's bytes and the awaits to come may have changed. -/
structure Waited (conn conn' : Connection) : Prop where
  tls : conn'.tls = conn.tls
  log : conn'.log = conn.log
  closed : conn'.closed = conn.closed

theorem await_ends (conn : Connection) :
    Ends await conn (fun _ conn' => Waited conn conn' ∧ conn'.input = conn.input)
      fun _ conn' => Waited conn conn' := by
  obtain ⟨tls, input, faults, log, closed, verified⟩ := conn
  cases faults with
  | nil => exact ⟨⟨rfl, rfl, rfl⟩, rfl⟩
  | cons fault faults =>
    cases fault with
    | none => exact ⟨⟨rfl, rfl, rfl⟩, rfl⟩
    | some fault => exact ⟨rfl, rfl, rfl⟩

theorem readexactly_ends (n : ℕ) (conn : Connection) :
    Ends (readexactly n) conn
      (fun data conn' => Waited conn conn' ∧ conn.input = data ++ conn'.input ∧ data.length = n)
      fun _ conn' => Waited conn conn' := by
  unfold readexactly
  refine (await_ends conn).bind fun _ t ht => ?_
  obtain ⟨hwaited, hinput⟩ := ht
  show Ends (if t.input.length < n then _ else _) t _ _
  split_ifs with hshort
  · exact Ends.throw hwaited
  · refine ⟨⟨hwaited.tls, hwaited.log, hwaited.closed⟩, ?_, ?_⟩
    · rw [← hinput]
      exact (List.take_append_drop n t.input).symm
    · rw [List.length_take]
      omega

/-- What a frame is, is up to `_read`: it is at the front of the input, and not too long. -/
theorem read_ends (maximum : ℕ) (conn : Connection) :
    Ends (read maximum) conn
      (fun data conn' => conn.input = frame 4 data ++ conn'.input ∧ 0 < data.length ∧
        data.length ≤ maximum ∧ conn'.log = conn.log ++ [Exchange.received data] ∧
          conn'.closed = conn.closed)
      fun _ conn' => Waited conn conn' := by
  unfold read
  refine (readexactly_ends 4 conn).bind fun header t ht => ?_
  obtain ⟨hwaited, hheader, hlength⟩ := ht
  show Ends (if 0 < fromBytes header ∧ fromBytes header ≤ maximum then _ else _) t _ _
  split_ifs with hvalid
  · have hread := readexactly_ends (fromBytes header) t
    refine (hread.mono (fun _ _ h => h) fun _ u hu => ?_).bind fun data u hu => ?_
    · exact ⟨hu.tls.trans hwaited.tls, hu.log.trans hwaited.log, hu.closed.trans hwaited.closed⟩
    · obtain ⟨hwaited', hdata, hdatalength⟩ := hu
      refine ⟨?_, ?_, ?_, ?_, ?_⟩
      · rw [frame_of_header hlength hdatalength, hheader, hdata, List.append_assoc]
      · omega
      · omega
      · show u.log ++ [Exchange.received data] = _
        rw [hwaited'.log, hwaited.log]
      · exact hwaited'.closed.trans hwaited.closed
  · exact Ends.throw hwaited

theorem write_ends (data : Bytes) (conn : Connection) :
    Ends (write data) conn
      (fun _ conn' => conn'.log = conn.log ++ [Exchange.wrote data] ∧ conn'.input = conn.input ∧
        conn'.closed = conn.closed)
      fun _ conn' => conn'.log = conn.log ++ [Exchange.wrote data] := by
  have hawait := await_ends { conn with log := conn.log ++ [Exchange.wrote data] }
  exact hawait.mono (fun _ _ h => ⟨h.1.log, h.2, h.1.closed⟩) fun _ _ h => h.log

theorem checkTls_ends (required : Bool) (conn : Connection) :
    Ends (checkTls required) conn
      (fun _ conn' => conn' = conn ∧ (required = true → conn.tls = true))
      fun _ conn' => conn' = conn := by
  unfold checkTls
  show Ends (if required && !conn.tls then _ else _) conn _ _
  split_ifs with hrefused
  · exact Ends.throw rfl
  · refine Ends.pure ⟨rfl, fun hrequired => ?_⟩
    simpa [hrequired] using hrefused

end

/-- The peer sends the two frames first. -/
structure Presents (input keyBytes proof : Bytes) : Prop where
  frames : frame 4 keyBytes ++ frame 4 proof <+: input
  key : keyBytes.length < 256 ^ 4
  proof : proof.length < 256 ^ 4

/-- The two frames can be read in one way. -/
theorem Presents.unique {input key key' proof proof' : Bytes} (h : Presents input key proof)
    (h' : Presents input key' proof') : key = key' ∧ proof = proof' := by
  have hfree {a b tail tail' : Bytes} (ha : a.length < 256 ^ 4) (hb : b.length < 256 ^ 4)
      (heq : frame 4 a ++ tail = frame 4 b ++ tail') : a = b := by
    obtain hle | hle := List.prefix_or_prefix_of_prefix (List.prefix_append (frame 4 a) tail)
      (heq ▸ List.prefix_append (frame 4 b) tail')
    · exact frame_prefixFree a b ha hb hle
    · exact (frame_prefixFree b a hb ha hle).symm
  obtain ⟨rest, hrest⟩ := h.frames
  obtain ⟨rest', hrest'⟩ := h'.frames
  have hinput := hrest.trans hrest'.symm
  rw [List.append_assoc, List.append_assoc] at hinput
  obtain rfl := hfree h.key h'.key hinput
  exact ⟨rfl, hfree h.proof h'.proof (List.append_cancel_left hinput)⟩

section
variable (digest : Bytes → Bytes → Bytes) (sha256 : Bytes → Bytes) (auth : HmacChallengeAuth)
  (nonce : Nonce) (conn : Connection)

/-- The peer is on TLS if it has to be, names a configured key, and proves that it has the
secret: the proof is for this nonce and this key. -/
structure Accepts (keyId : String) (proof : Bytes) (principal : String) : Prop where
  tls : auth.requireTls = true → conn.tls = true
  presented : Presents conn.input (encodeText keyId) proof
  length : 1 ≤ (encodeText keyId).length ∧ (encodeText keyId).length ≤ 255
  entry : ∃ secret, auth.keys.lookup keyId = some (principal, secret) ∧
    proof = digest secret (challenge nonce ++ 0 :: encodeText keyId)

/-- The key of the principal is filed under the writer. -/
def Files (keyId principal : String) : Prop :=
  ∃ secret, auth.keys.lookup keyId = some (principal, secret) ∧
    conn.verified = some (keyId, sha256 secret)

/-- The two frames are read, the second within the bound of a proof, and nothing behind them. -/
def Consumes (keyId : String) (proof rest : Bytes) : Prop :=
  (0 < proof.length ∧ proof.length ≤ 32) ∧
    conn.input = frame 4 (encodeText keyId) ++ frame 4 proof ++ rest

/-- What has been read and written once the peer is told that it was accepted. -/
def exchanged (keyId : String) (proof : Bytes) : List Exchange :=
  [.received (encodeText keyId), .wrote (challenge nonce), .received proof, .wrote ok]

/-- If the peer was told that it was accepted, it was. -/
def Honest (conn' : Connection) : Prop :=
  ∃ l, conn'.log = conn.log ++ l ∧ (.wrote ok ∈ l → ∃ keyId proof principal,
    Accepts digest auth nonce conn keyId proof principal ∧ l = exchanged nonce keyId proof)

theorem challenge_ne_ok : challenge nonce ≠ ok := by
  intro h
  have hlength := congrArg List.length h
  rw [challenge, List.length_append, List.length_cons, nonce.property] at hlength
  have hok : ok.length = 2 := rfl
  omega

theorem handshake_ends : Ends (handshake digest sha256 auth nonce) conn
    (fun principal conn' => conn'.closed = conn.closed ∧ ∃ keyId proof,
      Accepts digest auth nonce conn keyId proof principal ∧
        Consumes conn keyId proof conn'.input ∧
          conn'.log = conn.log ++ exchanged nonce keyId proof ∧
            Files sha256 auth conn' keyId principal)
    fun _ conn' => Honest digest auth nonce conn conn' := by
  have hquiet {conn' : Connection} {l : List Exchange} (hlog : conn'.log = conn.log ++ l)
      (hok : .wrote ok ∉ l) : Honest digest auth nonce conn conn' :=
    ⟨l, hlog, fun hmem => absurd hmem hok⟩
  unfold handshake
  refine ((checkTls_ends auth.requireTls conn).mono (fun _ _ h => h) fun _ t ht => ?_).bind
    fun _ t ht => ?_
  · exact hquiet (l := []) (by rw [ht, List.append_nil]) List.not_mem_nil
  obtain ⟨rfl, htls⟩ := ht
  refine ((read_ends 255 t).mono (fun _ _ h => h) fun _ u hu => ?_).bind fun keyBytes u hu => ?_
  · exact hquiet (l := []) (by rw [hu.log, List.append_nil]) List.not_mem_nil
  obtain ⟨hkey, hpos, hshort, hlog, hclosed⟩ := hu
  cases hdecode : decodeText keyBytes with
  | none => exact Ends.throw (hquiet hlog (by simp))
  | some keyId =>
    obtain rfl := decodeText_eq_some hdecode
    refine ((write_ends (challenge nonce) u).mono (fun _ _ h => h) fun _ v hv => ?_).bind
      fun _ v hv => ?_
    · refine hquiet (l := [.received (encodeText keyId), .wrote (challenge nonce)]) ?_ ?_
      · rw [hv, hlog, List.append_assoc]
        rfl
      · simpa using (challenge_ne_ok nonce).symm
    obtain ⟨hlog', hinput, hclosed'⟩ := hv
    have hlog₂ : v.log =
        t.log ++ [Exchange.received (encodeText keyId), .wrote (challenge nonce)] := by
      rw [hlog', hlog, List.append_assoc]
      rfl
    refine ((read_ends 32 v).mono (fun _ _ h => h) fun _ w hw => ?_).bind fun proof w hw => ?_
    · exact hquiet (hw.log.trans hlog₂) (by simpa using (challenge_ne_ok nonce).symm)
    obtain ⟨hproof, hproofpos, hproofshort, hlog₃, hclosed₃⟩ := hw
    have hrefused : Honest digest auth nonce t w := by
      refine hquiet (l := [.received (encodeText keyId), .wrote (challenge nonce),
        .received proof]) ?_ ?_
      · rw [hlog₃, hlog₂, List.append_assoc]
        rfl
      · simpa using (challenge_ne_ok nonce).symm
    cases hentry : auth.keys.lookup keyId with
    | none => exact Ends.throw hrefused
    | some entry =>
      obtain ⟨principal, secret⟩ := entry
      by_cases hexpected : proof = digest secret (challenge nonce ++ 0 :: encodeText keyId)
      · have hframes : t.input = frame 4 (encodeText keyId) ++ frame 4 proof ++ w.input := by
          rw [hkey, ← hinput, hproof, List.append_assoc]
        have haccepts : Accepts digest auth nonce t keyId proof principal :=
          ⟨htls, ⟨⟨w.input, hframes.symm⟩, by omega, by omega⟩, ⟨hpos, hshort⟩, secret, hentry,
            hexpected⟩
        have hlog₄ : w.log ++ [Exchange.wrote ok] = t.log ++ exchanged nonce keyId proof := by
          rw [hlog₃, hlog₂, List.append_assoc, List.append_assoc]
          rfl
        simp only [decide_eq_true hexpected]
        refine ((write_ends ok w).mono (fun _ _ h => h) fun _ x hx => ?_).bind fun _ x hx => ?_
        · exact ⟨_, hx.trans hlog₄, fun _ => ⟨keyId, proof, principal, haccepts, rfl⟩⟩
        · obtain ⟨hlog₅, hinput₅, hclosed₅⟩ := hx
          have hclosed' : x.closed = t.closed := by
            rw [hclosed₅, hclosed₃, hclosed', hclosed]
          have hconsumes : Consumes t keyId proof x.input :=
            ⟨⟨hproofpos, hproofshort⟩, by rw [hinput₅, hframes]⟩
          exact ⟨hclosed', keyId, proof, haccepts, hconsumes, hlog₅.trans hlog₄, secret, hentry,
            rfl⟩
      · simp only [decide_eq_false hexpected]
        exact Ends.throw hrefused

theorem verify_ends (digest : Bytes → Bytes → Bytes) (sha256 : Bytes → Bytes)
    (auth : HmacChallengeAuth) (nonce : Nonce) (conn : Connection) :
    (∃ principal conn' keyId proof,
      verify digest sha256 auth nonce conn = (.ok (some principal), conn') ∧
        Accepts digest auth nonce conn keyId proof principal ∧
        Consumes conn keyId proof conn'.input ∧
        conn'.log = conn.log ++ exchanged nonce keyId proof ∧
        Files sha256 auth conn' keyId principal) ∨
    (∀ principal, (verify digest sha256 auth nonce conn).1 ≠ .ok (some principal)) ∧
      (verify digest sha256 auth nonce conn).2.closed = true ∧
        Honest digest auth nonce conn (verify digest sha256 auth nonce conn).2 := by
  have hends := handshake_ends digest sha256 auth nonce conn
  unfold verify
  cases hrun : (handshake digest sha256 auth nonce).run conn with
  | ok principal conn' =>
    obtain ⟨-, keyId, proof, haccepts, hconsumes, hlog, hfiles⟩ := hends.returned hrun
    exact Or.inl ⟨principal, conn', keyId, proof, rfl, haccepts, hconsumes, hlog, hfiles⟩
  | error fault conn' =>
    have hhonest : Honest digest auth nonce conn conn' := hends.raised hrun
    refine Or.inr ⟨fun principal => ?_, rfl, hhonest⟩
    dsimp only
    split_ifs <;> nofun

variable {digest sha256 auth nonce conn} in
theorem accepts_of_verify {principal : String}
    (h : (verify digest sha256 auth nonce conn).1 = .ok (some principal)) : ∃ keyId proof,
    Accepts digest auth nonce conn keyId proof principal ∧
      Consumes conn keyId proof (verify digest sha256 auth nonce conn).2.input ∧
        Files sha256 auth (verify digest sha256 auth nonce conn).2 keyId principal := by
  obtain ⟨q, conn', keyId, proof, heq, haccepts, hconsumes, -, hfiles⟩ | ⟨hnone, -⟩ :=
    verify_ends digest sha256 auth nonce conn
  · rw [heq] at h ⊢
    obtain rfl := Option.some.inj (Except.ok.inj h)
    exact ⟨keyId, proof, haccepts, hconsumes, hfiles⟩
  · exact absurd h (hnone principal)

/-- A proof is for one nonce and one key. -/
theorem Accepts.bound {digest : Bytes → Bytes → Bytes} {auth auth' : HmacChallengeAuth}
    {nonce nonce' : Nonce} {conn conn' : Connection} {keyId keyId' principal principal' : String}
    {proof : Bytes}
    (hdigest : ∀ secret secret' message message',
      digest secret message = digest secret' message' → message = message')
    (h : Accepts digest auth nonce conn keyId proof principal)
    (h' : Accepts digest auth' nonce' conn' keyId' proof principal') :
    nonce = nonce' ∧ encodeText keyId = encodeText keyId' := by
  obtain ⟨secret, -, hproof⟩ := h.entry
  obtain ⟨secret', -, hproof'⟩ := h'.entry
  have hmessage := hdigest _ _ _ _ (hproof.symm.trans hproof')
  have hlength : (challenge nonce).length = (challenge nonce').length := by
    simp [challenge, nonce.property, nonce'.property]
  obtain ⟨hchallenge, hkey⟩ := List.append_inj hmessage hlength
  obtain ⟨-, hnonce⟩ := List.append_inj hchallenge rfl
  exact ⟨Subtype.ext (List.cons.inj hnonce).2, (List.cons.inj hkey).2⟩

end

theorem decodeText_encodeText (text : String) : decodeText (encodeText text) = some text := by
  have hbytes : (encodeText text).toByteArray = text.toList.utf8Encode := rfl
  rw [decodeText, hbytes, List.utf8Decode?_utf8Encode, Option.map_some, List.toList_toArray,
    String.ofList_toList]

section
variable {conn : Connection} {data rest : Bytes}

theorem await_quiet (hfaults : conn.faults = []) :
    Ends await conn (fun _ conn' => conn' = conn) fun _ _ => False := by
  obtain ⟨tls, input, faults, log, closed, verified⟩ := conn
  subst hfaults
  exact rfl

theorem readexactly_quiet (hfaults : conn.faults = []) (hinput : conn.input = data ++ rest) :
    Ends (readexactly data.length) conn
      (fun bytes conn' => bytes = data ∧ conn' = { conn with input := rest })
      fun _ _ => False := by
  unfold readexactly
  refine (await_quiet hfaults).bind fun _ t ht => ?_
  subst ht
  have hlong : ¬ t.input.length < data.length := by
    rw [hinput, List.length_append]
    omega
  show Ends (if t.input.length < data.length then _ else _) t _ _
  rw [if_neg hlong]
  refine ⟨?_, ?_⟩
  · show t.input.take data.length = data
    rw [hinput, List.take_left]
  · show { t with input := t.input.drop data.length } = _
    rw [hinput, List.drop_left]

theorem read_quiet {maximum : ℕ} (hfaults : conn.faults = [])
    (hinput : conn.input = frame 4 data ++ rest) (hlt : data.length < 256 ^ 4)
    (hlength : 0 < data.length ∧ data.length ≤ maximum) :
    Ends (read maximum) conn
      (fun bytes conn' => bytes = data ∧
        conn' = { conn with input := rest, log := conn.log ++ [Exchange.received data] })
      fun _ _ => False := by
  have hheader : (toBytes 4 data.length).length = 4 := length_toBytes 4 data.length
  have hfirst : conn.input = toBytes 4 data.length ++ (data ++ rest) := by
    rw [hinput, frame, List.append_assoc]
  have hread := readexactly_quiet hfaults hfirst
  rw [hheader] at hread
  unfold read
  refine hread.bind fun header t ht => ?_
  obtain ⟨rfl, ht⟩ := ht
  have hquiet : t.faults = [] := by rw [ht, hfaults]
  have hrest : t.input = data ++ rest := by rw [ht]
  show Ends (if 0 < fromBytes (toBytes 4 data.length) ∧ _ then _ else _) _ _ _
  rw [fromBytes_toBytes hlt, if_pos hlength]
  refine (readexactly_quiet hquiet hrest).bind fun bytes u hu => ?_
  obtain ⟨rfl, rfl⟩ := hu
  subst ht
  exact ⟨rfl, rfl⟩

theorem write_quiet (hfaults : conn.faults = []) (data : Bytes) :
    Ends (write data) conn
      (fun _ conn' => conn' = { conn with log := conn.log ++ [Exchange.wrote data] })
      fun _ _ => False := by
  have hquiet : { conn with log := conn.log ++ [Exchange.wrote data] }.faults = [] := hfaults
  exact await_quiet hquiet

theorem checkTls_quiet {required : Bool} (htls : required = true → conn.tls = true) :
    Ends (checkTls required) conn (fun _ conn' => conn' = conn) fun _ _ => False := by
  unfold checkTls
  show Ends (if required && !conn.tls then _ else _) conn _ _
  split_ifs with hrefused
  · obtain ⟨hrequired, hplain⟩ := Bool.and_eq_true_iff.mp hrefused
    simp [htls hrequired] at hplain
  · exact Ends.pure rfl

end

section
variable {digest : Bytes → Bytes → Bytes} (sha256 : Bytes → Bytes) {auth : HmacChallengeAuth}
  {nonce : Nonce} {conn : Connection} {keyId principal : String} {proof : Bytes}

theorem handshake_quiet (hfaults : conn.faults = [])
    (h : Accepts digest auth nonce conn keyId proof principal)
    (hproof : 0 < proof.length ∧ proof.length ≤ 32) :
    Ends (handshake digest sha256 auth nonce) conn (fun name _ => name = principal)
      fun _ _ => False := by
  obtain ⟨rest, hrest⟩ := h.presented.frames
  obtain ⟨secret, hentry, hexpected⟩ := h.entry
  unfold handshake
  refine (checkTls_quiet h.tls).bind fun _ t ht => ?_
  obtain rfl := ht
  have hinput : t.input = frame 4 (encodeText keyId) ++ (frame 4 proof ++ rest) := by
    rw [← hrest, List.append_assoc]
  refine (read_quiet hfaults hinput h.presented.key h.length).bind fun keyBytes u hu => ?_
  obtain ⟨rfl, hu⟩ := hu
  have hquiet : u.faults = [] := by rw [hu, hfaults]
  simp only [decodeText_encodeText, hentry]
  refine (write_quiet hquiet (challenge nonce)).bind fun _ v hv => ?_
  have hquiet' : v.faults = [] := by rw [hv, hquiet]
  have hinput' : v.input = frame 4 proof ++ rest := by rw [hv, hu]
  refine (read_quiet hquiet' hinput' h.presented.proof hproof).bind fun bytes w hw => ?_
  obtain ⟨rfl, hw⟩ := hw
  have hquiet'' : w.faults = [] := by rw [hw, hquiet']
  simp only [decide_eq_true hexpected]
  exact (write_quiet hquiet'' ok).bind fun _ _ _ => rfl

/-- A peer that knows the secret of a key is accepted when no await fails. -/
theorem verify_accepts (hfaults : conn.faults = [])
    (h : Accepts digest auth nonce conn keyId proof principal)
    (hproof : 0 < proof.length ∧ proof.length ≤ 32) :
    (verify digest sha256 auth nonce conn).1 = .ok (some principal) := by
  have hends := handshake_quiet sha256 hfaults h hproof
  unfold verify
  cases hrun : (handshake digest sha256 auth nonce).run conn with
  | ok name conn' =>
    obtain rfl := hends.returned hrun
    rfl
  | error fault conn' => exact (hends.raised hrun).elim

/-- `revalidate` goes by the key that was filed, whose secret must still have the fingerprint. -/
theorem revalidate_iff {auth' : HmacChallengeAuth} {name : String} {secret : Bytes}
    (hverified : conn.verified = some (keyId, sha256 secret)) :
    revalidate sha256 auth' conn = some name ↔
      ∃ secret', auth'.keys.lookup keyId = some (name, secret') ∧
        sha256 secret' = sha256 secret := by
  simp only [revalidate, hverified, Option.bind_eq_bind, Option.bind_some]
  constructor
  · intro hname
    obtain ⟨⟨name', secret'⟩, hentry, hname⟩ := Option.bind_eq_some_iff.mp hname
    obtain ⟨hsame, hname⟩ := Option.ite_none_right_eq_some.mp hname
    obtain rfl := Option.some.inj hname
    exact ⟨secret', hentry, hsame⟩
  · rintro ⟨secret', hentry, hsame⟩
    rw [hentry, Option.bind_some, if_pos hsame]

end

def service : HmacChallengeAuth where
  keys := AList.singleton "service" ("principal", List.replicate 32 115)
  requireTls := false
  dummy := List.replicate 32 0
  valid keyId principal secret h := by
    cases List.mem_singleton.mp (AList.mem_lookup_iff.mp h)
    decide

def firstNonce : Nonce := ⟨List.replicate 32 97, rfl⟩

def secondNonce : Nonce := ⟨List.replicate 32 98, rfl⟩

/-- `service` once its secret has been changed. -/
def rotated : HmacChallengeAuth where
  keys := AList.singleton "service" ("principal", List.replicate 32 116)
  requireTls := false
  dummy := List.replicate 32 0
  valid keyId principal secret h := by
    cases List.mem_singleton.mp (AList.mem_lookup_iff.mp h)
    decide

def message (nonce : Nonce) : Bytes := challenge nonce ++ 0 :: encodeText "service"

/-- HMAC-SHA256 of the two messages under the key. -/
def firstProof : Bytes :=
  [15, 141, 123, 50, 191, 170, 223, 140, 207, 81, 148, 89, 196, 77, 153, 202, 144, 19, 243, 183,
    52, 142, 237, 139, 35, 119, 164, 60, 92, 143, 161, 193]

def secondProof : Bytes :=
  [141, 152, 225, 143, 48, 201, 186, 215, 46, 69, 254, 239, 115, 170, 22, 111, 51, 89, 131, 101,
    68, 120, 22, 38, 133, 21, 49, 117, 88, 246, 2, 151]

/-- It agrees with HMAC on the two messages. -/
def sampleDigest (_ : Bytes) (m : Bytes) : Bytes :=
  Equiv.swap (message firstNonce) firstProof (Equiv.swap (message secondNonce) secondProof m)

/-- The SHA-256 digest of the secret of `service`. -/
def secretDigest : Bytes :=
  [143, 214, 166, 167, 143, 88, 87, 215, 186, 28, 254, 144, 51, 191, 254, 236, 134, 218, 43, 166,
    164, 189, 96, 166, 248, 51, 32, 157, 157, 62, 57, 13]

/-- It agrees with SHA-256 on the secrets of `service` and of `rotated`. -/
def sampleSha256 (secret : Bytes) : Bytes :=
  if secret = List.replicate 32 115 then secretDigest
  else
    [132, 8, 198, 210, 167, 178, 134, 177, 109, 82, 99, 21, 229, 232, 33, 108, 243, 106, 113, 72,
      205, 187, 214, 224, 100, 118, 44, 215, 94, 197, 174, 102]

def captured : Connection where
  tls := false
  input := frame 4 (encodeText "service") ++ frame 4 firstProof
  faults := []
  log := []
  closed := false
  verified := none

/-- `verify` returns a principal only to a peer that it accepts, and it is the one of the key.
In any other case the writer is closed. `OK` is the last thing written, and only to a peer
that was accepted. If no two messages have the same digest, a proof that was accepted is of
no use with another nonce or another key. -/
theorem handshake_sound (digest : Bytes → Bytes → Bytes) (sha256 : Bytes → Bytes) :
    (∀ auth nonce conn principal,
      (verify digest sha256 auth nonce conn).1 = .ok (some principal) → ∃ keyId proof,
        Accepts digest auth nonce conn keyId proof principal) ∧
    (∀ auth nonce conn,
      (∀ principal, (verify digest sha256 auth nonce conn).1 ≠ .ok (some principal)) →
        (verify digest sha256 auth nonce conn).2.closed = true) ∧
    (∀ auth nonce conn, Honest digest auth nonce conn (verify digest sha256 auth nonce conn).2) ∧
    ((∀ secret secret' message message',
        digest secret message = digest secret' message' → message = message') →
      ∀ auth auth' nonce nonce' conn conn' key key' proof principal,
        (verify digest sha256 auth nonce conn).1 = .ok (some principal) →
        Presents conn.input key proof → Presents conn'.input key' proof →
        nonce ≠ nonce' ∨ key ≠ key' →
          ∀ principal', (verify digest sha256 auth' nonce' conn').1 ≠ .ok (some principal')) := by
  have hsound {auth : HmacChallengeAuth} {nonce : Nonce} {conn : Connection} {principal : String}
      (h : (verify digest sha256 auth nonce conn).1 = .ok (some principal)) :
      ∃ keyId proof, Accepts digest auth nonce conn keyId proof principal := by
    obtain ⟨keyId, proof, haccepts, -⟩ := accepts_of_verify h
    exact ⟨keyId, proof, haccepts⟩
  refine ⟨fun auth nonce conn principal => hsound, fun auth nonce conn hnone => ?_,
    fun auth nonce conn => ?_, fun hdigest auth auth' nonce nonce' conn conn' key key' proof
      principal h hpresents hpresents' hother principal' h' => ?_⟩
  · obtain ⟨principal, conn', keyId, proof, heq, -⟩ | ⟨-, hclosed, -⟩ :=
      verify_ends digest sha256 auth nonce conn
    · exact absurd (congrArg Prod.fst heq) (hnone principal)
    · exact hclosed
  · obtain ⟨principal, conn', keyId, proof, heq, haccepts, -, hlog, -⟩ | ⟨-, -, hhonest⟩ :=
      verify_ends digest sha256 auth nonce conn
    · rw [heq]
      exact ⟨_, hlog, fun _ => ⟨keyId, proof, principal, haccepts, rfl⟩⟩
    · exact hhonest
  · obtain ⟨keyId, proof₁, haccepts⟩ := hsound h
    obtain ⟨keyId', proof₂, haccepts'⟩ := hsound h'
    obtain ⟨rfl, rfl⟩ := hpresents.unique haccepts.presented
    obtain ⟨rfl, rfl⟩ := hpresents'.unique haccepts'.presented
    obtain ⟨hnonce, hkey⟩ := haccepts.bound hdigest haccepts'
    obtain hother | hother := hother
    · exact hother hnonce
    · exact hother hkey

theorem handshake_sound_replayed :
    (verify sampleDigest id service firstNonce captured).1 = .ok (some "principal") ∧
      ∀ principal,
        (verify sampleDigest id service secondNonce captured).1 ≠ .ok (some principal) := by
  have haccepted : (verify sampleDigest id service firstNonce captured).1 =
      .ok (some "principal") := by
    decide +kernel
  have hdigest (secret secret' m m' : Bytes) (h : sampleDigest secret m = sampleDigest secret' m') :
      m = m' := (Equiv.injective _) ((Equiv.injective _) h)
  have hpresents : Presents captured.input (encodeText "service") firstProof :=
    ⟨List.prefix_rfl, by decide, by decide⟩
  obtain ⟨-, -, -, hreplay⟩ := handshake_sound sampleDigest id
  refine ⟨haccepted, ?_⟩
  exact hreplay hdigest service service firstNonce secondNonce captured captured _ _ firstProof
    "principal" haccepted hpresents hpresents (Or.inl (by decide))

/-- When no await fails, `verify` returns the principal of a key to whoever presents the proof
for it, in a frame that a proof fits in, and to nobody else. In any case it has read the two
frames and nothing behind them, and from then on `revalidate` answers with the principal that
the same key has in the table at that time, as long as its secret has the same digest. -/
theorem admits_iff (digest : Bytes → Bytes → Bytes) (sha256 : Bytes → Bytes)
    (auth : HmacChallengeAuth) (nonce : Nonce) (conn : Connection) (principal : String) :
    (conn.faults = [] → ((verify digest sha256 auth nonce conn).1 = .ok (some principal) ↔
      ∃ keyId proof, Accepts digest auth nonce conn keyId proof principal ∧
        0 < proof.length ∧ proof.length ≤ 32)) ∧
    ((verify digest sha256 auth nonce conn).1 = .ok (some principal) → ∃ keyId proof secret,
      Consumes conn keyId proof (verify digest sha256 auth nonce conn).2.input ∧
      auth.keys.lookup keyId = some (principal, secret) ∧
      ∀ auth' name,
        revalidate sha256 auth' (verify digest sha256 auth nonce conn).2 = some name ↔
          ∃ secret', auth'.keys.lookup keyId = some (name, secret') ∧
            sha256 secret' = sha256 secret) := by
  refine ⟨fun hfaults => ⟨fun h => ?_, fun ⟨keyId, proof, haccepts, hproof⟩ => ?_⟩, fun h => ?_⟩
  · obtain ⟨keyId, proof, haccepts, hconsumes, -⟩ := accepts_of_verify h
    exact ⟨keyId, proof, haccepts, hconsumes.1⟩
  · exact verify_accepts sha256 hfaults haccepts hproof
  · obtain ⟨keyId, proof, -, hconsumes, secret, hentry, hverified⟩ := accepts_of_verify h
    exact ⟨keyId, proof, secret, hconsumes, hentry, fun auth' name =>
      revalidate_iff sha256 hverified⟩

/-- The peer is accepted, and stays so until the secret of its key is changed. -/
theorem admits_iff_rotated :
    (verify sampleDigest sampleSha256 service firstNonce captured).1 = .ok (some "principal") ∧
      revalidate sampleSha256 service
        (verify sampleDigest sampleSha256 service firstNonce captured).2 = some "principal" ∧
      ∀ name, revalidate sampleSha256 rotated
        (verify sampleDigest sampleSha256 service firstNonce captured).2 ≠ some name := by
  obtain ⟨hadmits, hafter⟩ :=
    admits_iff sampleDigest sampleSha256 service firstNonce captured "principal"
  have haccepts : Accepts sampleDigest service firstNonce captured "service" firstProof
      "principal" := by
    refine ⟨nofun, ⟨List.prefix_rfl, by decide, by decide⟩, by decide, List.replicate 32 115, ?_⟩
    decide +kernel
  have hverify := (hadmits rfl).mpr ⟨"service", firstProof, haccepts, by decide, by decide⟩
  obtain ⟨keyId, proof, secret, -, hentry, hagain⟩ := hafter hverify
  cases List.mem_singleton.mp (AList.mem_lookup_iff.mp hentry)
  refine ⟨hverify, (hagain service "principal").mpr ⟨_, by decide, rfl⟩, fun name hname => ?_⟩
  obtain ⟨secret', hrotated, hsame⟩ := (hagain rotated name).mp hname
  cases List.mem_singleton.mp (AList.mem_lookup_iff.mp hrotated)
  exact absurd hsame (by decide)

end WireRpc.HmacHandshake
