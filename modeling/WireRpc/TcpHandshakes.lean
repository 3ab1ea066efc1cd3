import WireRpc.Credentials
import WireRpc.HmacHandshake
import WireRpc.Library.Dialogues

/-!
# Honest handshakes over TCP

Both sides of the token handshake and of the HMAC handshake as dialogues over the two byte
streams of a connection. No deadline expires, and `drain` returns. The validator, the nonce
and the hash functions are parameters.
-/
namespace WireRpc.TcpHandshakes
open Library Framing Sessions Credentials HmacHandshake

/-- What a side does besides reading and writing: the validator is asked, the writer gets its
entry in `_tokens` or in `_verified`, the writer is closed. -/
inductive Deed where
  | validated (token : String)
  | filedToken (token : String)
  | filedKey (keyId : String) (fingerprint : Bytes)
  | closed
  deriving DecidableEq

abbrev Talk (α : Type) := Dialogue UInt8 Deed Fault α

def readexactly (n : ℕ) : Talk Bytes := .reads n .done

/-- `_read`. -/
def read (maximum : ℕ) : Talk Bytes := do
  let header ← readexactly 4
  let length := fromBytes header
  if 0 < length ∧ length ≤ maximum then readexactly length
  else .fails (.permission "Invalid authentication frame")

/-- `_write`. -/
def write (data : Bytes) : Talk Unit := .writes (frame 4 data) (.done ())

/-- `_tls`. -/
def checkTls (required tls : Bool) : Talk Unit :=
  if required && !tls then .fails (.permission "Authentication requires TLS") else .done ()

/-- The server closes the writer on any exception, and answers most of them with `None`. -/
def answering (body : Talk String) : Talk (Option String) :=
  body.handle (fun principal => .done (some principal)) fun fault =>
    .tells .closed (if fault.handled then .done none else .fails fault)

/-- The client closes the writer and raises. -/
def closing (body : Talk Unit) : Talk Unit :=
  body.handle .done fun fault => .tells .closed (.fails fault)

/-- `str.encode('ascii')`. -/
def encodeAscii (text : String) : Option Bytes :=
  if text.toList.all fun c => c.toNat < 128 then
    some (text.toList.map fun c => UInt8.ofNat c.toNat)
  else none

/-- `bytes.decode('ascii')`. -/
def decodeAscii (bytes : Bytes) : Option String :=
  if bytes.all fun b => b < 128 then
    some (String.ofList (bytes.map fun b => Char.ofNat b.toNat))
  else none

def tokenVersion : Bytes := encodeText "WRPC-TOKEN-1 "

structure TcpTokenAuth where
  requireTls : Bool

/-- The body of `verify` behind the client's frame. -/
def answerToken (validator : String → Except AuthError (Option String)) (data : Bytes) :
    Talk String :=
  if !tokenVersion.isPrefixOf data then .fails (.permission "Invalid handshake version")
  else
    match decodeAscii (data.drop 13) with
    | none => .fails .unicode
    | some token =>
      if !tokenText token 16000 then .fails (.permission "Invalid token")
      else .tells (.validated token) <|
        match validated validator token with
        | .error _ => .fails .other
        | .ok none => .fails (.permission "Invalid credentials")
        | .ok (some principal) => do
          write ok
          .tells (.filedToken token) (.done principal)

def TcpTokenAuth.verify (auth : TcpTokenAuth)
    (validator : String → Except AuthError (Option String)) (tls : Bool) : Talk (Option String) :=
  answering do
    checkTls auth.requireTls tls
    let data ← read 16384
    answerToken validator data

/-- The client waits to be accepted. -/
def awaitOk : Talk Unit := do
  let reply ← read 2
  if reply ≠ ok then .fails (.permission "Authentication rejected") else .done ()

/-- What the constructor accepts. -/
structure TcpTokenClientAuth where
  token : String
  requireTls : Bool
  valid : tokenText token 16000 = true

def TcpTokenClientAuth.authenticate (auth : TcpTokenClientAuth) (tls : Bool) : Talk Unit :=
  closing do
    checkTls auth.requireTls tls
    match encodeAscii auth.token with
    | none => .fails .unicode
    | some bytes => do
      write (tokenVersion ++ bytes)
      awaitOk

section
variable (digest : Bytes → Bytes → Bytes) (sha256 : Bytes → Bytes)

/-- The body of `HmacChallengeAuth.verify` behind the proof. -/
def answerProof (auth : HmacChallengeAuth) (nonce : Nonce) (keyId : String)
    (keyBytes proof : Bytes) : Talk String :=
  let entry := auth.keys.lookup keyId
  let secret := match entry with
    | some (_, secret) => secret
    | none => auth.dummy
  let expected := digest secret (challenge nonce ++ 0 :: keyBytes)
  match entry, decide (proof = expected) with
  | some (principal, secret), true => do
    write ok
    .tells (.filedKey keyId (sha256 secret)) (.done principal)
  | _, _ => .fails (.permission "Invalid credentials")

/-- The body of `HmacChallengeAuth.verify` behind the key id. -/
def answerKey (auth : HmacChallengeAuth) (nonce : Nonce) (keyBytes : Bytes) : Talk String :=
  match decodeText keyBytes with
  | none => .fails .unicode
  | some keyId => do
    write (challenge nonce)
    let proof ← read 32
    answerProof digest sha256 auth nonce keyId keyBytes proof

def hmacHandshake (auth : HmacChallengeAuth) (nonce : Nonce) (tls : Bool) : Talk String := do
  checkTls auth.requireTls tls
  let keyBytes ← read 255
  answerKey digest sha256 auth nonce keyBytes

def hmacVerify (auth : HmacChallengeAuth) (nonce : Nonce) (tls : Bool) : Talk (Option String) :=
  answering (hmacHandshake digest sha256 auth nonce tls)

/-- What the constructor accepts. -/
structure HmacChallengeClientAuth where
  keyId : String
  secret : Bytes
  requireTls : Bool
  valid : identity keyId = true ∧ (encodeText keyId).length ≤ 255 ∧ 32 ≤ secret.length

/-- `b'WRPC-HMAC-1\x00'`. -/
def hmacVersion : Bytes := encodeText "WRPC-HMAC-1" ++ [0]

/-- The client proves that it has the secret. -/
def prove (auth : HmacChallengeClientAuth) (received : Bytes) : Talk Unit :=
  if received.length ≠ 44 ∨ ¬ hmacVersion.isPrefixOf received then
    .fails (.permission "Invalid challenge")
  else do
    write (digest auth.secret (received ++ 0 :: encodeText auth.keyId))
    awaitOk

def HmacChallengeClientAuth.authenticate (auth : HmacChallengeClientAuth) (tls : Bool) :
    Talk Unit :=
  closing do
    checkTls auth.requireTls tls
    write (encodeText auth.keyId)
    let received ← read 44
    prove digest auth received

end

section
variable {α γ : Type}

/-- What the talk comes to on all that the peer ever sends, up to the end of the stream. -/
def feed (talk : Talk α) (input : Bytes) : Except Fault (α × Bytes) := talk.feed .incomplete input

/-- On a connection on which no await fails, the code ends as the talk does. -/
def Follows (tls : Bool) (code : Handshake α) (talk : Talk α) : Prop :=
  ∀ conn : Connection, conn.faults = [] → conn.tls = tls →
    Ends code conn
      (fun a conn' => feed talk conn.input = .ok (a, conn'.input) ∧ conn'.faults = [] ∧
        conn'.tls = tls)
      fun fault _ => feed talk conn.input = .error fault

theorem Follows.bind {tls : Bool} {code : Handshake α} {talk : Talk α}
    {rest : α → Handshake γ} {next : α → Talk γ} (h : Follows tls code talk)
    (hnext : ∀ a, Follows tls (rest a) (next a)) : Follows tls (code >>= rest) (talk >>= next) := by
  intro conn hfaults htls
  refine ((h conn hfaults htls).mono (fun _ _ h => h) fun fault _ hfault => ?_).bind
    fun a conn' hreturned => ?_
  · rw [feed, Dialogue.feed_bind, ← feed, hfault]
    rfl
  · obtain ⟨hfeed, hfaults', htls'⟩ := hreturned
    rw [feed, Dialogue.feed_bind, ← feed, hfeed]
    exact hnext a conn' hfaults' htls'

theorem follows_throw (tls : Bool) (fault : Fault) :
    Follows tls (throw fault : Handshake α) (.fails fault) :=
  fun _ _ _ => Ends.throw rfl

theorem follows_readexactly (tls : Bool) (n : ℕ) :
    Follows tls (HmacHandshake.readexactly n) (readexactly n) := by
  intro conn hfaults htls
  unfold HmacHandshake.readexactly
  refine ((await_quiet hfaults).mono (fun _ _ h => h) fun _ _ h => h.elim).bind fun _ t ht => ?_
  subst ht
  show Ends (if t.input.length < n then _ else _) t _ _
  simp only [readexactly, feed, Dialogue.feed]
  split_ifs
  · exact Ends.throw rfl
  · exact ⟨rfl, hfaults, htls⟩

/-- The log and the entry of the writer are not what the talk is about. -/
theorem follows_modify (tls : Bool) (a : α) {f : Connection → Connection}
    (hinput : ∀ conn, (f conn).input = conn.input) (hfaults : ∀ conn, (f conn).faults = conn.faults)
    (htls : ∀ conn, (f conn).tls = conn.tls) :
    Follows tls (do modify f; return a) (.done a : Talk α) := by
  intro conn hquiet hconn
  refine ⟨?_, (hfaults conn).trans hquiet, (htls conn).trans hconn⟩
  show Except.ok (a, conn.input) = .ok (a, (f conn).input)
  rw [hinput]

theorem follows_read (tls : Bool) (maximum : ℕ) :
    Follows tls (HmacHandshake.read maximum) (read maximum) := by
  refine (follows_readexactly tls 4).bind fun header => ?_
  simp only
  split_ifs
  · exact (follows_readexactly tls _).bind fun data =>
      follows_modify tls data (fun _ => rfl) (fun _ => rfl) fun _ => rfl
  · exact follows_throw tls _

theorem follows_write (tls : Bool) (data : Bytes) :
    Follows tls (HmacHandshake.write data) (write data) := by
  intro conn hfaults htls
  refine (write_quiet hfaults data).mono (fun _ conn' hconn' => ?_) fun _ _ h => h.elim
  subst hconn'
  exact ⟨rfl, hfaults, htls⟩

theorem follows_checkTls (required tls : Bool) :
    Follows tls (HmacHandshake.checkTls required) (checkTls required tls) := by
  intro conn hfaults htls
  unfold HmacHandshake.checkTls checkTls
  show Ends (if required && !conn.tls then _ else _) conn _ _
  rw [htls]
  split_ifs
  · exact Ends.throw rfl
  · exact Ends.pure ⟨rfl, hfaults, htls⟩

variable (digest : Bytes → Bytes → Bytes) (sha256 : Bytes → Bytes) (auth : HmacChallengeAuth)
  (nonce : Nonce)

theorem follows_handshake (tls : Bool) :
    Follows tls (handshake digest sha256 auth nonce)
      (hmacHandshake digest sha256 auth nonce tls) := by
  refine (follows_checkTls auth.requireTls tls).bind fun _ => ?_
  refine (follows_read tls 255).bind fun keyBytes => ?_
  unfold answerKey
  cases decodeText keyBytes with
  | none => exact follows_throw tls _
  | some keyId =>
    refine (follows_write tls (challenge nonce)).bind fun _ => ?_
    refine (follows_read tls 32).bind fun proof => ?_
    unfold answerProof
    cases auth.keys.lookup keyId with
    | none => exact follows_throw tls _
    | some entry =>
      obtain ⟨principal, secret⟩ := entry
      simp only
      cases decide (proof = digest secret (challenge nonce ++ 0 :: keyBytes)) with
      | false => exact follows_throw tls _
      | true =>
        refine (follows_write tls ok).bind fun _ => ?_
        exact follows_modify tls principal (fun _ => rfl) (fun _ => rfl) fun _ => rfl

/-- On a connection on which no await fails, the talk has a principal as its result exactly if
the peer presents the proof for a key of it. -/
theorem feed_handshake_iff (conn : Connection) (hfaults : conn.faults = []) (principal : String)
    (rest : Bytes) :
    feed (hmacHandshake digest sha256 auth nonce conn.tls) conn.input = .ok (principal, rest) ↔
      ∃ keyId proof, Accepts digest auth nonce conn keyId proof principal ∧
        Consumes conn keyId proof rest := by
  have hfollows := follows_handshake digest sha256 auth nonce conn.tls conn hfaults rfl
  constructor
  · intro hfeed
    cases hrun : (handshake digest sha256 auth nonce).run conn with
    | ok name conn' =>
      obtain ⟨hfeed', -⟩ := hfollows.returned hrun
      obtain ⟨rfl, rfl⟩ := Prod.mk.inj (Except.ok.inj (hfeed'.symm.trans hfeed))
      obtain ⟨-, keyId, proof, haccepts, hconsumes, -⟩ :=
        (handshake_ends digest sha256 auth nonce conn).returned hrun
      exact ⟨keyId, proof, haccepts, hconsumes⟩
    | error fault conn' => nomatch (hfollows.raised hrun).symm.trans hfeed
  · rintro ⟨keyId, proof, haccepts, hproof, hinput⟩
    have hquiet := handshake_quiet sha256 hfaults haccepts hproof
    cases hrun : (handshake digest sha256 auth nonce).run conn with
    | ok name conn' =>
      obtain rfl := hquiet.returned hrun
      obtain ⟨-, keyId', proof', haccepts', hconsumes, -⟩ :=
        (handshake_ends digest sha256 auth nonce conn).returned hrun
      obtain ⟨hkey, rfl⟩ := haccepts.presented.unique haccepts'.presented
      have hrest := hinput.symm.trans hconsumes.2
      rw [hkey] at hrest
      rw [List.append_cancel_left hrest]
      exact (hfollows.returned hrun).1
    | error fault conn' => exact (hquiet.raised hrun).elim

/-- What `verify` does with an exception does not lead to a principal. -/
theorem feed_answering_iff (body : Talk String) (input : Bytes) (principal : String)
    (rest : Bytes) : feed (answering body) input = .ok (some principal, rest) ↔
      feed body input = .ok (principal, rest) := by
  unfold feed answering
  induction body generalizing input with
  | done name => simp [Dialogue.handle, Dialogue.feed]
  | fails fault =>
    simp only [Dialogue.handle, Dialogue.feed]
    split_ifs <;> simp [Dialogue.feed]
  | reads n next ih =>
    simp only [Dialogue.handle, Dialogue.feed]
    split_ifs
    · simp
    · exact ih _ _
  | writes data next ih => exact ih input
  | tells e next ih => exact ih input

end

/-- A connection on which the peer has sent these bytes, and no await fails. -/
def opened (tls : Bool) (input : Bytes) : Connection := ⟨tls, input, [], [], false, none⟩

/-- Whatever the client does and in whatever order and segments things happen: when the server
has ended with a principal, what the client has written begins with the id of a key of this
principal and the proof for it, and the rest is still there for the server to read. Once the
server has got all of it and stands still, it has ended so exactly if the client has written
that. -/
theorem server_admits_iff {γ : Type} (digest : Bytes → Bytes → Bytes) (sha256 : Bytes → Bytes)
    (auth : HmacChallengeAuth) (nonce : Nonce) (tls : Bool) (client : Talk γ)
    (moves : List (Move UInt8)) (link : Link UInt8 Deed Fault γ (Option String))
    (hrun : Machine.run Link.step (Link.start client (hmacVerify digest sha256 auth nonce tls))
      moves = some link) (principal : String) :
    let conn := opened tls
      ((Link.start client (hmacVerify digest sha256 auth nonce tls)).written moves)
    (link.second.dialogue = .done (some principal) → ∃ keyId proof,
      Accepts digest auth nonce conn keyId proof principal ∧
        Consumes conn keyId proof (link.second.buffer ++ link.up)) ∧
    (link.still = true → (link.second.dialogue = .done (some principal) ↔
      ∃ keyId proof rest, Accepts digest auth nonce conn keyId proof principal ∧
        Consumes conn keyId proof rest)) := by
  intro conn
  have hiff (rest : Bytes) := feed_handshake_iff digest sha256 auth nonce conn rfl
    principal rest
  have hproven (hdone : link.second.dialogue = .done (some principal)) : ∃ keyId proof,
      Accepts digest auth nonce conn keyId proof principal ∧
        Consumes conn keyId proof (link.second.buffer ++ link.up) := by
    have hfeed := Link.feed_of_done .incomplete hrun hdone
    exact (hiff _).mp ((feed_answering_iff _ _ _ _).mp hfeed)
  refine ⟨hproven, fun hstill => ⟨fun hdone => ?_, fun ⟨keyId, proof, rest, hpresents⟩ => ?_⟩⟩
  · obtain ⟨keyId, proof, hpresents⟩ := hproven hdone
    exact ⟨keyId, proof, _, hpresents⟩
  · have hfeed := (hiff rest).mpr ⟨keyId, proof, hpresents⟩
    exact Link.done_of_feed hrun ((feed_answering_iff _ _ _ _).mpr hfeed) hstill

/-- A client that has taken down what another one sent, and sends it. -/
def replayer : Talk Unit := .writes captured.input (.done ())

/-- Everything arrives at once, and the server takes so many steps. -/
def replayed (steps : ℕ) : List (Move UInt8) :=
  .firstSteps :: .arrivesUp 47 :: List.replicate steps .secondSteps

/-- What was taken down is of use with the nonce it was made for, and with no other one. -/
theorem server_admits_iff_replayed :
    (∃ link, Machine.run Link.step
        (Link.start replayer (hmacVerify sampleDigest sampleSha256 service firstNonce false))
        (replayed 7) = some link ∧ link.second.dialogue = .done (some "principal")) ∧
      ∃ link, Machine.run Link.step
        (Link.start replayer (hmacVerify sampleDigest sampleSha256 service secondNonce false))
        (replayed 6) = some link ∧ ∀ principal, link.second.dialogue ≠ .done (some principal) := by
  have hpresents : Presents captured.input (encodeText "service") firstProof :=
    ⟨List.prefix_rfl, by decide, by decide⟩
  constructor
  · obtain ⟨link, hrun, hstill⟩ := (Option.any_eq_true Link.still (Machine.run Link.step
      (Link.start replayer (hmacVerify sampleDigest sampleSha256 service firstNonce false))
      (replayed 7))).mp (by decide +kernel)
    obtain ⟨-, hended⟩ := server_admits_iff sampleDigest sampleSha256 service firstNonce false
      replayer (replayed 7) link hrun "principal"
    refine ⟨link, hrun, (hended hstill).mpr ⟨"service", firstProof, [], ⟨nofun, ?_, by decide,
      List.replicate 32 115, by decide, by decide +kernel⟩, by decide, by decide +kernel⟩⟩
    exact ⟨by decide +kernel, by decide, by decide⟩
  · obtain ⟨link, hrun, -⟩ := (Option.any_eq_true Link.still (Machine.run Link.step
      (Link.start replayer (hmacVerify sampleDigest sampleSha256 service secondNonce false))
      (replayed 6))).mp (by decide +kernel)
    refine ⟨link, hrun, fun principal hdone => ?_⟩
    obtain ⟨hproven, -⟩ := server_admits_iff sampleDigest sampleSha256 service secondNonce false
      replayer (replayed 6) link hrun principal
    obtain ⟨keyId, proof, haccepts, -⟩ := hproven hdone
    have hwritten : (Link.start replayer
        (hmacVerify sampleDigest sampleSha256 service secondNonce false)).written (replayed 6) =
          captured.input := by
      decide +kernel
    have hpresented := haccepts.presented
    rw [hwritten] at hpresented
    obtain ⟨hkey, rfl⟩ := hpresents.unique hpresented
    obtain ⟨secret, -, hproof⟩ := haccepts.entry
    rw [← hkey] at hproof
    have hother : sampleDigest [] (message secondNonce) ≠ firstProof := by decide +kernel
    exact hother hproof.symm

/-- What `_read` does behind the length of a frame. -/
def readPayload (maximum length : ℕ) : Talk Bytes :=
  if 0 < length ∧ length ≤ maximum then readexactly length
  else .fails (.permission "Invalid authentication frame")

theorem read_handle {γ : Type} (maximum : ℕ) (next : Bytes → Talk γ) (catches : Fault → Talk γ) :
    (read maximum).handle next catches =
      .reads 4 fun header => (readPayload maximum (fromBytes header)).handle next catches := rfl

section
variable {α γ : Type} {a : α} {b : γ} {work : ℕ} {up down : Bytes} {tells tells' : List Deed}

/-- The second side reads the frame that is next on its way. -/
theorem secondReadsFrame {maximum : ℕ} {data : Bytes} {first : Talk α}
    {next : Bytes → Talk γ} {catches : Fault → Talk γ}
    (hdata : 0 < data.length ∧ data.length ≤ maximum) (hlt : data.length < 256 ^ 4)
    (h : Settles a b work first (next data) up down tells tells') :
    Settles a b (work + 2) first ((read maximum).handle next catches) (frame 4 data ++ up) down
      tells tells' := by
  have hheader : (toBytes 4 data.length).length = 4 := length_toBytes 4 data.length
  have htake : (frame 4 data ++ up).take 4 = toBytes 4 data.length := by
    rw [frame, List.append_assoc, List.take_left' hheader]
  have hdrop : (frame 4 data ++ up).drop 4 = data ++ up := by
    rw [frame, List.append_assoc, List.drop_left' hheader]
  rw [read_handle]
  apply Settles.secondReads
  · simp only [List.length_append, length_frame]
    omega
  · rw [htake, hdrop, fromBytes_toBytes hlt, readPayload, if_pos hdata]
    apply Settles.secondReads
    · simp only [List.length_append]
      omega
    · rw [List.take_left, List.drop_left]
      exact h

theorem firstReadsFrame {maximum : ℕ} {data : Bytes} {second : Talk γ}
    {next : Bytes → Talk α} {catches : Fault → Talk α}
    (hdata : 0 < data.length ∧ data.length ≤ maximum) (hlt : data.length < 256 ^ 4)
    (h : Settles a b work (next data) second up down tells tells') :
    Settles a b (work + 2) ((read maximum).handle next catches) second up (frame 4 data ++ down)
      tells tells' :=
  (secondReadsFrame hdata hlt h.swap).swap

end

theorem checkTls_handle {γ : Type} {required tls : Bool} (h : required = true → tls = true)
    (next : Unit → Talk γ) (catches : Fault → Talk γ) :
    (checkTls required tls).handle next catches = next () := by
  have hfree : (required && !tls) = false := by
    cases required with
    | false => rfl
    | true => simp [h rfl]
  rw [checkTls, if_neg (by simp [hfree])]
  rfl

theorem toNat_of_tokenText {token : String} {maximum : ℕ} (h : tokenText token maximum = true)
    {c : Char} (hc : c ∈ token.toList) : 0x21 ≤ c.toNat ∧ c.toNat ≤ 0x7e := by
  simp only [tokenText, Bool.and_eq_true, List.all_eq_true, decide_eq_true_eq] at h
  exact h.2 c hc

theorem length_of_tokenText {token : String} {maximum : ℕ} (h : tokenText token maximum = true) :
    1 ≤ token.length ∧ token.length ≤ maximum := by
  simp only [tokenText, Bool.and_eq_true, decide_eq_true_eq] at h
  exact h.1

/-- A text of ASCII characters has one byte for each. -/
theorem encodeAscii_of_lt {text : String} (h : ∀ c ∈ text.toList, c.toNat < 128) :
    ∃ bytes, encodeAscii text = some bytes ∧ bytes.length = text.length ∧
      decodeAscii bytes = some text := by
  have hbyte : ∀ c ∈ text.toList, (UInt8.ofNat c.toNat).toNat = c.toNat := by
    intro c hc
    have hlt := h c hc
    rw [UInt8.toNat_ofNat']
    omega
  refine ⟨text.toList.map fun c => UInt8.ofNat c.toNat, ?_, ?_, ?_⟩
  · rw [encodeAscii, if_pos (by simpa using h)]
  · rw [List.length_map, String.length_toList]
  · have hall : ((text.toList.map fun c => UInt8.ofNat c.toNat).all fun b => b < 128) = true := by
      simp only [List.all_eq_true, List.mem_map, decide_eq_true_eq]
      rintro _ ⟨c, hc, rfl⟩
      rw [UInt8.lt_iff_toNat_lt, hbyte c hc]
      exact h c hc
    have hback : (text.toList.map fun c => UInt8.ofNat c.toNat).map
        (fun b => Char.ofNat b.toNat) = text.toList := by
      rw [List.map_map]
      refine (List.map_congr_left fun c hc => ?_).trans (List.map_id _)
      show Char.ofNat (UInt8.ofNat c.toNat).toNat = c
      rw [hbyte c hc, Char.ofNat_toNat]
    rw [decodeAscii, if_pos hall, hback, String.ofList_toList]

section
variable {validator : String → Except AuthError (Option String)} {principal : String}
  {tls tls' : Bool}

/-- The server asks the validator about the token behind the version, and accepts. -/
theorem answerToken_eq {token : String} {bytes : Bytes} (hdecode : decodeAscii bytes = some token)
    (hvalid : tokenText token 16000 = true)
    (haccepts : validated validator token = .ok (some principal)) :
    answerToken validator (tokenVersion ++ bytes) =
      .tells (.validated token)
        (.writes (frame 4 ok) (.tells (.filedToken token) (.done principal))) := by
  have hversion : tokenVersion.length = 13 := by decide
  have hstarts : tokenVersion.isPrefixOf (tokenVersion ++ bytes) = true :=
    List.isPrefixOf_iff_prefix.mpr (List.prefix_append _ _)
  have htoken : (tokenVersion ++ bytes).drop 13 = bytes := by
    rw [← hversion, List.drop_left]
  simp only [answerToken, hstarts, htoken, hdecode, hvalid, haccepts, Bool.not_true,
    Bool.false_eq_true, if_false]
  rfl

/-- The client reads `OK`. -/
theorem firstAwaitsOk {γ : Type} {b : γ} {work : ℕ} {second : Talk γ} {up down : Bytes}
    {tells tells' : List Deed} (h : Settles () b work (.done ()) second up down tells tells') :
    Settles () b (work + 2) (closing awaitOk) second up (frame 4 ok ++ down) tells tells' := by
  rw [awaitOk, closing, Dialogue.handle_bind]
  apply firstReadsFrame
  · decide
  · decide
  · simpa [Dialogue.handle] using h

/-- The client's frame holds the version and the token, the server answers with `OK`. -/
theorem token_settles (client : TcpTokenClientAuth) (server : TcpTokenAuth)
    (htls : client.requireTls = true → tls = true) (htls' : server.requireTls = true → tls' = true)
    (haccepts : validated validator client.token = .ok (some principal)) :
    ∃ work, Settles () (some principal) work (client.authenticate tls)
      (server.verify validator tls') [] []
      [] [Deed.validated client.token, .filedToken client.token] := by
  obtain ⟨bytes, hencode, hlength, hdecode⟩ := encodeAscii_of_lt fun c hc =>
    lt_of_le_of_lt (toNat_of_tokenText client.valid hc).2 (by decide)
  obtain ⟨hpos, hlong⟩ := length_of_tokenText client.valid
  have hversion : tokenVersion.length = 13 := by decide
  have hclient : client.authenticate tls =
      .writes (frame 4 (tokenVersion ++ bytes)) (closing awaitOk) := by
    rw [TcpTokenClientAuth.authenticate, closing, Dialogue.handle_bind, checkTls_handle htls]
    simp only [hencode]
    rfl
  apply Exists.intro
  rw [hclient, TcpTokenAuth.verify, answering, Dialogue.handle_bind, checkTls_handle htls',
    Dialogue.handle_bind]
  apply Settles.firstWrites
  rw [List.nil_append, ← List.append_nil (frame 4 (tokenVersion ++ bytes))]
  apply secondReadsFrame
  · rw [List.length_append]
    omega
  · rw [List.length_append]
    omega
  rw [answerToken_eq hdecode client.valid haccepts]
  apply Settles.secondTells
  apply Settles.secondWrites
  apply Settles.secondTells
  rw [List.nil_append, ← List.append_nil (frame 4 ok)]
  exact firstAwaitsOk .done

end

section
variable {digest : Bytes → Bytes → Bytes} (sha256 : Bytes → Bytes) {principal : String}
  {tls tls' : Bool}

theorem length_challenge (nonce : Nonce) : (challenge nonce).length = 44 := by
  have hversion : (encodeText "WRPC-HMAC-1").length = 11 := by decide
  rw [challenge, List.length_append, List.length_cons, nonce.property, hversion]

/-- The challenge has the right length and version. -/
theorem prove_eq (client : HmacChallengeClientAuth) (nonce : Nonce) :
    closing (prove digest client (challenge nonce)) =
      .writes (frame 4 (digest client.secret (challenge nonce ++ 0 :: encodeText client.keyId)))
        (closing awaitOk) := by
  have hstarts : hmacVersion.isPrefixOf (challenge nonce) = true := by
    rw [List.isPrefixOf_iff_prefix, hmacVersion, challenge, List.append_cons]
    exact List.prefix_append _ _
  have hvalid : ¬ ((challenge nonce).length ≠ 44 ∨ ¬ hmacVersion.isPrefixOf (challenge nonce)) := by
    simp [length_challenge, hstarts]
  rw [prove, if_neg hvalid]
  rfl

theorem answerKey_eq (server : HmacChallengeAuth) (nonce : Nonce) (keyId : String) :
    answerKey digest sha256 server nonce (encodeText keyId) =
      .writes (frame 4 (challenge nonce))
        (read 32 >>= answerProof digest sha256 server nonce keyId (encodeText keyId)) := by
  rw [answerKey, decodeText_encodeText]
  rfl

theorem answerProof_eq {server : HmacChallengeAuth} {nonce : Nonce} {keyId : String}
    {secret : Bytes} (hentry : server.keys.lookup keyId = some (principal, secret)) :
    answerProof digest sha256 server nonce keyId (encodeText keyId)
        (digest secret (challenge nonce ++ 0 :: encodeText keyId)) =
      .writes (frame 4 ok) (.tells (.filedKey keyId (sha256 secret)) (.done principal)) := by
  simp only [answerProof, hentry, decide_true]
  rfl

theorem encodeText_pos {keyId : String} (h : identity keyId = true) :
    0 < (encodeText keyId).length := by
  rw [List.length_pos_iff]
  intro hnil
  have hdecode := decodeText_encodeText keyId
  rw [hnil, show ([] : Bytes) = encodeText "" from rfl, decodeText_encodeText] at hdecode
  rw [← Option.some.inj hdecode] at h
  exact absurd h (by decide)

/-- The key id, the challenge, the proof for it, and `OK`. -/
theorem hmac_settles (hdigest : ∀ secret message, (digest secret message).length = 32)
    (client : HmacChallengeClientAuth) (server : HmacChallengeAuth) (nonce : Nonce)
    (htls : client.requireTls = true → tls = true) (htls' : server.requireTls = true → tls' = true)
    (hentry : server.keys.lookup client.keyId = some (principal, client.secret)) :
    ∃ work, Settles () (some principal) work (client.authenticate digest tls)
      (hmacVerify digest sha256 server nonce tls') [] []
      [] [Deed.filedKey client.keyId (sha256 client.secret)] := by
  obtain ⟨hidentity, hshort, -⟩ := client.valid
  have hpos := encodeText_pos hidentity
  have hchallenge := length_challenge nonce
  have hproof := hdigest client.secret (challenge nonce ++ 0 :: encodeText client.keyId)
  apply Exists.intro
  simp only [HmacChallengeClientAuth.authenticate, hmacVerify, hmacHandshake, closing, answering,
    Dialogue.handle_bind, checkTls_handle htls, checkTls_handle htls']
  apply Settles.firstWrites
  rw [List.nil_append, ← List.append_nil (frame 4 (encodeText client.keyId))]
  apply secondReadsFrame
  · omega
  · omega
  rw [answerKey_eq]
  apply Settles.secondWrites
  rw [List.nil_append, ← List.append_nil (frame 4 (challenge nonce)), Dialogue.handle_bind]
  apply firstReadsFrame
  · omega
  · omega
  rw [← closing, prove_eq]
  apply Settles.firstWrites
  rw [List.nil_append, ← List.append_nil (frame 4 (digest _ _))]
  apply secondReadsFrame
  · omega
  · omega
  rw [answerProof_eq sha256 hentry]
  apply Settles.secondWrites
  apply Settles.secondTells
  rw [List.nil_append, ← List.append_nil (frame 4 ok)]
  exact firstAwaitsOk .done

end

/-- In every run of the two talks, whatever the order of the steps and the segments in which
the bytes arrive and whatever is sent afterwards, the streams are handed over: the client
returns, the server answers with the principal and has done these deeds. -/
def Completes (client : Talk Unit) (server : Talk (Option String)) (principal : String)
    (deeds : List Deed) : Prop :=
  ∃ work, ∀ moves link, Machine.run Link.step (Link.start client server) moves = some link →
    Link.HandsOver () (some principal) [] deeds work moves link

theorem completes_of_settles {client : Talk Unit} {server : Talk (Option String)}
    {principal : String} {deeds : List Deed}
    (h : ∃ work, Settles () (some principal) work client server [] [] [] deeds) :
    Completes client server principal deeds := by
  obtain ⟨work, hsettles⟩ := h
  exact ⟨work, fun moves link hrun => Link.handsOver hsettles hrun⟩

/-- A token that the client accepts reaches the validator as it is, and a key of the table that
the client accepts gives its principal. Digests have the length of SHA-256. -/
theorem honest_handshakes_complete (digest : Bytes → Bytes → Bytes) (sha256 : Bytes → Bytes)
    (hdigest : ∀ secret message, (digest secret message).length = 32) :
    (∀ (client : TcpTokenClientAuth) (server : TcpTokenAuth)
      (validator : String → Except AuthError (Option String)) (principal : String)
      (tls tls' : Bool), (client.requireTls = true → tls = true) →
      (server.requireTls = true → tls' = true) →
      validated validator client.token = .ok (some principal) →
        Completes (client.authenticate tls) (server.verify validator tls') principal
          [.validated client.token, .filedToken client.token]) ∧
    ∀ (client : HmacChallengeClientAuth) (server : HmacChallengeAuth) (nonce : Nonce)
      (principal : String) (tls tls' : Bool), (client.requireTls = true → tls = true) →
      (server.requireTls = true → tls' = true) →
      server.keys.lookup client.keyId = some (principal, client.secret) →
        Completes (client.authenticate digest tls)
          (hmacVerify digest sha256 server nonce tls') principal
          [.filedKey client.keyId (sha256 client.secret)] := by
  constructor
  · intro client server validator principal tls tls' htls htls' haccepts
    exact completes_of_settles (token_settles client server htls htls' haccepts)
  · intro client server nonce principal tls tls' htls htls' hentry
    exact completes_of_settles
      (hmac_settles sha256 hdigest client server nonce htls htls' hentry)

/-- HMAC-SHA256 of one message, with digests of its length for all others. -/
def fullDigest (_ : Bytes) (m : Bytes) : Bytes :=
  if m = message firstNonce then firstProof else List.replicate 32 0

def tokenClient : TcpTokenClientAuth := ⟨"key.secret", false, by decide⟩

def keyClient : HmacChallengeClientAuth :=
  ⟨"service", List.replicate 32 115, false, by decide⟩

theorem honest_handshakes_complete_service :
    Completes (tokenClient.authenticate false)
        (TcpTokenAuth.verify ⟨false⟩
          (fun token => .ok (if token = "key.secret" then some "alice" else none)) false)
        "alice" [.validated "key.secret", .filedToken "key.secret"] ∧
      Completes (keyClient.authenticate fullDigest false)
        (hmacVerify fullDigest (fun _ => secretDigest) service firstNonce false) "principal"
        [.filedKey "service" secretDigest] := by
  have hdigest : ∀ secret message, (fullDigest secret message).length = 32 := by
    intro secret message
    unfold fullDigest
    split_ifs
    · rfl
    · rfl
  obtain ⟨htoken, hkey⟩ := honest_handshakes_complete fullDigest (fun _ => secretDigest) hdigest
  constructor
  · exact htoken tokenClient ⟨false⟩ _ "alice" false false nofun nofun (by decide)
  · exact hkey keyClient service firstNonce "principal" false false nofun nofun (by decide)

end WireRpc.TcpHandshakes
