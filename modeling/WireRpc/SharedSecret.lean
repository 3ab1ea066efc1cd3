import WireRpc.HmacHandshake
import WireRpc.Library.Standstill

/-!
# The shared-secret handshake

`SharedSecretAuth`: the client sends the secret, the server compares it with its own and
replies `OK` or `REJECT`. The constructor takes a secret of any length, the server reads one of
1024 bytes at most. No deadline expires, and `drain` returns.
-/
namespace WireRpc.SharedSecret
open Library Framing Sessions HmacHandshake

/-- `PermissionError`, and the `OverflowError` of `int.to_bytes`. -/
inductive Refusal where
  | permission (reason : String)
  | overflow
  deriving DecidableEq

/-- What a side does besides reading and writing. -/
inductive Deed where
  | closed
  deriving DecidableEq

abbrev Talk (α : Type) := Dialogue UInt8 Deed Refusal α

/-- What the constructor accepts. A secret that is a text is kept as its bytes. -/
structure SharedSecretAuth where
  principal : String
  secret : Bytes
  valid : identity principal = true

def reject : Bytes := encodeText "REJECT"

def readexactly (n : ℕ) : Talk Bytes := .reads n .done

def write (data : Bytes) : Talk Unit := .writes data (.done ())

def permission : Talk Unit := .fails (.permission "Authentication rejected")

/-- What the client makes of the reply. -/
def awaitOk : Talk Unit := do
  let header ← readexactly 4
  if fromBytes header ≠ 2 then permission
  else
    let reply ← readexactly 2
    if reply ≠ ok then permission else .done ()

def SharedSecretAuth.authenticate (auth : SharedSecretAuth) : Talk Unit :=
  if auth.secret.length < 256 ^ 4 then do
    write (frame 4 auth.secret)
    awaitOk
  else .fails .overflow

/-- What the server does with the secret that it has read. -/
def SharedSecretAuth.answer (auth : SharedSecretAuth) (secret : Bytes) : Talk (Option String) :=
  if secret = auth.secret then do
    write (toBytes 4 ok.length)
    write ok
    .done (some auth.principal)
  else do
    write (toBytes 4 reject.length)
    write reject
    .tells .closed (.done none)

def SharedSecretAuth.verify (auth : SharedSecretAuth) : Talk (Option String) := do
  let header ← readexactly 4
  if fromBytes header > 1024 then .tells .closed (.done none)
  else
    let secret ← readexactly (fromBytes header)
    auth.answer secret

/-- The client waits for more than will ever come: `readexactly` raises when it sees that the
server has closed the connection. -/
def SeesClosed {α γ : Type} (link : Link UInt8 Deed Refusal α γ) : Prop :=
  ∃ n next, link.first.dialogue = .reads n next ∧
    link.first.buffer.length + link.down.length < n ∧ .closed ∈ link.second.told

/-- In every run both sides end in finitely many moves, and end well, with the principal of the
server. -/
def Succeeds (client server : SharedSecretAuth) : Prop :=
  ∃ work, ∀ moves link,
    Machine.run Link.step (Link.start client.authenticate server.verify) moves = some link →
      Link.HandsOver () (some server.principal) [] [] work moves link

/-- Every run in which nothing else is sent takes finitely many moves. Where nothing moves any
more, the client has raised `PermissionError` or sees that the connection is closed, and the
server has closed it and has returned `None`. -/
def Rejects (client server : SharedSecretAuth) : Prop :=
  ∃ work, ∀ moves link, (∀ move ∈ moves, move.sends = false) →
    Machine.run Link.step (Link.start client.authenticate server.verify) moves = some link →
      moves.length ≤ work ∧ (link.Still →
        (link.first.dialogue = permission ∨ SeesClosed link) ∧
          link.second.dialogue = .done none ∧ link.second.told = [.closed])

/-- The same secret is accepted, and a different one is rejected. -/
def Agrees (client server : SharedSecretAuth) : Prop :=
  (client.secret = server.secret → Succeeds client server) ∧
    (client.secret ≠ server.secret → Rejects client server)

/-- The server reads the secret, or at least the client can send it. -/
def Fits (client server : SharedSecretAuth) : Prop :=
  if client.secret = server.secret then client.secret.length ≤ 1024
  else client.secret.length < 256 ^ 4

variable {client server : SharedSecretAuth}

theorem authenticate_eq (h : client.secret.length < 256 ^ 4) :
    client.authenticate = .writes (frame 4 client.secret) awaitOk := if_pos h

theorem awaitOk_eq : awaitOk = .reads 4 fun header =>
    if fromBytes header ≠ 2 then permission
    else .reads 2 fun reply => if reply ≠ ok then permission else .done () := rfl

theorem verify_eq (server : SharedSecretAuth) : server.verify = .reads 4 fun header =>
    if fromBytes header > 1024 then .tells .closed (.done none)
    else .reads (fromBytes header) server.answer := rfl

theorem take_frame (secret : Bytes) : (frame 4 secret).take 4 = toBytes 4 secret.length :=
  List.take_left' (length_toBytes 4 secret.length)

theorem drop_frame (secret : Bytes) : (frame 4 secret).drop 4 = secret :=
  List.drop_left' (length_toBytes 4 secret.length)

section
variable {final : Talk Unit} {final' : Talk (Option String)} {leftUp leftDown : Bytes} {work : ℕ}
  {first : Talk Unit} {down : Bytes} {tells tells' : List Deed}

/-- The server reads a secret that it has room for. -/
theorem readsSecret {secret : Bytes} (hlength : secret.length ≤ 1024)
    (h : Leads final final' leftUp leftDown work first (server.answer secret) [] down tells
      tells') :
    Leads final final' leftUp leftDown (work + 2) first server.verify (frame 4 secret) down tells
      tells' := by
  have hheader : fromBytes (toBytes 4 secret.length) = secret.length :=
    fromBytes_toBytes (by omega)
  rw [verify_eq]
  apply Leads.secondReads
  · rw [length_frame]
    omega
  · rw [take_frame, drop_frame]
    rw [hheader, if_neg (by omega)]
    apply Leads.secondReads
    · exact le_rfl
    · rw [List.take_length, List.drop_length]
      exact h

end

theorem settles_same (hsame : client.secret = server.secret)
    (hlength : client.secret.length ≤ 1024) :
    ∃ work, Settles () (some server.principal) work client.authenticate server.verify [] []
      [] [] := by
  have hanswer : server.answer client.secret =
      .writes (toBytes 4 2) (.writes ok (.done (some server.principal))) := if_pos hsame
  have hheader : fromBytes (toBytes 4 2) = 2 := by decide
  have hreply : (([] : Bytes) ++ toBytes 4 2 ++ ok).take 4 = toBytes 4 2 := by decide
  apply Exists.intro
  rw [authenticate_eq (by omega)]
  apply Settles.iff_leads.mpr
  apply Leads.firstWrites
  apply readsSecret hlength
  rw [hanswer]
  apply Leads.secondWrites
  apply Leads.secondWrites
  rw [awaitOk_eq]
  apply Leads.firstReads
  · decide
  · rw [hreply, hheader, if_neg (by simp)]
    apply Leads.firstReads
    · decide
    · exact .stop rfl rfl

/-- The client reads the length of `REJECT`, and no more. -/
theorem leads_different (hne : client.secret ≠ server.secret)
    (hlength : client.secret.length ≤ 1024) :
    ∃ work, Leads permission (.done none) [] reject work client.authenticate server.verify [] []
      [] [.closed] := by
  have hanswer : server.answer client.secret =
      .writes (toBytes 4 6) (.writes reject (.tells .closed (.done none))) := if_neg hne
  have hheader : fromBytes (toBytes 4 6) = 6 := by decide
  have hreply : (([] : Bytes) ++ toBytes 4 6 ++ reject).take 4 = toBytes 4 6 := by decide
  apply Exists.intro
  rw [authenticate_eq (by omega)]
  apply Leads.firstWrites
  apply readsSecret hlength
  rw [hanswer]
  apply Leads.secondWrites
  apply Leads.secondWrites
  apply Leads.secondTells
  rw [awaitOk_eq]
  apply Leads.firstReads
  · decide
  · rw [hreply, hheader, if_pos (by simp)]
    exact .stop rfl rfl

/-- The server does not read a secret that is too long for it, and writes nothing. -/
theorem leads_long (hlength : 1024 < client.secret.length)
    (hshort : client.secret.length < 256 ^ 4) :
    ∃ work, Leads awaitOk (.done none) client.secret [] work client.authenticate server.verify
      [] [] [] [.closed] := by
  have hheader : fromBytes (toBytes 4 client.secret.length) = client.secret.length :=
    fromBytes_toBytes hshort
  apply Exists.intro
  rw [authenticate_eq hshort]
  apply Leads.firstWrites
  rw [List.nil_append, verify_eq]
  apply Leads.secondReads
  · rw [length_frame]
    omega
  · rw [take_frame, drop_frame, hheader, if_pos hlength]
    apply Leads.secondTells
    exact .stop rfl rfl

theorem rejects_of_leads {final : Talk Unit} {leftUp leftDown : Bytes}
    (h : ∃ work, Leads final (.done none) leftUp leftDown work client.authenticate server.verify
      [] [] [] [.closed])
    (hfinal : final = permission ∨ ∃ n next, final = .reads n next ∧ leftDown.length < n) :
    Rejects client server := by
  obtain ⟨work, hleads⟩ := h
  refine ⟨work, fun moves link hquiet hrun => ?_⟩
  obtain ⟨hbound, hstill⟩ := Link.standsStill hleads hquiet hrun
  refine ⟨hbound, fun hlink => ?_⟩
  have hends := hstill hlink
  refine ⟨?_, hends.second, hends.told_second⟩
  obtain hpermission | ⟨n, next, hreads, hshort⟩ := hfinal
  · exact Or.inl (hends.first.trans hpermission)
  · refine Or.inr ⟨n, next, hends.first.trans hreads, ?_, ?_⟩
    · rw [hends.unread_first, hends.down]
      simpa using hshort
    · rw [hends.told_second]
      exact List.mem_singleton.mpr rfl

theorem rejects_of_ne (hne : client.secret ≠ server.secret)
    (hshort : client.secret.length < 256 ^ 4) : Rejects client server := by
  by_cases hlength : client.secret.length ≤ 1024
  · exact rejects_of_leads (leads_different hne hlength) (Or.inl rfl)
  · refine rejects_of_leads (leads_long (by omega) hshort) (Or.inr ⟨4, _, awaitOk_eq, ?_⟩)
    decide

theorem succeeds_of_same (hsame : client.secret = server.secret)
    (hlength : client.secret.length ≤ 1024) : Succeeds client server := by
  obtain ⟨work, hsettles⟩ := settles_same hsame hlength
  exact ⟨work, fun moves link hrun => Link.handsOver hsettles hrun⟩

/-- A client that cannot write the length of its secret raises at once. -/
theorem authenticate_overflow (h : ¬ client.secret.length < 256 ^ 4) :
    client.authenticate = .fails .overflow := if_neg h

theorem not_succeeds (hlong : 1024 < client.secret.length) : ¬ Succeeds client server := by
  rintro ⟨work, hall⟩
  by_cases hshort : client.secret.length < 256 ^ 4
  · obtain ⟨work', hleads⟩ : ∃ work, Leads awaitOk (.done none) client.secret [] work
        client.authenticate server.verify [] [] [] [.closed] := leads_long hlong hshort
    obtain ⟨moves, link, hquiet, hrun, hstill⟩ := Link.exists_still (Link.heads_start hleads)
    have hends := (Link.standsStill hleads hquiet hrun).2 hstill
    obtain ⟨hnone, -⟩ := (hall moves link hrun).second_ends none hends.second
    nomatch hnone
  · have hfails := (hall [] _ rfl).unfailing .overflow
    exact hfails.1 (authenticate_overflow hshort)

theorem not_rejects (hlong : ¬ client.secret.length < 256 ^ 4) : ¬ Rejects client server := by
  rintro ⟨work, hall⟩
  obtain ⟨-, hends⟩ := hall [] _ (List.forall_mem_nil _) rfl
  have hstill : (Link.start client.authenticate server.verify).Still := by
    rw [authenticate_overflow hlong, verify_eq]
    intro move hquiet
    cases move with
    | firstSteps | secondSteps => rfl
    | arrivesUp n | arrivesDown n =>
      simp only [Link.step, Link.start, Party.receives, List.length_nil, Nat.le_zero_eq]
      rw [if_neg (by omega)]
      rfl
    | firstSends data | secondSends data => cases hquiet
  obtain ⟨-, hsecond, -⟩ := hends hstill
  cases hsecond

/-- The two sides agree exactly if the server reads a secret of this length, or, where the
secrets differ, the client can send it. -/
theorem shared_secret_agrees_iff (client server : SharedSecretAuth) :
    Agrees client server ↔ Fits client server := by
  unfold Agrees Fits
  split_ifs with hsame
  · constructor
    · intro h
      by_contra hlong
      exact not_succeeds (by omega) (h.1 hsame)
    · intro hlength
      exact ⟨fun _ => succeeds_of_same hsame hlength, fun hne => absurd hsame hne⟩
  · constructor
    · intro h
      by_contra hlong
      exact not_rejects hlong (h.2 hsame)
    · intro hshort
      exact ⟨fun heq => absurd heq hsame, fun hne => rejects_of_ne hne hshort⟩

/-- The constructor takes a secret of 1025 bytes. -/
def longSecret : SharedSecretAuth := ⟨"shared-secret", List.replicate 1025 115, by decide⟩

/-- Used on both sides the object does not authenticate itself. -/
theorem longSecret_rejected : ¬ Agrees longSecret longSecret := by
  have hlong : 1024 < longSecret.secret.length := by
    rw [longSecret, List.length_replicate]
    decide
  exact fun h => not_succeeds hlong (h.1 rfl)

end WireRpc.SharedSecret
