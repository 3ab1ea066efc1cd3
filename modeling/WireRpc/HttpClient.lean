import WireRpc.Codec
import WireRpc.Library.Lists
import WireRpc.Library.Machine

/-!
# The HTTP client transport

`HttpClientTransport` posts a message and holds the response until `recv` reads its body.
The calls of any number of tasks run against each other here: a call is a number, and the
events are the stretches of code between two awaits. Responses and sessions are numbered in
the order in which `aiohttp` makes them.
-/
namespace WireRpc.HttpClient
open Library

inductive Refusal where
  | notConnected
  | unreceived
  | requestTooLarge
  | nothingSent
  deriving DecidableEq

/-- Where a call stands: awaiting the response to its POST, a chunk of a body, or the end of
a session. -/
inductive Call where
  | absent
  | posting (data : Bytes)
  | reading (response : ℕ) (body : Bytes)
  | closing (session : ℕ)
  | refused (why : Refusal)
  | ended

/-- What `send` and `recv` have returned. `accepted` is a 204, and `held` a response that is
kept for `recv`. -/
inductive Entry where
  | accepted (response : ℕ)
  | held (response : ℕ)
  | returned (response : ℕ) (body : Bytes)

/-- `shut` and `closed` say on which sessions and responses `close` was called. The last
three fields and the log belong to the history: the message of each POST, the content length
of its response and what has been read of the body. -/
structure State where
  session : Option ℕ
  pending : Option ℕ
  sending : Bool
  calls : ℕ → Call
  sessions : ℕ
  shut : ℕ → Bool
  responses : ℕ
  closed : ℕ → Bool
  requests : ℕ → Bytes
  lengths : ℕ → Option ℕ
  delivered : ℕ → Bytes
  log : List Entry

def start : State where
  session := none
  pending := none
  sending := false
  calls := fun _ => .absent
  sessions := 0
  shut := fun _ => false
  responses := 0
  closed := fun _ => false
  requests := fun _ => []
  lengths := fun _ => none
  delivered := fun _ => []
  log := []

/-- `postFailed`, `readFailed` and `closeFailed` are an exception or a cancellation at the
await of the call. -/
inductive Event where
  | connect
  | send (k : ℕ) (data : Bytes)
  | posted (k : ℕ) (status : ℕ) (contentLength : Option ℕ)
  | postFailed (k : ℕ)
  | recv (k : ℕ)
  | chunk (k : ℕ) (data : Bytes)
  | eof (k : ℕ)
  | readFailed (k : ℕ)
  | close (k : ℕ)
  | closed (k : ℕ)
  | closeFailed (k : ℕ)

section
variable (maxBodySize : ℕ) (s : State) (k : ℕ)

def setCall (call : Call) : State := { s with calls := Function.update s.calls k call }

def connect : State :=
  match s.session with
  | some _ => s -- raises `RuntimeError`
  | none =>
    { s with
      session := some s.sessions
      sessions := s.sessions + 1 }

def send (data : Bytes) : State :=
  if s.session = none then setCall s k (.refused .notConnected)
  else if s.pending ≠ none ∨ s.sending then setCall s k (.refused .unreceived)
  else if maxBodySize < data.length then setCall s k (.refused .requestTooLarge)
  else { setCall s k (.posting data) with sending := true }

/-- The POST has got its response. -/
def posted (data : Bytes) (status : ℕ) (contentLength : Option ℕ) : State :=
  let n := s.responses
  let s := { setCall s k .ended with
    sending := false
    responses := n + 1
    requests := Function.update s.requests n data
    lengths := Function.update s.lengths n contentLength }
  if status = 204 then
    { s with
      closed := Function.update s.closed n true
      log := s.log ++ [.accepted n] }
  else if status ≠ 200 then { s with closed := Function.update s.closed n true }
  else
    { s with
      pending := some n
      log := s.log ++ [.held n] }

/-- The `finally` block of `recv`. -/
def release (n : ℕ) : State :=
  { setCall s k .ended with
    closed := Function.update s.closed n true
    pending := none }

def recv : State :=
  match s.pending with
  | none => setCall s k (.refused .nothingSent)
  | some n =>
    if (s.lengths n).any fun length => maxBodySize < length then release s k n
    else setCall s k (.reading n [])

/-- The next piece of the body. -/
def chunk (n : ℕ) (body data : Bytes) : State :=
  let s := { s with delivered := Function.update s.delivered n (s.delivered n ++ data) }
  if maxBodySize < body.length + data.length then release s k n
  else setCall s k (.reading n (body ++ data))

/-- `close` up to its await. -/
def close : State :=
  let s := s.pending.elim s fun n =>
    { s with
      closed := Function.update s.closed n true
      pending := none }
  match s.session with
  | none => setCall s k .ended
  | some i => { setCall s k (.closing i) with shut := Function.update s.shut i true }

def step : Event → Option State
  | .connect => some (connect s)
  | .send k data =>
    match s.calls k with
    | .absent => some (send maxBodySize s k data)
    | _ => none
  | .posted k status contentLength =>
    match s.calls k with
    | .posting data => some (posted s k data status contentLength)
    | _ => none
  | .postFailed k =>
    match s.calls k with
    | .posting _ => some { setCall s k .ended with sending := false }
    | _ => none
  | .recv k =>
    match s.calls k with
    | .absent => some (recv maxBodySize s k)
    | _ => none
  | .chunk k data =>
    match s.calls k with
    | .reading n body => some (chunk maxBodySize s k n body data)
    | _ => none
  | .eof k =>
    match s.calls k with
    | .reading n body =>
      let s := release s k n
      some { s with log := s.log ++ [.returned n body] }
    | _ => none
  | .readFailed k =>
    match s.calls k with
    | .reading n _ => some (release s k n)
    | _ => none
  | .close k =>
    match s.calls k with
    | .absent => some (close s k)
    | _ => none
  | .closed k =>
    match s.calls k with
    | .closing _ => some { setCall s k .ended with session := none }
    | _ => none
  | .closeFailed k =>
    match s.calls k with
    | .closing _ => some (setCall s k .ended)
    | _ => none

end

/-- The ways through the code. `released` are the ends of a `recv` without a result. -/
inductive Way (maxBodySize : ℕ) (s : State) : Event → State → Prop where
  | connected (h : s.session = none) : Way maxBodySize s .connect
      { s with
        session := some s.sessions
        sessions := s.sessions + 1 }
  | connectRefused : Way maxBodySize s .connect s
  | sendRefused (k : ℕ) (data : Bytes) (why : Refusal) (hk : s.calls k = .absent) :
      Way maxBodySize s (.send k data) (setCall s k (.refused why))
  | sending (k : ℕ) (data : Bytes) (hk : s.calls k = .absent) (hpending : s.pending = none)
      (hsending : s.sending = false) :
      Way maxBodySize s (.send k data) { setCall s k (.posting data) with sending := true }
  | posted (k : ℕ) (data : Bytes) (status : ℕ) (contentLength : Option ℕ)
      (hk : s.calls k = .posting data) :
      Way maxBodySize s (.posted k status contentLength) (posted s k data status contentLength)
  | postFailed (k : ℕ) (data : Bytes) (hk : s.calls k = .posting data) :
      Way maxBodySize s (.postFailed k) { setCall s k .ended with sending := false }
  | recvRefused (k : ℕ) (hk : s.calls k = .absent) (hpending : s.pending = none) :
      Way maxBodySize s (.recv k) (setCall s k (.refused .nothingSent))
  | tooLong (k n : ℕ) (hk : s.calls k = .absent) (hpending : s.pending = some n) :
      Way maxBodySize s (.recv k) (release s k n)
  | reading (k n : ℕ) (hk : s.calls k = .absent) (hpending : s.pending = some n) :
      Way maxBodySize s (.recv k) (setCall s k (.reading n []))
  | overflowed (k n : ℕ) (body data : Bytes) (hk : s.calls k = .reading n body)
      (hsize : maxBodySize < body.length + data.length) :
      Way maxBodySize s (.chunk k data)
        (release { s with delivered := Function.update s.delivered n (s.delivered n ++ data) } k n)
  | read (k n : ℕ) (body data : Bytes) (hk : s.calls k = .reading n body)
      (hsize : body.length + data.length ≤ maxBodySize) :
      Way maxBodySize s (.chunk k data)
        (setCall { s with delivered := Function.update s.delivered n (s.delivered n ++ data) } k
          (.reading n (body ++ data)))
  | returned (k n : ℕ) (body : Bytes) (hk : s.calls k = .reading n body) :
      Way maxBodySize s (.eof k)
        { release s k n with log := s.log ++ [.returned n body] }
  | readFailed (k n : ℕ) (body : Bytes) (hk : s.calls k = .reading n body) :
      Way maxBodySize s (.readFailed k) (release s k n)
  | close (k : ℕ) (hk : s.calls k = .absent) : Way maxBodySize s (.close k) (close s k)
  | closed (k i : ℕ) (hk : s.calls k = .closing i) :
      Way maxBodySize s (.closed k) { setCall s k .ended with session := none }
  | closeFailed (k i : ℕ) (hk : s.calls k = .closing i) :
      Way maxBodySize s (.closeFailed k) (setCall s k .ended)

theorem step_way {maxBodySize : ℕ} {s s' : State} {e : Event}
    (hs : step maxBodySize s e = some s') : Way maxBodySize s e s' := by
  cases e with
  | connect =>
    obtain rfl := Option.some.inj hs
    unfold connect
    split
    · exact .connectRefused
    · rename_i hnone
      exact .connected hnone
  | send k data =>
    simp only [step] at hs
    split at hs
    case h_2 => cases hs
    rename_i hk
    obtain rfl := Option.some.inj hs
    unfold send
    split_ifs with hsession hbusy hsize
    · exact .sendRefused k data _ hk
    · exact .sendRefused k data _ hk
    · exact .sendRefused k data _ hk
    · rw [not_or, not_not, Bool.not_eq_true] at hbusy
      exact .sending k data hk hbusy.1 hbusy.2
  | posted k status contentLength =>
    simp only [step] at hs
    split at hs
    case h_2 => cases hs
    rename_i data hk
    exact Option.some.inj hs ▸ .posted k data status contentLength hk
  | postFailed k =>
    simp only [step] at hs
    split at hs
    case h_2 => cases hs
    rename_i data hk
    exact Option.some.inj hs ▸ .postFailed k data hk
  | recv k =>
    simp only [step] at hs
    split at hs
    case h_2 => cases hs
    rename_i hk
    obtain rfl := Option.some.inj hs
    unfold recv
    split
    · rename_i hnone
      exact .recvRefused k hk hnone
    · rename_i n hpending
      split_ifs
      · exact .tooLong k n hk hpending
      · exact .reading k n hk hpending
  | chunk k data =>
    simp only [step] at hs
    split at hs
    case h_2 => cases hs
    rename_i n body hk
    obtain rfl := Option.some.inj hs
    unfold chunk
    dsimp only
    split_ifs with hsize
    · exact .overflowed k n body data hk hsize
    · exact .read k n body data hk (Nat.le_of_not_lt hsize)
  | eof k =>
    simp only [step] at hs
    split at hs
    case h_2 => cases hs
    rename_i n body hk
    exact Option.some.inj hs ▸ .returned k n body hk
  | readFailed k =>
    simp only [step] at hs
    split at hs
    case h_2 => cases hs
    rename_i n body hk
    exact Option.some.inj hs ▸ .readFailed k n body hk
  | close k =>
    simp only [step] at hs
    split at hs
    case h_2 => cases hs
    rename_i hk
    exact Option.some.inj hs ▸ .close k hk
  | closed k =>
    simp only [step] at hs
    split at hs
    case h_2 => cases hs
    rename_i i hk
    exact Option.some.inj hs ▸ .closed k i hk
  | closeFailed k =>
    simp only [step] at hs
    split at hs
    case h_2 => cases hs
    rename_i i hk
    exact Option.some.inj hs ▸ .closeFailed k i hk

structure Inv (s : State) : Prop where
  posting : ∀ k data, s.calls k = .posting data → s.sending = true
  poster : ∀ k j data data', s.calls k = .posting data → s.calls j = .posting data' → k = j
  exclusive : s.sending = true → s.pending = none
  pending_lt : ∀ n, s.pending = some n → n < s.responses
  pending_open : ∀ n, s.pending = some n → s.closed n = false
  closed_lt : ∀ n, s.closed n = true → n < s.responses
  reading_lt : ∀ k n body, s.calls k = .reading n body → n < s.responses
  session_lt : ∀ i, s.session = some i → i < s.sessions
  closing : ∀ k i, s.calls k = .closing i → i < s.sessions ∧ s.shut i = true

/-- The response is closed, kept for `recv` or read by a call. -/
def Kept (s : State) (n : ℕ) : Prop :=
  s.closed n = true ∨ s.pending = some n ∨ ∃ k body, s.calls k = .reading n body

/-- No response is lost, and a session was told to close or is the one in use. -/
structure Accounted (s : State) : Prop where
  responses : ∀ n < s.responses, Kept s n
  sessions : ∀ i < s.sessions, s.shut i = true ∨ s.session = some i

/-- The call and the response whose `finally` block runs in this step. -/
def releases (maxBodySize : ℕ) (s : State) : Event → Option (ℕ × ℕ)
  | .chunk k data =>
    match s.calls k with
    | .reading n body => if maxBodySize < body.length + data.length then some (k, n) else none
    | _ => none
  | .eof k | .readFailed k =>
    match s.calls k with
    | .reading n _ => some (k, n)
    | _ => none
  | _ => none

/-- What a call resets when it ends is its own: no other response is kept that nobody reads,
and no other session is in use that nobody has told to close. -/
def Spares (maxBodySize : ℕ) (s : State) (e : Event) : Prop :=
  (∀ k n m, releases maxBodySize s e = some (k, n) → s.pending = some m → m = n ∨
    ∃ j body, j ≠ k ∧ s.calls j = .reading m body) ∧
  ∀ k i j, e = .closed k → s.calls k = .closing i → s.session = some j →
    j = i ∨ s.shut j = true

section
variable {maxBodySize : ℕ} {s s' : State} {e : Event} {k : ℕ}

theorem update_call {calls : ℕ → Call} {k j : ℕ} {call call' : Call}
    (h : Function.update calls k call j = call') :
    (j = k ∧ call = call') ∨ (j ≠ k ∧ calls j = call') := by
  by_cases hjk : j = k
  · subst hjk
    exact .inl ⟨rfl, (Function.update_self ..).symm.trans h⟩
  · exact .inr ⟨hjk, (Function.update_of_ne hjk ..).symm.trans h⟩

theorem inv_start : Inv start where
  posting _ _ h := nomatch h
  poster _ _ _ _ h := nomatch h
  exclusive h := nomatch h
  pending_lt _ h := nomatch h
  pending_open _ h := nomatch h
  closed_lt _ h := nomatch h
  reading_lt _ _ _ h := nomatch h
  session_lt _ h := nomatch h
  closing _ _ h := nomatch h

/-- A call goes on without a POST. -/
theorem Inv.goOn (h : Inv s) (k : ℕ) {call : Call} (hposting : ∀ data, call ≠ .posting data)
    (hreading : ∀ n body, call = .reading n body → n < s.responses)
    (hclosing : ∀ i, call = .closing i → i < s.sessions ∧ s.shut i = true) :
    Inv (setCall s k call) := by
  have hold : ∀ j data, (setCall s k call).calls j = .posting data → s.calls j = .posting data := by
    intro j data hj
    obtain ⟨-, hj⟩ | ⟨-, hj⟩ := update_call hj
    · exact absurd hj (hposting data)
    · exact hj
  exact {
    posting := fun j data hj => h.posting j data (hold j data hj)
    poster := fun i j data data' hi hj => h.poster i j data data' (hold i _ hi) (hold j _ hj)
    exclusive := h.exclusive
    pending_lt := h.pending_lt
    pending_open := h.pending_open
    closed_lt := h.closed_lt
    reading_lt := fun j n body hj => by
      obtain ⟨-, hj⟩ | ⟨-, hj⟩ := update_call hj
      · exact hreading n body hj
      · exact h.reading_lt j n body hj
    session_lt := h.session_lt
    closing := fun j i hj => by
      obtain ⟨-, hj⟩ | ⟨-, hj⟩ := update_call hj
      · exact hclosing i hj
      · exact h.closing j i hj }

theorem Inv.over (h : Inv s) (k : ℕ) {call : Call}
    (hcall : call = .ended ∨ ∃ why, call = .refused why) : Inv (setCall s k call) := by
  obtain rfl | ⟨why, rfl⟩ := hcall
  · exact h.goOn k (by nofun) (by nofun) (by nofun)
  · exact h.goOn k (by nofun) (by nofun) (by nofun)

/-- A response is dropped, or the session is. -/
theorem Inv.drop (h : Inv s) {pending session : Option ℕ} {closed : ℕ → Bool}
    {delivered : ℕ → Bytes} {log : List Entry}
    (hpending : pending = none ∨ (pending = s.pending ∧ closed = s.closed))
    (hclosed : ∀ n, closed n = true → n < s.responses)
    (hsession : session = none ∨ session = s.session) : Inv { s with
      pending := pending
      session := session
      closed := closed
      delivered := delivered
      log := log } where
  posting := h.posting
  poster := h.poster
  exclusive hsending := by
    obtain rfl | ⟨rfl, -⟩ := hpending
    · rfl
    · exact h.exclusive hsending
  pending_lt n hn := by
    obtain rfl | ⟨rfl, -⟩ := hpending
    · cases hn
    · exact h.pending_lt n hn
  pending_open n hn := by
    obtain rfl | ⟨rfl, rfl⟩ := hpending
    · cases hn
    · exact h.pending_open n hn
  closed_lt := hclosed
  reading_lt := h.reading_lt
  session_lt i hi := by
    obtain rfl | rfl := hsession
    · cases hi
    · exact h.session_lt i hi
  closing := h.closing

theorem Inv.closed_update (h : Inv s) {n m : ℕ} (hn : n < s.responses)
    (hm : Function.update s.closed n true m = true) : m < s.responses := by
  by_cases hmn : m = n
  · exact hmn ▸ hn
  · exact h.closed_lt m ((Function.update_of_ne hmn ..).symm.trans hm)

theorem Inv.release (h : Inv s) {n : ℕ} (hn : n < s.responses) (k : ℕ) (delivered : ℕ → Bytes)
    (log : List Entry) : Inv { release s k n with
      delivered := delivered
      log := log } :=
  (h.over k (.inl rfl)).drop (.inl rfl) (fun _ => h.closed_update hn) (.inr rfl)

/-- No call is posting once the one that was is over. -/
theorem Inv.not_posting (h : Inv s) {data : Bytes} (hk : s.calls k = .posting data) (j : ℕ)
    (data' : Bytes) : (setCall s k .ended).calls j ≠ .posting data' := by
  intro hj
  obtain ⟨-, hj⟩ | ⟨hjk, hj⟩ := update_call hj
  · cases hj
  · exact hjk (h.poster j k data' data hj hk)

/-- The POST is over, with a response or without. -/
theorem Inv.endPost (h : Inv s) {data : Bytes} (hk : s.calls k = .posting data)
    {responses : ℕ} {pending : Option ℕ} {closed : ℕ → Bool} {requests : ℕ → Bytes}
    {lengths : ℕ → Option ℕ} {log : List Entry} (hle : s.responses ≤ responses)
    (hpending : ∀ n, pending = some n → n < responses ∧ closed n = false)
    (hclosed : ∀ n, closed n = true → n < responses) : Inv { setCall s k .ended with
      sending := false
      responses := responses
      pending := pending
      closed := closed
      requests := requests
      lengths := lengths
      log := log } where
  posting j data' hj := absurd hj (h.not_posting hk j data')
  poster j _ data' _ hj := absurd hj (h.not_posting hk j data')
  exclusive hsending := nomatch hsending
  pending_lt n hn := (hpending n hn).1
  pending_open n hn := (hpending n hn).2
  closed_lt := hclosed
  reading_lt j n body hj := ((h.over k (.inl rfl)).reading_lt j n body hj).trans_le hle
  session_lt := h.session_lt
  closing := (h.over k (.inl rfl)).closing

theorem Inv.posted (h : Inv s) {data : Bytes} (hk : s.calls k = .posting data) (status : ℕ)
    (contentLength : Option ℕ) : Inv (posted s k data status contentLength) := by
  have hnone : s.pending = none := h.exclusive (h.posting k data hk)
  have hempty : ∀ {closed : ℕ → Bool} n, s.pending = some n →
      n < s.responses + 1 ∧ closed n = false := by
    intro closed n hn
    cases hnone.symm.trans hn
  have hclosed : ∀ m, s.closed m = true → m < s.responses + 1 := fun m hm =>
    (h.closed_lt m hm).trans (Nat.lt_succ_self _)
  have hupdate : ∀ m, Function.update s.closed s.responses true m = true →
      m < s.responses + 1 := by
    intro m hm
    by_cases hmn : m = s.responses
    · exact hmn ▸ Nat.lt_succ_self _
    · exact hclosed m ((Function.update_of_ne hmn ..).symm.trans hm)
  unfold HttpClient.posted
  dsimp only
  split_ifs
  · exact h.endPost hk (Nat.le_succ _) hempty hupdate
  · exact h.endPost hk (Nat.le_succ _) hempty hupdate
  · refine h.endPost hk (Nat.le_succ _) (fun n hn => ?_) hclosed
    obtain rfl := Option.some.inj hn
    refine ⟨Nat.lt_succ_self _, Bool.eq_false_of_not_eq_true fun hc => ?_⟩
    exact absurd (h.closed_lt _ hc) (lt_irrefl _)

theorem Inv.read (h : Inv s) {n : ℕ} (hn : n < s.responses) (k : ℕ) (body : Bytes)
    (delivered : ℕ → Bytes) :
    Inv { setCall s k (.reading n body) with delivered := delivered } := by
  have hread : Inv (setCall s k (.reading n body)) := by
    refine h.goOn k (by nofun) (fun n' body' heq => ?_) (by nofun)
    cases heq
    exact hn
  exact hread.drop (.inr ⟨rfl, rfl⟩) h.closed_lt (.inr rfl)

theorem Inv.shutDown (h : Inv s) {i : ℕ} (hi : i < s.sessions) (k : ℕ) :
    Inv { setCall s k (.closing i) with shut := Function.update s.shut i true } := by
  have hshut : Inv { s with shut := Function.update s.shut i true } := { h with
    closing := fun j i' hj => by
      obtain ⟨hlt, hold⟩ := h.closing j i' hj
      refine ⟨hlt, ?_⟩
      by_cases hii : i' = i
      · subst hii
        exact Function.update_self ..
      · exact (Function.update_of_ne hii ..).trans hold }
  refine hshut.goOn k (by nofun) (by nofun) fun i' heq => ?_
  cases heq
  exact ⟨hi, Function.update_self ..⟩

theorem Inv.close (h : Inv s) (k : ℕ) : Inv (close s k) := by
  unfold HttpClient.close
  have hdropped : Inv (s.pending.elim s fun n => { s with
      closed := Function.update s.closed n true
      pending := none }) := by
    cases hpending : s.pending with
    | none => exact h
    | some n =>
      exact h.drop (.inl rfl) (fun _ => h.closed_update (h.pending_lt n hpending)) (.inr rfl)
  generalize s.pending.elim s _ = t at hdropped ⊢
  dsimp only
  split
  · exact hdropped.over k (.inl rfl)
  · rename_i i hsession
    exact hdropped.shutDown (hdropped.session_lt i hsession) k

theorem Inv.step (h : Inv s) (hs : step maxBodySize s e = some s') : Inv s' := by
  cases step_way hs with
  | connected hnone =>
    exact { h with
      session_lt := fun i hi => by
        obtain rfl := Option.some.inj hi
        exact Nat.lt_succ_self _
      closing := fun k i hk => by
        obtain ⟨hlt, hshut⟩ := h.closing k i hk
        exact ⟨hlt.trans (Nat.lt_succ_self _), hshut⟩ }
  | connectRefused => exact h
  | sendRefused k data why hk => exact h.over k (.inr ⟨why, rfl⟩)
  | sending k data hk hpending hsending =>
    have hnew : ∀ j call, (∀ data, call ≠ .posting data) →
        (setCall s k (.posting data)).calls j = call → s.calls j = call := by
      intro j call hcall hj
      obtain ⟨-, hj⟩ | ⟨-, hj⟩ := update_call hj
      · exact absurd hj.symm (hcall data)
      · exact hj
    have hnone : ∀ j data', s.calls j ≠ .posting data' := by
      intro j data' hj
      cases (h.posting j data' hj).symm.trans hsending
    have honly : ∀ j data', (setCall s k (.posting data)).calls j = .posting data' → j = k := by
      intro j data' hj
      obtain ⟨hj, -⟩ | ⟨-, hj⟩ := update_call hj
      · exact hj
      · exact absurd hj (hnone j data')
    exact {
      posting := fun _ _ _ => rfl
      poster := fun i j data data' hi hj => (honly i data hi).trans (honly j data' hj).symm
      exclusive := fun _ => hpending
      pending_lt := h.pending_lt
      pending_open := h.pending_open
      closed_lt := h.closed_lt
      reading_lt := fun j n body hj => h.reading_lt j n body (hnew j _ (by nofun) hj)
      session_lt := h.session_lt
      closing := fun j i hj => h.closing j i (hnew j _ (by nofun) hj) }
  | posted k data status contentLength hk => exact h.posted hk status contentLength
  | postFailed k data hk => 
    exact h.endPost hk le_rfl (fun n hn => ⟨h.pending_lt n hn, h.pending_open n hn⟩) h.closed_lt
  | recvRefused k hk hpending => exact h.over k (.inr ⟨_, rfl⟩)
  | tooLong k n hk hpending => exact h.release (h.pending_lt n hpending) k s.delivered s.log
  | reading k n hk hpending => exact h.read (h.pending_lt n hpending) k [] s.delivered
  | overflowed k n body data hk hsize => exact h.release (h.reading_lt k n body hk) k _ s.log
  | read k n body data hk hsize => exact h.read (h.reading_lt k n body hk) k _ _
  | returned k n body hk => exact h.release (h.reading_lt k n body hk) k s.delivered _
  | readFailed k n body hk => exact h.release (h.reading_lt k n body hk) k s.delivered s.log
  | close k hk => exact h.close k
  | closed k i hk => exact (h.over k (.inl rfl)).drop (.inr ⟨rfl, rfl⟩) h.closed_lt (.inl rfl)
  | closeFailed k i hk => exact h.over k (.inl rfl)

theorem accounted_start : Accounted start where
  responses _ hn := absurd hn (Nat.not_lt_zero _)
  sessions _ hi := absurd hi (Nat.not_lt_zero _)

/-- A call goes on that reads no response. -/
theorem Accounted.goOn (h : Accounted s) {k : ℕ} (call : Call)
    (hk : ∀ n body, s.calls k ≠ .reading n body) : Accounted (setCall s k call) where
  responses n hn := by
    obtain hclosed | hpending | ⟨j, body, hj⟩ := h.responses n hn
    · exact .inl hclosed
    · exact .inr (.inl hpending)
    · have hjk : j ≠ k := by
        rintro rfl
        exact hk n body hj
      exact .inr (.inr ⟨j, body, (Function.update_of_ne hjk ..).trans hj⟩)
  sessions := h.sessions

theorem not_reading {call : Call} (hk : s.calls k = call) (hcall : ∀ n body, call ≠ .reading n body)
    (n : ℕ) (body : Bytes) : s.calls k ≠ .reading n body := fun h => hcall n body (hk.symm.trans h)

/-- A response that was kept is closed. -/
theorem Accounted.dropPending (h : Accounted s) {n : ℕ} (hpending : s.pending = some n) :
    Accounted { s with
      closed := Function.update s.closed n true
      pending := none } where
  responses m hm := by
    by_cases hmn : m = n
    · exact .inl (hmn ▸ Function.update_self ..)
    · obtain hclosed | hkept | hread := h.responses m hm
      · exact .inl ((Function.update_of_ne hmn ..).trans hclosed)
      · exact absurd (Option.some.inj (hkept.symm.trans hpending)) hmn
      · exact .inr (.inr hread)
  sessions := h.sessions

/-- The reader of a response goes on with it. -/
theorem Accounted.read (h : Accounted s) {n : ℕ} {body : Bytes} (hk : s.calls k = .reading n body)
    (body' : Bytes) (delivered : ℕ → Bytes) :
    Accounted { setCall s k (.reading n body') with delivered := delivered } where
  responses m hm := by
    obtain hclosed | hpending | ⟨j, data, hj⟩ := h.responses m hm
    · exact .inl hclosed
    · exact .inr (.inl hpending)
    · refine .inr (.inr ?_)
      by_cases hjk : j = k
      · subst hjk
        cases hk.symm.trans hj
        exact ⟨j, body', Function.update_self ..⟩
      · exact ⟨j, data, (Function.update_of_ne hjk ..).trans hj⟩
  sessions := h.sessions

theorem Accounted.posted (h : Accounted s) (hinv : Inv s) {data : Bytes}
    (hk : s.calls k = .posting data) (status : ℕ) (contentLength : Option ℕ) :
    Accounted (posted s k data status contentLength) := by
  have hnone : s.pending = none := hinv.exclusive (hinv.posting k data hk)
  have hover := h.goOn (k := k) .ended (not_reading hk (by nofun))
  have hold : ∀ n < s.responses, s.closed n = true ∨
      ∃ j body, (setCall s k .ended).calls j = .reading n body := by
    intro n hn
    obtain hclosed | hpending | hread := hover.responses n hn
    · exact .inl hclosed
    · cases hnone.symm.trans hpending
    · exact .inr hread
  have hupdate : ∀ n < s.responses + 1, Function.update s.closed s.responses true n = true ∨
      ∃ j body, (setCall s k .ended).calls j = .reading n body := by
    intro n hn
    obtain hlt | rfl := Nat.lt_succ_iff_lt_or_eq.mp hn
    · obtain hclosed | hread := hold n hlt
      · exact .inl ((Function.update_of_ne hlt.ne ..).trans hclosed)
      · exact .inr hread
    · exact .inl (Function.update_self ..)
  unfold HttpClient.posted
  dsimp only
  split_ifs
  · exact ⟨fun n hn => (hupdate n hn).imp_right .inr, h.sessions⟩
  · exact ⟨fun n hn => (hupdate n hn).imp_right .inr, h.sessions⟩
  · refine ⟨fun n hn => ?_, h.sessions⟩
    obtain hlt | rfl := Nat.lt_succ_iff_lt_or_eq.mp hn
    · exact (hold n hlt).imp_right .inr
    · exact .inr (.inl rfl)

theorem Accounted.close (h : Accounted s) (hk : s.calls k = .absent) :
    Accounted (close s k) := by
  unfold HttpClient.close
  have hdropped : Accounted (s.pending.elim s fun n => { s with
      closed := Function.update s.closed n true
      pending := none }) ∧ (s.pending.elim s fun n => { s with
      closed := Function.update s.closed n true
      pending := none }).calls k = .absent := by
    cases hpending : s.pending with
    | none => exact ⟨h, hk⟩
    | some n => exact ⟨h.dropPending hpending, hk⟩
  generalize s.pending.elim s _ = t at hdropped ⊢
  obtain ⟨hdropped, hk⟩ := hdropped
  have hcall : ∀ call, Accounted (setCall t k call) := fun call =>
    hdropped.goOn call (not_reading hk (by nofun))
  dsimp only
  split
  · exact hcall .ended
  · rename_i i hsession
    refine ⟨(hcall (.closing i)).responses, fun j hj => ?_⟩
    obtain hshut | hused := (hcall (.closing i)).sessions j hj
    · by_cases hji : j = i
      · exact .inl (hji ▸ Function.update_self ..)
      · exact .inl ((Function.update_of_ne hji ..).trans hshut)
    · obtain rfl := Option.some.inj (hsession.symm.trans hused)
      exact .inl (Function.update_self ..)

/-- A `recv` that ends loses a response exactly if another one is kept that nobody reads. -/
theorem accounted_release_iff (hinv : Inv s) (h : Accounted s) {n : ℕ} {body : Bytes}
    (hk : s.calls k = .reading n body) (delivered : ℕ → Bytes) (log : List Entry) :
    Accounted { release s k n with
      delivered := delivered
      log := log } ↔ ∀ m, s.pending = some m → m = n ∨
        ∃ j data, j ≠ k ∧ s.calls j = .reading m data := by
  constructor
  · intro h' m hm
    refine or_iff_not_imp_left.mpr fun hmn => ?_
    obtain hclosed | hkept | ⟨j, data, hj⟩ := h'.responses m (hinv.pending_lt m hm)
    · have hopen := hinv.pending_open m hm
      cases ((Function.update_of_ne hmn ..).symm.trans hclosed).symm.trans hopen
    · cases hkept
    · obtain ⟨-, hj⟩ | ⟨hjk, hj⟩ := update_call hj
      · cases hj
      · exact ⟨j, data, hjk, hj⟩
  · intro hspares
    refine ⟨fun m hm => ?_, h.sessions⟩
    have hreads : ∀ j data, j ≠ k → s.calls j = .reading m data →
        ∃ j data, (release s k n).calls j = .reading m data := fun j data hjk hj =>
      ⟨j, data, (Function.update_of_ne hjk ..).trans hj⟩
    by_cases hmn : m = n
    · exact .inl (hmn ▸ Function.update_self ..)
    · obtain hclosed | hkept | ⟨j, data, hj⟩ := h.responses m hm
      · exact .inl ((Function.update_of_ne hmn ..).trans hclosed)
      · obtain ⟨j, data, hjk, hj⟩ := (hspares m hkept).resolve_left hmn
        exact .inr (.inr (hreads j data hjk hj))
      · have hjk : j ≠ k := by
          rintro rfl
          cases hk.symm.trans hj
          exact hmn rfl
        exact .inr (.inr (hreads j data hjk hj))

/-- The end of a session that was told to close loses another one exactly if that one is in
use. -/
theorem accounted_closed_iff (hinv : Inv s) (h : Accounted s) {i : ℕ}
    (hk : s.calls k = .closing i) :
    Accounted { setCall s k .ended with session := none } ↔
      ∀ j, s.session = some j → j = i ∨ s.shut j = true := by
  constructor
  · intro h' j hj
    obtain hshut | hused := h'.sessions j (hinv.session_lt j hj)
    · exact .inr hshut
    · cases hused
  · intro hspares
    refine ⟨(h.goOn .ended (not_reading hk (by nofun))).responses, fun j hj => ?_⟩
    obtain hshut | hused := h.sessions j hj
    · exact .inl hshut
    · obtain rfl | hshut := hspares j hused
      · exact .inl (hinv.closing k j hk).2
      · exact .inl hshut

theorem spares_iff_of_release {n : ℕ} (hr : releases maxBodySize s e = some (k, n))
    (he : ∀ k, e ≠ .closed k) : Spares maxBodySize s e ↔ ∀ m, s.pending = some m → m = n ∨
      ∃ j data, j ≠ k ∧ s.calls j = .reading m data := by
  constructor
  · intro h m hm
    exact h.1 k n m hr hm
  · intro h
    refine ⟨fun k' n' m hr' hm => ?_, fun k' i j hk' => absurd hk' (he k')⟩
    cases hr.symm.trans hr'
    exact h m hm

/-- A step keeps the accounts exactly if it resets nothing that is not its own. -/
theorem accounted_step_iff (hinv : Inv s) (h : Accounted s)
    (hs : step maxBodySize s e = some s') : Accounted s' ↔ Spares maxBodySize s e := by
  have hspares : releases maxBodySize s e = none → (∀ k, e ≠ .closed k) →
      Spares maxBodySize s e := by
    intro hnone hclosed
    refine ⟨fun k n m hr => ?_, fun k i j hk => absurd hk (hclosed k)⟩
    cases hnone.symm.trans hr
  cases step_way hs with
  | connected hnone =>
    refine iff_of_true ⟨h.responses, fun i hi => ?_⟩ (hspares rfl (by nofun))
    obtain hlt | rfl := Nat.lt_succ_iff_lt_or_eq.mp hi
    · obtain hshut | hused := h.sessions i hlt
      · exact .inl hshut
      · cases hnone.symm.trans hused
    · exact .inr rfl
  | connectRefused => exact iff_of_true h (hspares rfl (by nofun))
  | sendRefused k data why hk =>
    exact iff_of_true (h.goOn _ (not_reading hk (by nofun))) (hspares rfl (by nofun))
  | sending k data hk =>
    have hcall := h.goOn (.posting data) (not_reading hk (by nofun))
    exact iff_of_true ⟨hcall.responses, hcall.sessions⟩ (hspares rfl (by nofun))
  | posted k data status contentLength hk =>
    exact iff_of_true (h.posted hinv hk status contentLength) (hspares rfl (by nofun))
  | postFailed k data hk =>
    have hcall := h.goOn .ended (not_reading hk (by nofun))
    exact iff_of_true ⟨hcall.responses, hcall.sessions⟩ (hspares rfl (by nofun))
  | recvRefused k hk =>
    exact iff_of_true (h.goOn _ (not_reading hk (by nofun))) (hspares rfl (by nofun))
  | tooLong k n hk hpending =>
    have hcall := h.goOn .ended (not_reading hk (by nofun))
    exact iff_of_true (hcall.dropPending hpending) (hspares rfl (by nofun))
  | reading k n hk =>
    exact iff_of_true (h.goOn _ (not_reading hk (by nofun))) (hspares rfl (by nofun))
  | overflowed k n body data hk hsize =>
    have hr : releases maxBodySize s (.chunk k data) = some (k, n) := by
      simp only [releases, hk, if_pos hsize]
    rw [spares_iff_of_release hr (by nofun)]
    exact accounted_release_iff hinv h hk _ s.log
  | read k n body data hk hsize =>
    have hr : releases maxBodySize s (.chunk k data) = none := by
      simp only [releases, hk, if_neg (Nat.not_lt.mpr hsize)]
    exact iff_of_true (h.read hk _ _) (hspares hr (by nofun))
  | returned k n body hk =>
    have hr : releases maxBodySize s (.eof k) = some (k, n) := by simp only [releases, hk]
    rw [spares_iff_of_release hr (by nofun)]
    exact accounted_release_iff hinv h hk s.delivered _
  | readFailed k n body hk =>
    have hr : releases maxBodySize s (.readFailed k) = some (k, n) := by simp only [releases, hk]
    rw [spares_iff_of_release hr (by nofun)]
    exact accounted_release_iff hinv h hk s.delivered s.log
  | close k hk => exact iff_of_true (h.close hk) (hspares rfl (by nofun))
  | closed k i hk =>
    rw [accounted_closed_iff hinv h hk]
    constructor
    · intro hothers
      refine ⟨fun _ _ _ hr => (nomatch hr), fun k' i' j he hk' hj => ?_⟩
      cases he
      cases hk.symm.trans hk'
      exact hothers j hj
    · exact fun hothers j hj => hothers.2 k i j rfl hk hj
  | closeFailed k i hk =>
    exact iff_of_true (h.goOn _ (not_reading hk (by nofun))) (hspares rfl (by nofun))

end

end WireRpc.HttpClient
