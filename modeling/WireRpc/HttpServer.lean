import WireRpc.Codec

/-!
# The HTTP server transport

`HttpServerTransport` joins many concurrent HTTP requests to the sequential
`recv` and `send` of one app. Every request waits on a future of its own. The
events are the stretches of code between two awaits, so a run is one
interleaving of requests, their timeouts and disconnects, and the app's calls.
-/
namespace WireRpc.HttpServer

structure Config where
  maxPendingRequests : ℕ
  maxBodySize : ℕ
  maxQueueBytes : ℕ

/-- The future that a request waits on. `result none` stands for a notification. -/
inductive Future where
  | pending
  | result (data : Option Bytes)
  | exception
  | cancelled
  deriving DecidableEq

def Future.done : Future → Bool
  | pending => false
  | _ => true

/-- A request ends without a body: an error status, or its client is gone. -/
inductive Failure where
  | status (code : ℕ)
  | disconnected

inductive HttpResponse where
  | failed (failure : Failure)
  | noContent
  | body (data : Bytes)

/-- Where `_handle` stands: not called, at an await before the body is complete,
waiting for its future, or over. A waiting task may be cancelled after its
future is done; it then ends with `interrupted`. -/
inductive Phase where
  | absent
  | reading
  | waiting (data : Bytes) (interrupted : Option Failure)
  | ended (response : HttpResponse)

/-- The history. A request is a number, the body of a request is queued and then
received, and `sent` is a `send` that did not raise. -/
inductive Entry where
  | queued (r : ℕ) (data : Bytes)
  | received (r : ℕ) (data : Bytes)
  | sent (data : Bytes)
  | finished
  | responded (r : ℕ) (response : HttpResponse)

structure State where
  closing : Bool
  receiving : Bool
  ready : Bool
  active : Option ℕ
  activePrincipal : Option String
  queue : List (Bytes × ℕ)
  queuedBytes : ℤ
  pending : Finset ℕ
  principals : ℕ → Option (Option String)
  futures : ℕ → Future
  phases : ℕ → Phase
  log : List Entry

def start : State where
  closing := false
  receiving := false
  ready := false
  active := none
  activePrincipal := none
  queue := []
  queuedBytes := 0
  pending := ∅
  principals := fun _ => none
  futures := fun _ => .pending
  phases := fun _ => .absent
  log := []

/-- `fail` is any exception at an await before the body is complete: the
credentials are refused, the deadline passes, the client disconnects.
`interrupt` is a deadline or a disconnect while waiting for the response. -/
inductive Event where
  | handle (r : ℕ) (originAllowed : Bool)
  | fail (r : ℕ) (failure : Failure)
  | body (r : ℕ) (user : Option String) (data : Bytes)
  | interrupt (r : ℕ) (timedOut : Bool)
  | resume (r : ℕ)
  | recv
  | poll
  | cancelRecv
  | send (data : Bytes)
  | finishNotification
  | close

def respond (s : State) (r : ℕ) (response : HttpResponse) : State :=
  { s with
    phases := Function.update s.phases r (.ended response)
    log := s.log ++ [.responded r response] }

def setFuture (s : State) (r : ℕ) (future : Future) : State :=
  if (s.futures r).done then s else { s with futures := Function.update s.futures r future }

/-- The `finally` block of `_handle`. -/
def release (s : State) (r : ℕ) (entry : Option Bytes) : State :=
  let s := setFuture { s with
    pending := s.pending.erase r
    principals := Function.update s.principals r none } r .cancelled
  match entry with
  | none => s
  | some data =>
    if (data, r) ∈ s.queue then
      { s with queue := s.queue.erase (data, r), queuedBytes := s.queuedBytes - data.length }
    else s

def handle (c : Config) (s : State) (r : ℕ) (originAllowed : Bool) : State :=
  if s.closing ∨ c.maxPendingRequests ≤ s.pending.card then
    respond s r (.failed (.status 503))
  else if !originAllowed then respond s r (.failed (.status 403))
  else
    { s with
      pending := insert r s.pending
      phases := Function.update s.phases r .reading }

/-- The body has arrived: the request is refused or queued. -/
def body (c : Config) (s : State) (r : ℕ) (user : Option String) (data : Bytes) : State :=
  if s.closing then respond (release s r none) r (.failed (.status 503))
  else if c.maxBodySize < data.length then respond (release s r none) r (.failed (.status 413))
  else if c.maxQueueBytes < s.queuedBytes + data.length then
    respond (release s r none) r (.failed (.status 503))
  else
    { s with
      principals := Function.update s.principals r (some user)
      queuedBytes := s.queuedBytes + data.length
      queue := s.queue ++ [(data, r)]
      ready := true
      phases := Function.update s.phases r (.waiting data none)
      log := s.log ++ [.queued r data] }

/-- Cancelling a task that awaits a pending future cancels the future. Once the
future is done the task remembers the cancellation until it resumes. A deadline
that meets another cancellation is not reported as a timeout. -/
def interrupt (s : State) (r : ℕ) (data : Bytes) (interrupted : Option Failure)
    (timedOut : Bool) : State :=
  let failure := if timedOut then interrupted.getD (.status 504) else .disconnected
  { setFuture s r .cancelled with
    phases := Function.update s.phases r (.waiting data (some failure)) }

/-- What a waiting task ends with when its future is done. -/
def outcome (future : Future) (interrupted : Option Failure) : Option HttpResponse :=
  match future, interrupted with
  | .pending, _ => none
  | _, some failure => some (.failed failure)
  | .result none, none => some .noContent
  | .result (some data), none => some (.body data)
  | .exception, none => some (.failed (.status 503))
  | .cancelled, none => some (.failed .disconnected)

/-- The inner loop of `recv` skips requests that already gave up. -/
def pop (futures : ℕ → Future) :
    List (Bytes × ℕ) → ℤ → Option (Bytes × ℕ) × List (Bytes × ℕ) × ℤ
  | [], queuedBytes => (none, [], queuedBytes)
  | (data, r) :: rest, queuedBytes =>
    if (futures r).done then pop futures rest (queuedBytes - data.length)
    else (some (data, r), rest, queuedBytes - data.length)

/-- One round of the loop of `recv`, up to its return, its exception or its await. -/
def poll (s : State) : State :=
  if s.closing then { s with receiving := false }
  else
    match pop s.futures s.queue s.queuedBytes with
    | (none, rest, queuedBytes) =>
      { s with queue := rest, queuedBytes := queuedBytes, ready := false }
    | (some (data, r), rest, queuedBytes) =>
      let s := { s with
        queue := rest
        queuedBytes := queuedBytes
        active := some r
        receiving := false }
      match s.principals r with
      | none => s -- the lookup raises `KeyError` after `_active` is set
      | some user => { s with activePrincipal := user, log := s.log ++ [.received r data] }

inductive SendError where
  | tooLarge
  | closed
  | unowned

def send (c : Config) (s : State) (data : Bytes) : Except SendError State :=
  if c.maxBodySize < data.length then .error .tooLarge
  else if s.closing then .error .closed
  else
    match s.active with
    | none => .error .unowned
    | some r =>
      .ok { setFuture s r (.result (some data)) with
        active := none
        activePrincipal := none
        log := s.log ++ [.sent data] }

def finishNotification (s : State) : State :=
  let t := s.active.elim s fun r => setFuture s r (.result none)
  { t with active := none, activePrincipal := none, log := s.log ++ [.finished] }

def close (s : State) : State :=
  { s with
    closing := true
    ready := true
    futures := fun r =>
      if r ∈ s.pending ∧ (s.futures r).done = false then .exception else s.futures r
    queue := []
    queuedBytes := 0
    active := none
    activePrincipal := none }

/-- A call that raises leaves the state as it is. An event that the state does not
allow is refused. -/
def step (c : Config) (s : State) : Event → Option State
  | .handle r originAllowed =>
    match s.phases r with
    | .absent => some (handle c s r originAllowed)
    | _ => none
  | .fail r failure =>
    match s.phases r with
    | .reading => some (respond (release s r none) r (.failed failure))
    | _ => none
  | .body r user data =>
    match s.phases r with
    | .reading => some (body c s r user data)
    | _ => none
  | .interrupt r timedOut =>
    match s.phases r with
    | .waiting data interrupted => some (interrupt s r data interrupted timedOut)
    | _ => none
  | .resume r =>
    match s.phases r with
    | .waiting data interrupted =>
      (outcome (s.futures r) interrupted).map (respond (release s r (some data)) r)
    | _ => none
  | .recv =>
    if s.receiving ∨ s.active ≠ none then some s else some (poll { s with receiving := true })
  | .poll => if s.receiving ∧ s.ready then some (poll s) else none
  | .cancelRecv => if s.receiving then some { s with receiving := false } else none
  | .send data =>
    match send c s data with
    | .ok t => some t
    | .error _ => some s
  | .finishNotification => some (finishNotification s)
  | .close => some (close s)

/-- The steps, one constructor for each way through the code. -/
inductive Move (c : Config) (s : State) : Event → State → Prop where
  | handled (r : ℕ) (originAllowed : Bool) (h : s.phases r = .absent) :
      Move c s (.handle r originAllowed) (handle c s r originAllowed)
  | failed (r : ℕ) (failure : Failure) (h : s.phases r = .reading) :
      Move c s (.fail r failure) (respond (release s r none) r (.failed failure))
  | read (r : ℕ) (user : Option String) (data : Bytes) (h : s.phases r = .reading) :
      Move c s (.body r user data) (body c s r user data)
  | interrupted (r : ℕ) (data : Bytes) (earlier : Option Failure) (timedOut : Bool)
      (h : s.phases r = .waiting data earlier) :
      Move c s (.interrupt r timedOut) (interrupt s r data earlier timedOut)
  | resumed (r : ℕ) (data : Bytes) (earlier : Option Failure) (response : HttpResponse)
      (h : s.phases r = .waiting data earlier)
      (hout : outcome (s.futures r) earlier = some response) :
      Move c s (.resume r) (respond (release s r (some data)) r response)
  | recvRejected (h : s.receiving ∨ s.active ≠ none) : Move c s .recv s
  | received (h : ¬ (s.receiving ∨ s.active ≠ none)) :
      Move c s .recv (poll { s with receiving := true })
  | polled (h : s.receiving ∧ s.ready) : Move c s .poll (poll s)
  | recvCancelled (h : s.receiving) : Move c s .cancelRecv { s with receiving := false }
  | sent (data : Bytes) (s' : State) (h : send c s data = .ok s') : Move c s (.send data) s'
  | sendRejected (data : Bytes) (h : ∀ s', send c s data ≠ .ok s') : Move c s (.send data) s
  | finished : Move c s .finishNotification (finishNotification s)
  | closed : Move c s .close (close s)

theorem step_move {c : Config} {s s' : State} {e : Event} (hs : step c s e = some s') :
    Move c s e s' := by
  cases e with
  | handle r originAllowed =>
    simp only [step] at hs
    split at hs
    case h_1 hphase =>
      obtain rfl := Option.some.inj hs
      exact .handled r originAllowed hphase
    case h_2 => cases hs
  | fail r failure =>
    simp only [step] at hs
    split at hs
    case h_1 hphase =>
      obtain rfl := Option.some.inj hs
      exact .failed r failure hphase
    case h_2 => cases hs
  | body r user data =>
    simp only [step] at hs
    split at hs
    case h_1 hphase =>
      obtain rfl := Option.some.inj hs
      exact .read r user data hphase
    case h_2 => cases hs
  | interrupt r timedOut =>
    simp only [step] at hs
    split at hs
    case h_1 data earlier hphase =>
      obtain rfl := Option.some.inj hs
      exact .interrupted r data earlier timedOut hphase
    case h_2 => cases hs
  | resume r =>
    simp only [step] at hs
    split at hs
    case h_1 data earlier hphase =>
      obtain ⟨response, hout, rfl⟩ := Option.map_eq_some_iff.mp hs
      exact .resumed r data earlier response hphase hout
    case h_2 => cases hs
  | recv =>
    simp only [step] at hs
    split_ifs at hs with hbusy
    · exact Option.some.inj hs ▸ .recvRejected hbusy
    · exact Option.some.inj hs ▸ .received hbusy
  | poll =>
    simp only [step] at hs
    split_ifs at hs with hready
    exact Option.some.inj hs ▸ .polled hready
  | cancelRecv =>
    simp only [step] at hs
    split_ifs at hs with hreceiving
    exact Option.some.inj hs ▸ .recvCancelled hreceiving
  | send data =>
    simp only [step] at hs
    split at hs
    case h_1 t hsend =>
      obtain rfl := Option.some.inj hs
      exact .sent data t hsend
    case h_2 hsend =>
      obtain rfl := Option.some.inj hs
      refine .sendRejected data fun s' hok => ?_
      cases hok.symm.trans hsend
  | finishNotification => exact Option.some.inj hs ▸ .finished
  | close => exact Option.some.inj hs ▸ .closed

section
variable (s : State) (r : ℕ) (entry : Option Bytes) (future : Future)

@[simp] theorem setFuture_log : (setFuture s r future).log = s.log := by
  unfold setFuture
  split <;> rfl

@[simp] theorem setFuture_active : (setFuture s r future).active = s.active := by
  unfold setFuture
  split <;> rfl

@[simp] theorem setFuture_queue : (setFuture s r future).queue = s.queue := by
  unfold setFuture
  split <;> rfl

@[simp] theorem setFuture_principals : (setFuture s r future).principals = s.principals := by
  unfold setFuture
  split <;> rfl

@[simp] theorem setFuture_phases : (setFuture s r future).phases = s.phases := by
  unfold setFuture
  split <;> rfl

/-- A future changes once, and only from pending. -/
theorem setFuture_futures (k : ℕ) : (setFuture s r future).futures k = s.futures k ∨
    (k = r ∧ (setFuture s r future).futures k = future) := by
  unfold setFuture
  split_ifs with hdone
  · exact .inl rfl
  · by_cases hk : k = r
    · subst k
      exact .inr ⟨rfl, Function.update_self ..⟩
    · exact .inl (Function.update_of_ne hk ..)

@[simp] theorem release_log : (release s r entry).log = s.log := by
  unfold release
  cases entry with
  | none => simp
  | some data => dsimp only; split <;> simp

@[simp] theorem release_active : (release s r entry).active = s.active := by
  unfold release
  cases entry with
  | none => simp
  | some data => dsimp only; split <;> simp

@[simp] theorem release_phases : (release s r entry).phases = s.phases := by
  unfold release
  cases entry with
  | none => simp
  | some data => dsimp only; split <;> simp

theorem release_principals : (release s r entry).principals =
    Function.update s.principals r none := by
  unfold release
  cases entry with
  | none => simp
  | some data => dsimp only; split <;> simp

theorem release_queue : (release s r entry).queue =
    entry.elim s.queue fun data => s.queue.erase (data, r) := by
  unfold release
  cases entry with
  | none => simp
  | some data =>
    dsimp only
    split_ifs with hmem
    · simp
    · rw [setFuture_queue] at hmem ⊢
      exact (List.erase_of_not_mem hmem).symm

theorem release_futures {k : ℕ} {d : Option Bytes}
    (h : (release s r entry).futures k = .result d) : s.futures k = .result d := by
  have hset : (setFuture { s with
      pending := s.pending.erase r
      principals := Function.update s.principals r none } r .cancelled).futures k =
      .result d := by
    unfold release at h
    cases entry with
    | none => exact h
    | some data =>
      dsimp only at h
      split at h <;> exact h
  obtain heq | ⟨-, hcancelled⟩ := setFuture_futures { s with
    pending := s.pending.erase r
    principals := Function.update s.principals r none } r .cancelled k
  · rwa [heq] at hset
  · rw [hcancelled] at hset
    cases hset

end

/-- What `pop` takes from the queue: requests that gave up, then one that did not. -/
theorem pop_spec {futures : ℕ → Future} {queue rest : List (Bytes × ℕ)} {n m : ℤ}
    {found : Option (Bytes × ℕ)} (h : pop futures queue n = (found, rest, m)) :
    ∃ skipped, queue = skipped ++ found.toList ++ rest ∧
      ∀ p, found = some p → futures p.2 = .pending := by
  induction queue generalizing n with
  | nil =>
    simp only [pop, Prod.mk.injEq] at h
    obtain ⟨rfl, rfl, -⟩ := h
    exact ⟨[], rfl, fun p hp => nomatch hp⟩
  | cons entry queue ih =>
    obtain ⟨data, r⟩ := entry
    simp only [pop] at h
    split_ifs at h with hdone
    · obtain ⟨skipped, rfl, hfound⟩ := ih h
      exact ⟨(data, r) :: skipped, by simp, hfound⟩
    · simp only [Prod.mk.injEq] at h
      obtain ⟨rfl, rfl, -⟩ := h
      refine ⟨[], rfl, fun p hp => ?_⟩
      obtain rfl := Option.some.inj hp
      cases hf : futures r with
      | pending => rfl
      | _ => simp [hf, Future.done] at hdone

end WireRpc.HttpServer
