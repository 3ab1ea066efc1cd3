import WireRpc.AuthorizationGate
import WireRpc.HttpAccounting

/-!
# The turns of an app over HTTP

`App._listen` on an `HttpServerTransport`. Between the `recv` that returned a request and
the answer to it the app takes up the items of its message one by one, and `get_principal`
lets each of them pass: it shows the credentials of the active request again and looks
afterwards whether that request is still there. Requests, their deadlines and disconnects
and the close of the transport come in between at any await.
-/
namespace WireRpc.HttpTurns
open Library Execution

/-- Where `_listen` stands: before `recv`, awaiting it, inside `process` before an item, in
the authenticator or in a handler, between `process` and the answer, or over. -/
inductive Loop where
  | idle
  | receiving
  | between (items : List Json)
  | verifying (request : RawWireRequest) (items : List Json)
  | dispatching (items : List Json)
  | sending (response : Option Bytes)
  | ended

/-- Whether the app is busy with a request. -/
def Loop.inTurn : Loop → Bool
  | between _ | verifying .. | dispatching _ | sending _ => true
  | _ => false

/-- What the app does in a turn, and what happens meanwhile: `gone` is a deadline or a
disconnect of a request that waits for its response. -/
inductive Action where
  | received (r : ℕ)
  | taken (item : Json)
  | started (r : ℕ)
  | verified (verdict : Verdict)
  | entered (request : RawWireRequest) (principal : Option String)
  | gone (r : ℕ)
  | closed

/-- `activeRequest` is `_active_request` and `message` the argument of `process`.
`admitted`, the identity each request got from its own verification, and the trace belong to
the history. -/
structure State where
  http : HttpServer.State
  activeRequest : Option ℕ
  loop : Loop
  message : Bytes
  admitted : ℕ → Option (Option String)
  trace : List Action

def start : State := ⟨HttpServer.start, none, .idle, [], fun _ => none, []⟩

/-- `noticeStop` ends the wait for a message, `ended` is a handler that is over by whatever
way, `processed` carries the handlers of the message and the state they find, and `abandon`
is the end of the shutdown deadline. -/
inductive Event (W : Type) where
  | http (e : HttpServer.Event)
  | receive
  | poll
  | noticeStop
  | takeUp
  | verified (verdict : Verdict)
  | ended
  | processed (dispatch : Dispatch W) (host : Execution.State W)
  | abandon
  | sent

/-- The events that the app does not cause. A request gets past its authenticator with an
identity, and without one when there is no authenticator. -/
def fromOutside (authenticates : Bool) : HttpServer.Event → Bool
  | .body _ user _ => user.isSome == authenticates
  | .handle .. | .fail .. | .interrupt .. | .resume _ | .close => true
  | _ => false

/-- What the history keeps of an event of the transport. -/
def noted : HttpServer.Event → List Action
  | .interrupt r _ => [.gone r]
  | .close => [.closed]
  | _ => []

section
variable {W : Type} (c : HttpServer.Config) (authenticates : Bool) (app : ExecutionHost W)
  (s : State)

def record (actions : List Action) (loop : Loop) : State :=
  { s with
    loop := loop
    trace := s.trace ++ actions }

/-- The transport goes on without the app. -/
def observe (e : HttpServer.Event) (http : HttpServer.State) : State :=
  let s := { s with
    http := http
    trace := s.trace ++ noted e }
  match e with
  | .body r user _ => { s with admitted := Function.update s.admitted r (some user) }
  | .close => { s with activeRequest := none }
  | _ => s

/-- One round of the loop of `recv`. It returns a body, waits, or raises. -/
def poll : State :=
  let t := { s with http := HttpServer.poll s.http }
  if s.http.closing then { t with loop := .ended }
  else
    match (HttpServer.pop s.http.futures s.http.queue s.http.queuedBytes).1 with
    | none => { t with loop := .receiving }
    | some (data, r) =>
      if (s.http.principals r).isSome then
        { record t [.received r] (.between (AuthorizationGate.takenItems app data)) with
          activeRequest := some r
          message := data }
      else { t with loop := .ended }

/-- `self._active is None or self._active.done()`. -/
def isGone : Bool := s.http.active.elim true fun r => (s.http.futures r).done

/-- The last check of `get_principal`, and `dispatch` right after it. -/
def proceed (request : RawWireRequest) (items : List Json) : State :=
  if isGone s || s.http.closing then { s with loop := .between items }
  else record s [.entered request s.http.activePrincipal] (.dispatching items)

/-- `_process_one` up to the call of the authenticator. -/
def takeUp (item : Json) (items : List Json) : State :=
  let s := record s [.taken item] (.between items)
  match validate item with
  | none => s
  | some request =>
    if isGone s then s
    else if authenticates then
      match s.activeRequest with
      | some r => record s [.started r] (.verifying request items)
      | none => s -- the authenticator raises on `None`
    else proceed s request items

/-- The authenticator has answered. An exception becomes the answer to the item. -/
def answered (request : RawWireRequest) (items : List Json) : Verdict → State
  | .principal name =>
    if s.http.activePrincipal = some name then proceed s request items
    else { s with loop := .between items }
  | .cancelled => { s with loop := .ended }
  | _ => { s with loop := .between items }

/-- The loop sends the response, or `finish_notification` answers with 204. -/
def answer : Option Bytes → State
  | some data =>
    match HttpServer.send c s.http data with
    | .ok http =>
      { s with
        http := http
        activeRequest := none
        loop := .idle }
    | .error _ => { s with loop := .ended }
  | none =>
    { s with
      http := HttpServer.finishNotification s.http
      activeRequest := none
      loop := .idle }

def step : Event W → Option State
  | .http e =>
    if fromOutside authenticates e then (HttpServer.step c s.http e).map (observe s e) else none
  | .receive =>
    match s.loop with
    | .idle =>
      if s.http.receiving ∨ s.http.active ≠ none then some { s with loop := .ended }
      else some (poll app { s with http := { s.http with receiving := true } })
    | _ => none
  | .poll =>
    match s.loop with
    | .receiving => if s.http.receiving ∧ s.http.ready then some (poll app s) else none
    | _ => none
  | .noticeStop =>
    match s.loop with
    | .idle => some { s with loop := .ended }
    | .receiving =>
      some { s with
        http := { s.http with receiving := false }
        loop := .ended }
    | _ => none
  | .takeUp =>
    match s.loop with
    | .between (item :: items) => some (takeUp authenticates s item items)
    | _ => none
  | .verified verdict =>
    match s.loop with
    | .verifying request items =>
      some (answered (record s [.verified verdict] s.loop) request items verdict)
    | _ => none
  | .ended =>
    match s.loop with
    | .dispatching items => some { s with loop := .between items }
    | _ => none
  | .processed dispatch host =>
    match s.loop with
    | .between [] =>
      match (process app dispatch none s.message host).2 with
      | .value response => some { s with loop := .sending response }
      | _ => some { s with loop := .ended }
    | _ => none
  | .abandon => if s.loop.inTurn then some { s with loop := .ended } else none
  | .sent =>
    match s.loop with
    | .sending response => some (answer c s response)
    | _ => none

end

/-- What the task of the message does. -/
def Action.isTask : Action → Bool
  | taken _ | started _ | verified _ | entered .. => true
  | _ => false

/-- The last request that `recv` returned is `r`, and `turn` is what came after it. -/
def TurnOf (trace : List Action) (r : ℕ) (turn : List Action) : Prop :=
  ∃ earlier, trace = earlier ++ .received r :: turn ∧ ∀ k, .received k ∉ turn

/-- The task has just taken `item` up, and when the server authenticates it has shown the
credentials of `r` and got back the identity. -/
def Asked (authenticates : Bool) (r : ℕ) (item : Json) (principal : Option String)
    (turn : List Action) : Prop :=
  if authenticates then
    ∃ earlier name, turn.filter Action.isTask =
      earlier ++ [.taken item, .started r, .verified (.principal name)] ∧ principal = some name
  else ∃ earlier, turn.filter Action.isTask = earlier ++ [.taken item] ∧ principal = none

/-- Credentials are shown in the turn of their own request. `dispatch` is entered in the turn
of a request that has not given up, on a transport that is open, with the identity that this
request was admitted with and that the authenticator has just returned for it again. -/
def Licensed (authenticates : Bool) (admitted : ℕ → Option (Option String))
    (before : List Action) : Action → Prop
  | .started r => ∃ turn, TurnOf before r turn
  | .entered request principal => ∃ r turn item, TurnOf before r turn ∧
      Asked authenticates r item principal turn ∧ validate item = some request ∧
      admitted r = some principal ∧ .gone r ∉ before ∧ .closed ∉ before
  | _ => True

/-- The body has not arrived: nothing is known of the request. -/
def IsEarly (phase : HttpServer.Phase) : Prop := phase = .absent ∨ phase = .reading

/-- What a response says of the message: its bytes, or that there is nothing to answer. -/
def replyOf : HttpServer.HttpResponse → Option (Option Bytes)
  | .body data => some (some data)
  | .noContent => some none
  | .failed _ => none

/-- The active request stays what it is, what is done stays done, and a response that is
more than a failure is the result of its future. -/
structure Keeps (x y : HttpServer.State) : Prop where
  active : y.active = x.active
  activePrincipal : y.activePrincipal = x.activePrincipal
  closing : y.closing = x.closing
  done : ∀ r, (x.futures r).done = true → (y.futures r).done = true
  early : ∀ r, IsEarly (y.phases r) → IsEarly (x.phases r)
  result : ∀ r response, y.futures r = .result response → x.futures r = .result response
  log : ∀ entry ∈ x.log, entry ∈ y.log
  responded : ∀ r response reply, .responded r response ∈ y.log → replyOf response = some reply →
    .responded r response ∈ x.log ∨ x.futures r = .result reply

section
variable {c : HttpServer.Config} {authenticates : Bool} {x y z : HttpServer.State}
  {e : HttpServer.Event}

theorem Keeps.trans (h : Keeps x y) (h' : Keeps y z) : Keeps x z where
  active := h'.active.trans h.active
  activePrincipal := h'.activePrincipal.trans h.activePrincipal
  closing := h'.closing.trans h.closing
  done r hr := h'.done r (h.done r hr)
  early r hr := h.early r (h'.early r hr)
  result r response hr := h.result r response (h'.result r response hr)
  log entry he := h'.log entry (h.log entry he)
  responded r response reply hr hreply := by
    obtain hold | hresult := h'.responded r response reply hr hreply
    · exact h.responded r response reply hold hreply
    · exact .inr (h.result r reply hresult)

theorem early_update {phases : ℕ → HttpServer.Phase} {r k : ℕ} {phase : HttpServer.Phase}
    (h : IsEarly phase → IsEarly (phases r)) (hk : IsEarly (Function.update phases r phase k)) :
    IsEarly (phases k) := by
  by_cases hkr : k = r
  · subst hkr
    rw [Function.update_self] at hk
    exact h hk
  · rwa [Function.update_of_ne hkr] at hk

theorem not_early_ended (response : HttpServer.HttpResponse) : ¬ IsEarly (.ended response) := by
  rintro (h | h) <;> cases h

theorem not_early_waiting (data : Bytes) (failure : Option HttpServer.Failure) :
    ¬ IsEarly (.waiting data failure) := by
  rintro (h | h) <;> cases h

theorem keeps_respond (x : HttpServer.State) (r : ℕ) {response : HttpServer.HttpResponse}
    (hresponse : ∀ reply, replyOf response = some reply → x.futures r = .result reply) :
    Keeps x (HttpServer.respond x r response) where
  active := rfl
  activePrincipal := rfl
  closing := rfl
  done _ hk := hk
  early _ hk := early_update (fun h => absurd h (not_early_ended response)) hk
  result _ _ hk := hk
  log _ he := List.mem_append_left _ he
  responded k response' reply hk hreply := by
    obtain hk | hk := List.mem_append.mp hk
    · exact .inl hk
    · obtain ⟨rfl, rfl⟩ : k = r ∧ response' = response := by simpa using hk
      exact .inr (hresponse reply hreply)

theorem keeps_setFuture (x : HttpServer.State) (r : ℕ) : Keeps x
    (HttpServer.setFuture x r .cancelled) where
  active := HttpServer.setFuture_active ..
  activePrincipal := by
    unfold HttpServer.setFuture
    split <;> rfl
  closing := by
    unfold HttpServer.setFuture
    split <;> rfl
  done _ hk := HttpServer.setFuture_done rfl (.inr hk)
  early k hk := by rwa [HttpServer.setFuture_phases] at hk
  result k response hk := by
    obtain hsame | ⟨-, hnew⟩ := HttpServer.setFuture_futures x r .cancelled k
    · rwa [hsame] at hk
    · cases hnew.symm.trans hk
  log entry he := by rwa [HttpServer.setFuture_log]
  responded k response reply hk _ := by
    rw [HttpServer.setFuture_log] at hk
    exact .inl hk

theorem keeps_release (x : HttpServer.State) (r : ℕ) (entry : Option Bytes) :
    Keeps x (HttpServer.release x r entry) := by
  have hremove : Keeps x { x with
      pending := x.pending.erase r
      principals := Function.update x.principals r none } :=
    ⟨rfl, rfl, rfl, fun _ hk => hk, fun _ hk => hk, fun _ _ hk => hk, fun _ he => he,
      fun _ _ _ hk _ => .inl hk⟩
  have hset := hremove.trans (keeps_setFuture _ r)
  unfold HttpServer.release
  cases entry with
  | none => exact hset
  | some data =>
    dsimp only
    split
    · exact ⟨hset.active, hset.activePrincipal, hset.closing, hset.done, hset.early, hset.result,
        hset.log, hset.responded⟩
    · exact hset

/-- The `finally` block leaves a future alone that is done. -/
theorem keeps_finish (x : HttpServer.State) (r : ℕ) (entry : Option Bytes)
    {response : HttpServer.HttpResponse}
    (hresponse : ∀ reply, replyOf response = some reply → x.futures r = .result reply) :
    Keeps x (HttpServer.respond (HttpServer.release x r entry) r response) := by
  have hrelease := keeps_release x r entry
  exact {
    active := hrelease.active
    activePrincipal := hrelease.activePrincipal
    closing := hrelease.closing
    done := hrelease.done
    early := fun k hk => hrelease.early k
      (early_update (fun h => absurd h (not_early_ended response)) hk)
    result := hrelease.result
    log := fun entry he => List.mem_append_left _ (hrelease.log entry he)
    responded := by
      intro k response' reply hk hreply
      obtain hk | hk := List.mem_append.mp hk
      · exact hrelease.responded k response' reply hk hreply
      · obtain ⟨rfl, rfl⟩ : k = r ∧ response' = response := by simpa using hk
        exact .inr (hresponse reply hreply) }

/-- A failure is no reply. -/
theorem replyOf_failed {x : HttpServer.State} {r : ℕ} (failure : HttpServer.Failure)
    (reply : Option Bytes) (h : replyOf (.failed failure) = some reply) :
    x.futures r = .result reply := nomatch h

theorem result_of_outcome {future : HttpServer.Future} {earlier : Option HttpServer.Failure}
    {response : HttpServer.HttpResponse} {reply : Option Bytes}
    (h : HttpServer.outcome future earlier = some response)
    (hreply : replyOf response = some reply) : future = .result reply := by
  unfold HttpServer.outcome at h
  split at h <;> cases h <;> cases hreply <;> rfl

theorem keeps_handle {r : ℕ} (h : x.phases r = .absent) (originAllowed : Bool) :
    Keeps x (HttpServer.handle c x r originAllowed) := by
  unfold HttpServer.handle
  split_ifs
  · exact keeps_respond x r (replyOf_failed _)
  · exact keeps_respond x r (replyOf_failed _)
  · exact ⟨rfl, rfl, rfl, fun _ hk => hk, fun k hk => early_update (fun _ => .inl h) hk,
      fun _ _ hk => hk, fun _ he => he, fun _ _ _ hk _ => .inl hk⟩

theorem keeps_body (x : HttpServer.State) (r : ℕ) (user : Option String) (data : Bytes) :
    Keeps x (HttpServer.body c x r user data) := by
  unfold HttpServer.body
  split_ifs
  · exact keeps_finish x r none (replyOf_failed _)
  · exact keeps_finish x r none (replyOf_failed _)
  · exact keeps_finish x r none (replyOf_failed _)
  · refine ⟨rfl, rfl, rfl, fun _ hk => hk, fun k hk => ?_, fun _ _ hk => hk,
      fun _ he => List.mem_append_left _ he, fun k response reply hk _ => ?_⟩
    · exact early_update (fun h => absurd h (not_early_waiting data none)) hk
    · obtain hk | hk := List.mem_append.mp hk
      · exact .inl hk
      · simp at hk

theorem not_early_body (x : HttpServer.State) (r : ℕ) (user : Option String) (data : Bytes) :
    ¬ IsEarly ((HttpServer.body c x r user data).phases r) := by
  have hended : ∀ response, ¬ IsEarly
      ((HttpServer.respond (HttpServer.release x r none) r response).phases r) := by
    intro response
    rw [show (HttpServer.respond (HttpServer.release x r none) r response).phases r =
      .ended response from Function.update_self ..]
    exact not_early_ended response
  unfold HttpServer.body
  split_ifs
  · exact hended _
  · exact hended _
  · exact hended _
  · show ¬ IsEarly (Function.update x.phases r (.waiting data none) r)
    rw [Function.update_self]
    exact not_early_waiting data none

theorem keeps_interrupt (x : HttpServer.State) (r : ℕ) (data : Bytes)
    (earlier : Option HttpServer.Failure) (timedOut : Bool) :
    Keeps x (HttpServer.interrupt x r data earlier timedOut) := by
  have hset := keeps_setFuture x r
  refine ⟨hset.active, hset.activePrincipal, hset.closing, hset.done, fun k hk => ?_, hset.result,
    hset.log, hset.responded⟩
  exact early_update (fun h => absurd h (not_early_waiting data _)) hk

theorem done_close (x : HttpServer.State) {r : ℕ} (h : (x.futures r).done = true) :
    ((HttpServer.close x).futures r).done = true := by
  show HttpServer.Future.done (if _ then _ else _) = true
  split_ifs
  · rfl
  · exact h

/-- Whatever comes from outside leaves the active request alone, until the transport is
closed. -/
theorem keeps_outside (houtside : fromOutside authenticates e = true)
    (hs : HttpServer.step c x e = some y) (he : e ≠ .close) : Keeps x y := by
  cases HttpServer.step_move hs with
  | handled r originAllowed h => exact keeps_handle h originAllowed
  | failed r failure h => exact keeps_finish x r none (replyOf_failed failure)
  | read r user data h => exact keeps_body x r user data
  | interrupted r data earlier timedOut h => exact keeps_interrupt x r data earlier timedOut
  | resumed r data earlier response h hout =>
    exact keeps_finish x r (some data) fun reply => result_of_outcome hout
  | closed => exact absurd rfl he
  | _ => cases houtside

/-- A principal is recorded with the body of its request. -/
theorem principals_outside (houtside : fromOutside authenticates e = true)
    (hs : HttpServer.step c x e = some y) {k : ℕ} {user : Option String}
    (hk : y.principals k = some user) :
    x.principals k = some user ∨ ∃ data, e = .body k user data := by
  have hrelease : ∀ {r entry response}, (HttpServer.respond
      (HttpServer.release x r entry) r response).principals k = some user →
      x.principals k = some user := by
    intro r entry response h
    rw [show (HttpServer.respond (HttpServer.release x r entry) r response).principals =
      (HttpServer.release x r entry).principals from rfl, HttpServer.release_principals] at h
    by_cases hkr : k = r
    · subst hkr
      cases (Function.update_self ..).symm.trans h
    · rwa [Function.update_of_ne hkr] at h
  cases HttpServer.step_move hs with
  | handled r originAllowed h =>
    left
    unfold HttpServer.handle at hk
    split_ifs at hk <;> exact hk
  | failed r failure h => exact .inl (hrelease hk)
  | read r name data h =>
    unfold HttpServer.body at hk
    split_ifs at hk
    · exact .inl (hrelease hk)
    · exact .inl (hrelease hk)
    · exact .inl (hrelease hk)
    · have hupdate : Function.update x.principals r (some name) k = some user := hk
      by_cases hkr : k = r
      · subst hkr
        rw [Function.update_self] at hupdate
        obtain rfl := Option.some.inj hupdate
        exact .inr ⟨data, rfl⟩
      · rw [Function.update_of_ne hkr] at hupdate
        exact .inl hupdate
  | interrupted r data earlier timedOut h =>
    left
    rwa [show (HttpServer.interrupt x r data earlier timedOut).principals =
      (HttpServer.setFuture x r .cancelled).principals from rfl,
      HttpServer.setFuture_principals] at hk
  | resumed r data earlier response h hout => exact .inl (hrelease hk)
  | closed => exact .inl hk
  | _ => cases houtside

end

structure Inv (c : HttpServer.Config) (authenticates : Bool) (s : State) : Prop where
  http : HttpServer.Inv s.http
  accounted : HttpServer.Accounted c s.http
  early : ∀ r, IsEarly (s.http.phases r) → s.admitted r = none
  principals : ∀ r user, s.http.principals r = some user → s.admitted r = some user
  turn : ∀ r, s.http.active = some r → s.activeRequest = some r ∧
    s.admitted r = some s.http.activePrincipal ∧ ∃ turn, TurnOf s.trace r turn
  gone : ∀ r, .gone r ∈ s.trace → (s.http.futures r).done = true
  closed : .closed ∈ s.trace → s.http.closing = true
  asked : ∀ request items, s.loop = .verifying request items → authenticates = true ∧
    ∀ r, s.http.active = some r → ∃ turn earlier item, TurnOf s.trace r turn ∧
      turn.filter Action.isTask = earlier ++ [.taken item, .started r] ∧
      validate item = some request
  named : ∀ r user, s.admitted r = some user → user.isSome = authenticates
  licensed : AtEach (fun before action _ => Licensed authenticates s.admitted before action) s.trace

section
variable {c : HttpServer.Config} {authenticates : Bool} {s s' : State}
  {admitted admitted' : ℕ → Option (Option String)} {trace turn actions : List Action} {r : ℕ}

theorem Licensed.mono (hadmitted : ∀ r user, admitted r = some user → admitted' r = some user)
    {action : Action} (h : Licensed authenticates admitted trace action) :
    Licensed authenticates admitted' trace action := by
  cases action with
  | entered request principal =>
    obtain ⟨r, turn, item, hturn, hasked, hitem, hknown, hgone, hclosed⟩ := h
    exact ⟨r, turn, item, hturn, hasked, hitem, hadmitted r _ hknown, hgone, hclosed⟩
  | _ => exact h

theorem TurnOf.append (h : TurnOf trace r turn) (hactions : ∀ k, .received k ∉ actions) :
    TurnOf (trace ++ actions) r (turn ++ actions) := by
  obtain ⟨earlier, rfl, hturn⟩ := h
  refine ⟨earlier, by simp, fun k hk => ?_⟩
  obtain hk | hk := List.mem_append.mp hk
  · exact hturn k hk
  · exact hactions k hk

theorem turnOf_received (trace : List Action) (r : ℕ) : TurnOf (trace ++ [.received r]) r [] :=
  ⟨trace, rfl, fun _ hk => nomatch hk⟩

/-- What is noted of the transport is no part of a task. -/
theorem noted_quiet (e : HttpServer.Event) :
    (∀ k, .received k ∉ noted e) ∧ (noted e).filter Action.isTask = [] := by
  cases e <;> simp [noted, Action.isTask]

theorem inv_start (c : HttpServer.Config) (authenticates : Bool) : Inv c authenticates start where
  http := HttpServer.inv_start
  accounted := HttpServer.accounted_start c
  early _ _ := rfl
  principals _ _ h := nomatch h
  turn _ h := nomatch h
  gone _ h := nomatch h
  closed h := nomatch h
  asked _ _ h := nomatch h
  named _ _ h := nomatch h
  licensed := atEach_nil _

theorem Inv.licensed_append (h : Inv c authenticates s)
    (hadmitted : ∀ r user, s.admitted r = some user → admitted' r = some user) {action : Action}
    (haction : Licensed authenticates admitted' s.trace action) :
    AtEach (fun before action _ => Licensed authenticates admitted' before action)
      (s.trace ++ [action]) :=
  AtEach.concat (h.licensed.mono fun _ _ _ hl => hl.mono hadmitted) (fun _ _ _ _ hl => hl) haction

/-- The loop goes to another place, where it does not wait for the authenticator. -/
theorem Inv.goto (h : Inv c authenticates s) {loop : Loop}
    (hloop : ∀ request items, loop ≠ .verifying request items) :
    Inv c authenticates { s with loop := loop } :=
  { h with asked := fun request items hl => absurd hl (hloop request items) }

/-- A licensed action of the task. -/
theorem Inv.act (h : Inv c authenticates s) {action : Action} {loop : Loop}
    (htask : action.isTask = true) (haction : Licensed authenticates s.admitted s.trace action)
    (hasked : ∀ request items, loop = .verifying request items → authenticates = true ∧
      ∀ r, s.http.active = some r → ∃ turn earlier item,
        TurnOf (s.trace ++ [action]) r turn ∧
        turn.filter Action.isTask = earlier ++ [.taken item, .started r] ∧
        validate item = some request) : Inv c authenticates (record s [action] loop) where
  http := h.http
  accounted := h.accounted
  early := h.early
  principals := h.principals
  turn r hr := by
    obtain ⟨hrequest, hknown, turn, hturn⟩ := h.turn r hr
    refine ⟨hrequest, hknown, turn ++ [action], hturn.append fun k hk => ?_⟩
    rw [← List.mem_singleton.mp hk] at htask
    cases htask
  gone r hr := by
    obtain hr | hr := List.mem_append.mp hr
    · exact h.gone r hr
    · rw [← List.mem_singleton.mp hr] at htask
      cases htask
  closed hc := by
    obtain hc | hc := List.mem_append.mp hc
    · exact h.closed hc
    · rw [← List.mem_singleton.mp hc] at htask
      cases htask
  asked := hasked
  named := h.named
  licensed := h.licensed_append (fun _ _ hk => hk) haction

section
variable (s) (e : HttpServer.Event) (http : HttpServer.State)

@[simp] theorem observe_http : (observe s e http).http = http := by
  unfold observe
  cases e <;> rfl

@[simp] theorem observe_trace : (observe s e http).trace = s.trace ++ noted e := by
  unfold observe
  cases e <;> rfl

@[simp] theorem observe_loop : (observe s e http).loop = s.loop := by
  unfold observe
  cases e <;> rfl

theorem observe_activeRequest (he : e ≠ .close) :
    (observe s e http).activeRequest = s.activeRequest := by
  unfold observe
  cases e with
  | close => exact absurd rfl he
  | _ => rfl

end

section
variable {e : HttpServer.Event} {http : HttpServer.State}

theorem Inv.admitted_observe (h : Inv c authenticates s)
    (hs : HttpServer.step c s.http e = some http) (r : ℕ) (user : Option String)
    (hr : s.admitted r = some user) : (observe s e http).admitted r = some user := by
  cases e with
  | body k name data =>
    show Function.update s.admitted k (some name) r = some user
    by_cases hrk : r = k
    · subst hrk
      cases HttpServer.step_move hs with
      | read _ _ _ hphase => cases hr.symm.trans (h.early r (.inr hphase))
    · rwa [Function.update_of_ne hrk]
  | _ => exact hr

theorem Inv.licensed_observe (h : Inv c authenticates s)
    (hs : HttpServer.step c s.http e = some http) :
    AtEach (fun before action _ =>
      Licensed authenticates (observe s e http).admitted before action) (s.trace ++ noted e) := by
  have hadmitted := h.admitted_observe hs
  have hquiet : AtEach (fun before action _ =>
      Licensed authenticates (observe s e http).admitted before action) (s.trace ++ []) := by
    rw [List.append_nil]
    exact h.licensed.mono fun _ _ _ hl => hl.mono hadmitted
  cases e with
  | interrupt r timedOut => exact h.licensed_append hadmitted trivial
  | close => exact h.licensed_append hadmitted trivial
  | _ => exact hquiet

theorem Inv.gone_observe (h : Inv c authenticates s)
    (hs : HttpServer.step c s.http e = some http)
    (hdone : ∀ r, (s.http.futures r).done = true → (http.futures r).done = true)
    (hr : .gone r ∈ s.trace ++ noted e) : (http.futures r).done = true := by
  obtain hr | hr := List.mem_append.mp hr
  · exact hdone r (h.gone r hr)
  · cases e with
    | interrupt k timedOut =>
      obtain rfl : r = k := by simpa [noted] using hr
      cases HttpServer.step_move hs with
      | interrupted _ data earlier _ hphase =>
        exact HttpServer.setFuture_done (s := s.http) (r := r) rfl (.inl rfl)
    | _ => simp [noted] at hr

/-- The transport does something on its own. -/
theorem Inv.observe (h : Inv c authenticates s)
    (houtside : fromOutside authenticates e = true)
    (hs : HttpServer.step c s.http e = some http) :
    Inv c authenticates (observe s e http) := by
  obtain ⟨hnone, htask⟩ := noted_quiet e
  by_cases he : e = .close
  · subst he
    obtain rfl := Option.some.inj hs
    exact {
      http := h.http.close
      accounted := h.accounted.close
      early := h.early
      principals := h.principals
      turn := fun r hr => nomatch hr
      gone := fun r hr => h.gone_observe hs (fun k => done_close s.http) hr
      closed := fun _ => rfl
      asked := fun request items hl => ⟨(h.asked request items hl).1, fun r hr => nomatch hr⟩
      named := h.named
      licensed := h.licensed_observe hs }
  · have hkeeps := keeps_outside houtside hs he
    exact {
      http := by
        rw [observe_http]
        exact HttpServer.inv_step h.http hs
      accounted := by
        rw [observe_http]
        exact HttpServer.accounted_step h.http h.accounted hs
      early := by
        intro r hr
        rw [observe_http] at hr
        have hold := h.early r (hkeeps.early r hr)
        cases e with
        | body k name data =>
          cases HttpServer.step_move hs with
          | read _ _ _ hphase =>
            have hrk : r ≠ k := by
              rintro rfl
              exact not_early_body s.http r name data hr
            exact (Function.update_of_ne hrk ..).trans hold
        | _ => exact hold
      principals := by
        intro r user hr
        rw [observe_http] at hr
        obtain hold | ⟨data, rfl⟩ := principals_outside houtside hs hr
        · exact h.admitted_observe hs r user (h.principals r user hold)
        · exact Function.update_self ..
      turn := by
        intro r hr
        rw [observe_http, hkeeps.active] at hr
        obtain ⟨hrequest, hknown, turn, hturn⟩ := h.turn r hr
        refine ⟨(observe_activeRequest s e http he).trans hrequest, ?_, turn ++ noted e, ?_⟩
        · rw [observe_http, hkeeps.activePrincipal]
          exact h.admitted_observe hs r _ hknown
        · rw [observe_trace]
          exact hturn.append hnone
      gone := by
        intro r hr
        rw [observe_trace] at hr
        rw [observe_http]
        exact h.gone_observe hs hkeeps.done hr
      closed := by
        intro hc
        rw [observe_trace] at hc
        rw [observe_http, hkeeps.closing]
        obtain hc | hc := List.mem_append.mp hc
        · exact h.closed hc
        · cases e with
          | close => exact absurd rfl he
          | _ => simp [noted] at hc
      asked := by
        intro request items hl
        rw [observe_loop] at hl
        obtain ⟨hauth, hasked⟩ := h.asked request items hl
        refine ⟨hauth, fun r hr => ?_⟩
        rw [observe_http, hkeeps.active] at hr
        obtain ⟨turn, earlier, item, hturn, hfilter, hitem⟩ := hasked r hr
        refine ⟨turn ++ noted e, earlier, item, ?_, ?_, hitem⟩
        · rw [observe_trace]
          exact hturn.append hnone
        · rw [List.filter_append, htask, List.append_nil, hfilter]
      named := by
        intro r user hr
        cases e with
        | body k name data =>
          obtain hr : Function.update s.admitted k (some name) r = some user := hr
          by_cases hrk : r = k
          · subst hrk
            rw [Function.update_self] at hr
            obtain rfl := Option.some.inj hr
            exact beq_iff_eq.mp houtside
          · rw [Function.update_of_ne hrk] at hr
            exact h.named r user hr
        | _ => exact h.named r user hr
      licensed := by
        rw [observe_trace]
        exact h.licensed_observe hs }

end

/-- A call of the app ends the turn. -/
structure Ends (x y : HttpServer.State) : Prop where
  active : y.active = none
  phases : y.phases = x.phases
  principals : y.principals = x.principals
  closing : y.closing = x.closing
  done : ∀ r, (x.futures r).done = true → (y.futures r).done = true

theorem ends_setFuture (x : HttpServer.State) (r : ℕ) (response : Option Bytes)
    (log : List HttpServer.Entry) : Ends x { HttpServer.setFuture x r (.result response) with
      active := none
      activePrincipal := none
      log := log } where
  active := rfl
  phases := HttpServer.setFuture_phases ..
  principals := HttpServer.setFuture_principals ..
  closing := by
    unfold HttpServer.setFuture
    split <;> rfl
  done _ hk := HttpServer.setFuture_done rfl (.inr hk)

theorem send_eq {x y : HttpServer.State} {data : Bytes} (hs : HttpServer.send c x data = .ok y) :
    ∃ r, x.active = some r ∧ y = { HttpServer.setFuture x r (.result (some data)) with
      active := none
      activePrincipal := none
      log := x.log ++ [.sent data] } := by
  unfold HttpServer.send at hs
  split_ifs at hs
  cases hactive : x.active with
  | none => simp [hactive] at hs
  | some r =>
    simp only [hactive, Except.ok.injEq] at hs
    exact ⟨r, rfl, hs.symm⟩

theorem ends_send {x y : HttpServer.State} {data : Bytes}
    (hs : HttpServer.send c x data = .ok y) : Ends x y := by
  obtain ⟨r, -, rfl⟩ := send_eq hs
  exact ends_setFuture x r (some data) _

theorem ends_finishNotification (x : HttpServer.State) :
    Ends x (HttpServer.finishNotification x) := by
  unfold HttpServer.finishNotification
  cases x.active with
  | none => exact ⟨rfl, rfl, rfl, rfl, fun _ hr => hr⟩
  | some r => exact ends_setFuture x r none _

theorem Inv.leave (h : Inv c authenticates s) {http : HttpServer.State}
    (hinv : HttpServer.Inv http) (haccounted : HttpServer.Accounted c http)
    (hends : Ends s.http http) : Inv c authenticates { s with
      http := http
      activeRequest := none
      loop := .idle } where
  http := hinv
  accounted := haccounted
  early := by
    rw [hends.phases]
    exact h.early
  principals := by
    rw [hends.principals]
    exact h.principals
  turn r hr := nomatch hends.active.symm.trans hr
  gone r hr := hends.done r (h.gone r hr)
  closed hc := hends.closing.trans (h.closed hc)
  asked request items hl := nomatch hl
  named := h.named
  licensed := h.licensed

theorem Inv.answer (h : Inv c authenticates s) (response : Option Bytes) :
    Inv c authenticates (answer c s response) := by
  cases response with
  | none =>
    exact h.leave h.http.finishNotification h.accounted.finishNotification
      (ends_finishNotification s.http)
  | some data =>
    unfold HttpTurns.answer
    dsimp only
    split
    · rename_i http hs
      exact h.leave (h.http.send hs) (h.accounted.send hs) (ends_send hs)
    · exact h.goto (by nofun)

theorem loop_ne_verifying {loop : Loop} (h : s.loop = loop)
    (hloop : ∀ request items, loop ≠ .verifying request items) (request : RawWireRequest)
    (items : List Json) : s.loop ≠ .verifying request items := fun hl =>
  hloop request items (h.symm.trans hl)

/-- Only the queue and the wait for it change. -/
structure Stays (x y : HttpServer.State) : Prop where
  active : y.active = x.active := by rfl
  activePrincipal : y.activePrincipal = x.activePrincipal := by rfl
  closing : y.closing = x.closing := by rfl
  phases : y.phases = x.phases := by rfl
  principals : y.principals = x.principals := by rfl
  futures : y.futures = x.futures := by rfl
  log : y.log = x.log := by rfl

theorem Inv.stay (h : Inv c authenticates s) {http : HttpServer.State} {loop : Loop}
    (hinv : HttpServer.Inv http) (haccounted : HttpServer.Accounted c http)
    (hstays : Stays s.http http) (hloop : ∀ request items, loop ≠ .verifying request items) :
    Inv c authenticates { s with
      http := http
      loop := loop } where
  http := hinv
  accounted := haccounted
  early := by
    rw [hstays.phases]
    exact h.early
  principals := by
    rw [hstays.principals]
    exact h.principals
  turn := by
    rw [hstays.active, hstays.activePrincipal]
    exact h.turn
  gone := by
    rw [hstays.futures]
    exact h.gone
  closed hc := hstays.closing.trans (h.closed hc)
  asked request items hl := absurd hl (hloop request items)
  named := h.named
  licensed := h.licensed

/-- What one round of `recv` takes is the next request that has not given up. -/
theorem poll_found {x : HttpServer.State} {data : Bytes} {user : Option String}
    (hopen : x.closing = false)
    (hfound : (HttpServer.pop x.futures x.queue x.queuedBytes).1 = some (data, r))
    (huser : x.principals r = some user) :
    (HttpServer.poll x).active = some r ∧ (HttpServer.poll x).activePrincipal = user ∧
      (HttpServer.poll x).closing = x.closing ∧ (HttpServer.poll x).phases = x.phases ∧
      (HttpServer.poll x).principals = x.principals ∧
      (HttpServer.poll x).futures = x.futures ∧
      (HttpServer.poll x).log = x.log ++ [.received r data] := by
  unfold HttpServer.poll
  cases hpop : HttpServer.pop x.futures x.queue x.queuedBytes with
  | mk found rest =>
    rw [hpop] at hfound
    obtain rfl : found = some (data, r) := hfound
    simp [hopen, huser]

theorem stays_poll {x : HttpServer.State} (h : x.closing = true ∨
    (HttpServer.pop x.futures x.queue x.queuedBytes).1 = none) : Stays x (HttpServer.poll x) := by
  unfold HttpServer.poll
  split_ifs with hclosing
  · exact {}
  · have hnone := h.resolve_left hclosing
    cases hpop : HttpServer.pop x.futures x.queue x.queuedBytes with
    | mk found rest =>
      rw [hpop] at hnone
      obtain rfl : found = none := hnone
      exact {}

section
variable {W : Type} {app : ExecutionHost W}

/-- `recv` returns the body of a request, which is in its turn from now on. -/
theorem Inv.poll (h : Inv c authenticates s) : Inv c authenticates (poll app s) := by
  have hinv := h.http.poll
  have haccounted := h.accounted.poll h.http
  unfold HttpTurns.poll
  cases hclosing : s.http.closing with
  | true => exact h.stay hinv haccounted (stays_poll (.inl hclosing)) (by nofun)
  | false =>
    cases hfound : (HttpServer.pop s.http.futures s.http.queue s.http.queuedBytes).1 with
    | none => exact h.stay hinv haccounted (stays_poll (.inr hfound)) (by nofun)
    | some entry =>
      obtain ⟨data, r⟩ := entry
      have hwaiting := h.http.popped_waiting (Prod.ext hfound rfl)
      obtain ⟨user, huser⟩ := Option.isSome_iff_exists.mp (h.accounted.admitted hwaiting).2
      obtain ⟨hactive, hprincipal, hsame, hphases, hprincipals, hfutures, -⟩ :=
        poll_found hclosing hfound huser
      simp only [huser]
      exact {
        http := hinv
        accounted := haccounted
        early := hphases ▸ h.early
        principals := hprincipals ▸ h.principals
        turn := by
          intro k hk
          obtain rfl : r = k := Option.some.inj (hactive.symm.trans hk)
          refine ⟨rfl, ?_, [], turnOf_received s.trace r⟩
          exact (h.principals r user huser).trans (congrArg some hprincipal.symm)
        gone := by
          intro k hk
          have hold : .gone k ∈ s.trace := by simpa [record] using hk
          exact (congrFun hfutures k).symm ▸ h.gone k hold
        closed := by
          intro hc
          have hold : .closed ∈ s.trace := by simpa [record] using hc
          exact hsame.trans (h.closed hold)
        asked := by nofun
        named := h.named
        licensed := h.licensed_append (fun _ _ hk => hk) trivial }

theorem Inv.proceed (h : Inv c authenticates s) {request : RawWireRequest} (items : List Json)
    (hasked : ∀ r, s.http.active = some r → ∃ turn item, TurnOf s.trace r turn ∧
      Asked authenticates r item s.http.activePrincipal turn ∧ validate item = some request) :
    Inv c authenticates (proceed s request items) := by
  unfold HttpTurns.proceed
  split_ifs with hgone
  · exact h.goto (by nofun)
  · rw [Bool.or_eq_true, not_or, Bool.not_eq_true, Bool.not_eq_true] at hgone
    obtain ⟨hpending, hopen⟩ := hgone
    cases hactive : s.http.active with
    | none => simp [isGone, hactive] at hpending
    | some r =>
      have hpending : (s.http.futures r).done = false := by simpa [isGone, hactive] using hpending
      obtain ⟨turn, item, hturn, hask, hitem⟩ := hasked r hactive
      obtain ⟨-, hknown, -⟩ := h.turn r hactive
      refine h.act rfl ⟨r, turn, item, hturn, hask, hitem, hknown, fun hr => ?_, fun hc => ?_⟩
        (by nofun)
      · cases (h.gone r hr).symm.trans hpending
      · cases (h.closed hc).symm.trans hopen

theorem Inv.takeUp (h : Inv c authenticates s) (item : Json) (items : List Json) :
    Inv c authenticates (takeUp authenticates s item items) := by
  have htaken : Inv c authenticates (record s [.taken item] (.between items)) :=
    h.act rfl trivial (by nofun)
  unfold HttpTurns.takeUp
  cases hitem : validate item with
  | none => exact htaken
  | some request =>
    dsimp only
    split_ifs with hgone hauth
    · exact htaken
    · cases hrequest : s.activeRequest with
      | none => simpa [record, hrequest] using htaken
      | some r =>
        have hactive : s.http.active = some r := by
          cases hactive : s.http.active with
          | none => simp [isGone, record, hactive] at hgone
          | some k => rw [← (h.turn k hactive).1, hrequest]
        obtain ⟨-, -, turn, hturn⟩ := h.turn r hactive
        have hturn' : TurnOf (s.trace ++ [.taken item]) r (turn ++ [.taken item]) :=
          hturn.append (by simp)
        have hstarted : Inv c authenticates (record (record s [.taken item] (.between items))
            [.started r] (.verifying request items)) := by
          refine htaken.act rfl ⟨_, hturn'⟩ fun request' items' hl => ⟨hauth, fun k hk => ?_⟩
          cases hl
          obtain rfl : r = k := Option.some.inj (hactive.symm.trans hk)
          refine ⟨_, turn.filter Action.isTask, item, hturn'.append (by simp), ?_, hitem⟩
          simp [Action.isTask]
        simpa only [record, hrequest] using hstarted
    · refine htaken.proceed items fun r hr => ?_
      obtain ⟨-, hknown, turn, hturn⟩ := h.turn r hr
      have hnone := h.named r _ hknown
      refine ⟨turn ++ [.taken item], item, ?_, ?_, hitem⟩
      · exact hturn.append (by simp)
      · unfold Asked
        rw [if_neg hauth, List.filter_append]
        refine ⟨turn.filter Action.isTask, rfl, ?_⟩
        rw [Bool.eq_false_of_not_eq_true hauth] at hnone
        exact Option.isNone_iff_eq_none.mp (Option.isSome_eq_false_iff.mp hnone)

theorem Inv.answered (h : Inv c authenticates s) {request : RawWireRequest} {items : List Json}
    (hloop : s.loop = .verifying request items) (verdict : Verdict) :
    Inv c authenticates (answered (record s [.verified verdict] s.loop) request items verdict) := by
  have hverified : Inv c authenticates (record s [.verified verdict] (.between items)) :=
    h.act rfl trivial (by nofun)
  obtain ⟨hauth, hasked⟩ := h.asked request items hloop
  cases verdict with
  | principal name =>
    unfold HttpTurns.answered
    dsimp only
    split_ifs with hsame
    · show Inv c authenticates (HttpTurns.proceed
        (record s [.verified (.principal name)] (.between items)) request items)
      refine hverified.proceed items fun r hr => ?_
      obtain ⟨turn, earlier, item, hturn, hfilter, hitem⟩ := hasked r hr
      refine ⟨turn ++ [.verified (.principal name)], item, ?_, ?_, hitem⟩
      · exact hturn.append (by simp)
      · unfold Asked
        rw [if_pos hauth, List.filter_append, hfilter]
        exact ⟨earlier, name, by simp [Action.isTask], hsame⟩
    · exact hverified
  | cancelled => exact hverified.goto (by nofun)
  | _ => exact hverified

theorem Inv.step {e : Event W} (h : Inv c authenticates s)
    (hs : step c authenticates app s e = some s') : Inv c authenticates s' := by
  cases e with
  | http e =>
    obtain ⟨houtside, hs⟩ := Option.ite_none_right_eq_some.mp hs
    obtain ⟨http, hstep, rfl⟩ := Option.map_eq_some_iff.mp hs
    exact h.observe houtside hstep
  | receive =>
    simp only [HttpTurns.step] at hs
    split at hs
    case h_2 => cases hs
    rename_i hloop
    split_ifs at hs
    · exact Option.some.inj hs ▸ h.goto (by nofun)
    · have hwaits := h.stay (h.http.waits true) (h.accounted.waits true) {}
        (loop_ne_verifying hloop (by nofun))
      exact Option.some.inj hs ▸ hwaits.poll
  | poll =>
    simp only [HttpTurns.step] at hs
    split at hs
    case h_2 => cases hs
    obtain ⟨-, hs⟩ := Option.ite_none_right_eq_some.mp hs
    exact Option.some.inj hs ▸ h.poll
  | noticeStop =>
    simp only [HttpTurns.step] at hs
    split at hs
    · exact Option.some.inj hs ▸ h.goto (by nofun)
    · exact Option.some.inj hs ▸ h.stay (h.http.waits false) (h.accounted.waits false) {} (by nofun)
    · cases hs
  | takeUp =>
    simp only [HttpTurns.step] at hs
    split at hs
    case h_2 => cases hs
    exact Option.some.inj hs ▸ h.takeUp _ _
  | verified verdict =>
    simp only [HttpTurns.step] at hs
    split at hs
    case h_2 => cases hs
    rename_i request items hloop
    exact Option.some.inj hs ▸ h.answered hloop verdict
  | ended =>
    simp only [HttpTurns.step] at hs
    split at hs
    case h_2 => cases hs
    exact Option.some.inj hs ▸ h.goto (by nofun)
  | processed dispatch host =>
    simp only [HttpTurns.step] at hs
    split at hs
    case h_2 => cases hs
    split at hs
    · exact Option.some.inj hs ▸ h.goto (by nofun)
    · exact Option.some.inj hs ▸ h.goto (by nofun)
  | abandon =>
    obtain ⟨-, hs⟩ := Option.ite_none_right_eq_some.mp hs
    exact Option.some.inj hs ▸ h.goto (by nofun)
  | sent =>
    simp only [HttpTurns.step] at hs
    split at hs
    case h_2 => cases hs
    exact Option.some.inj hs ▸ h.answer _

end
end

end WireRpc.HttpTurns
