import WireRpc.HttpAlternation
import WireRpc.HttpAnswers

/-!
# Exchanges over HTTP

Any number of `HttpClientTransport`s and an app on an `HttpServerTransport`. HTTP joins a
POST of a client to a request of the server: the request has the body of the POST, its POST
gets the response, and the body of the response arrives in pieces. Connections break at any
time, on either side.
-/
namespace WireRpc.HttpExchange
open Library Execution

/-- A message on its way: the client, the call of `send` and the body. -/
structure Post where
  client : ℕ
  call : ℕ
  data : Bytes
  deriving DecidableEq

/-- Request `r` of the server is POST `r`. `origin` says whose response a response of a client
is, and belongs to the history. -/
structure State where
  server : HttpTurns.State
  clients : ℕ → HttpClient.State
  posts : List Post
  origin : ℕ → ℕ → Option ℕ

def start : State where
  server := HttpTurns.start
  clients := fun _ => HttpClient.start
  posts := []
  origin := fun _ _ => none

/-- `client` is what a client does on its own, or what fails there. The others bring it the
response to its POST, with a content length or without, a piece of the body and its end. -/
inductive Event (W : Type) where
  | server (e : HttpTurns.Event W)
  | client (i : ℕ) (e : HttpClient.Event)
  | respond (r : ℕ) (announced : Bool)
  | chunk (i k : ℕ) (data : Bytes)
  | eof (i k : ℕ)

/-- The response to a request, once there is one. -/
def responseOf (log : List HttpServer.Entry) (r : ℕ) : Option HttpServer.HttpResponse :=
  log.findSome? fun
    | .responded k response => if k = r then some response else none
    | _ => none

/-- The status line. A failure has an error status, or nobody is left to get one. -/
def statusOf : HttpServer.HttpResponse → Option ℕ
  | .body _ => some 200
  | .noContent => some 204
  | .failed (.status code) => if 400 ≤ code then some code else none
  | .failed .disconnected => none

def contentLengthOf : HttpServer.HttpResponse → Option ℕ
  | .body data => some data.length
  | _ => none

/-- What the server may do: a request comes from a POST, with its body. -/
def serves {W : Type} (posts : List Post) : HttpTurns.Event W → Bool
  | .http (.handle r _) => (posts[r]?).isSome
  | .http (.body r _ data) => (posts[r]?).any fun post => post.data == data
  | _ => true

/-- What a client does by itself. -/
def isOwn : HttpClient.Event → Bool
  | .posted .. | .chunk .. | .eof _ => false
  | _ => true

section
variable {W : Type} (c : HttpServer.Config) (authenticates : Bool) (app : ExecutionHost W)
  (maxBodySize : ℕ) (s : State)

def setClient (i : ℕ) (client : HttpClient.State) : State :=
  { s with clients := Function.update s.clients i client }

/-- The POST that the call has begun, if it has. -/
def begun (i : ℕ) (client : HttpClient.State) : HttpClient.Event → List Post
  | .send k _ =>
    match client.calls k with
    | .posting data => [⟨i, k, data⟩]
    | _ => []
  | _ => []

/-- The body that call `k` of client `i` is about to read, and what it has read of it. -/
def incoming (i k : ℕ) : Option (Bytes × Bytes) :=
  match (s.clients i).calls k with
  | .reading n _ => do
    let r ← s.origin i n
    match ← responseOf s.server.http.log r with
    | .body data => some (data, (s.clients i).delivered n)
    | _ => none
  | _ => none

/-- The response reaches the client that still waits for it. -/
def respond (r : ℕ) (announced : Bool) : Option State := do
  let post ← s.posts[r]?
  let response ← responseOf s.server.http.log r
  let status ← statusOf response
  let client := s.clients post.client
  let client' ← HttpClient.step maxBodySize client
    (.posted post.call status (if announced then contentLengthOf response else none))
  return { setClient s post.client client' with
    origin := Function.update s.origin post.client
      (Function.update (s.origin post.client) client.responses (some r)) }

def step : Event W → Option State
  | .server e =>
    if serves s.posts e then
      (HttpTurns.step c authenticates app s.server e).map fun server => { s with server := server }
    else none
  | .client i e =>
    if isOwn e then
      (HttpClient.step maxBodySize (s.clients i) e).map fun client =>
        { setClient s i client with posts := s.posts ++ begun i client e }
    else none
  | .respond r announced => respond maxBodySize s r announced
  | .chunk i k data => do
    let (body, delivered) ← incoming s i k
    if (delivered ++ data).isPrefixOf body then
      (HttpClient.step maxBodySize (s.clients i) (.chunk k data)).map (setClient s i)
    else none
  | .eof i k => do
    let (body, delivered) ← incoming s i k
    if delivered = body then
      (HttpClient.step maxBodySize (s.clients i) (.eof k)).map (setClient s i)
    else none

end

/-- Each client lets a `recv` or a `close` end before it begins another one. -/
def Exclusive {W : Type} (s : State) : Event W → Prop
  | .client i e => HttpClient.Exclusive (s.clients i) e
  | _ => True

/-- A `recv` or a `close` begins. -/
def begins {W : Type} : Event W → Bool
  | .client _ (.recv _) | .client _ (.close _) => true
  | _ => false

theorem exclusive_of_not_begins {W : Type} {s : State} {e : Event W} (h : begins e = false) :
    Exclusive s e := by
  cases e with
  | client i e =>
    cases e with
    | recv | close => cases h
    | _ => trivial
  | _ => trivial

/-- What a client has got from its own messages: each body it returned, and each 204, is what
`process` gave to the message of the `send` before. -/
structure Answered {W : Type} (app : ExecutionHost W) (client : HttpClient.State) : Prop where
  follows : AtEach (fun before entry _ => ∀ n body, entry = .returned n body →
    ∃ earlier, before = earlier ++ [.held n]) client.log
  increasing : (HttpClient.sentIds client.log).Pairwise (· < ·)
  returned : ∀ n body, .returned n body ∈ client.log →
    HttpTurns.Processes app (client.requests n) (some body)
  accepted : ∀ n, .accepted n ∈ client.log → HttpTurns.Processes app (client.requests n) none

/-- The log grows, and a body is queued with the event that brings it. -/
def Grows (log log' : List HttpServer.Entry) (e : HttpServer.Event) : Prop :=
  ∃ added, log' = log ++ added ∧
    ∀ r data, .queued r data ∈ added → ∃ user, e = .body r user data

section
variable {c : HttpServer.Config} {x y : HttpServer.State} {e : HttpServer.Event}

theorem grows_same (log : List HttpServer.Entry) (e : HttpServer.Event) : Grows log log e :=
  ⟨[], (List.append_nil log).symm, fun _ _ h => nomatch h⟩

theorem grows_entry (log : List HttpServer.Entry) (e : HttpServer.Event)
    {entry : HttpServer.Entry} (h : ∀ r data, entry ≠ .queued r data) :
    Grows log (log ++ [entry]) e :=
  ⟨[entry], rfl, fun r data hr => absurd (List.mem_singleton.mp hr).symm (h r data)⟩

theorem grows_finish (x : HttpServer.State) (r : ℕ) (entry : Option Bytes)
    (response : HttpServer.HttpResponse) (e : HttpServer.Event) :
    Grows x.log (HttpServer.respond (HttpServer.release x r entry) r response).log e := by
  unfold HttpServer.respond
  dsimp only
  rw [HttpServer.release_log]
  exact grows_entry _ e (by nofun)

theorem grows_poll (x : HttpServer.State) (e : HttpServer.Event) :
    Grows x.log (HttpServer.poll x).log e := by
  unfold HttpServer.poll
  split_ifs
  · exact grows_same _ e
  · split
    · exact grows_same _ e
    · dsimp only
      split
      · exact grows_same _ e
      · exact grows_entry _ e (by nofun)

theorem grows_send {data : Bytes} (hs : HttpServer.send c x data = .ok y)
    (e : HttpServer.Event) : Grows x.log y.log e := by
  obtain ⟨r, -, rfl⟩ := HttpTurns.send_eq hs
  exact grows_entry _ e (by nofun)

theorem grows_step (hs : HttpServer.step c x e = some y) : Grows x.log y.log e := by
  cases HttpServer.step_move hs with
  | handled r originAllowed h =>
    unfold HttpServer.handle
    split_ifs
    · exact grows_entry _ _ (by nofun)
    · exact grows_entry _ _ (by nofun)
    · exact grows_same _ _
  | failed r failure h => exact grows_finish x r none _ _
  | read r user data h =>
    unfold HttpServer.body
    split_ifs
    · exact grows_finish x r none _ _
    · exact grows_finish x r none _ _
    · exact grows_finish x r none _ _
    · refine ⟨[.queued r data], rfl, fun k data' hk => ?_⟩
      obtain ⟨rfl, rfl⟩ : k = r ∧ data' = data := by simpa using hk
      exact ⟨user, rfl⟩
  | interrupted r data earlier timedOut h =>
    unfold HttpServer.interrupt
    dsimp only
    rw [HttpServer.setFuture_log]
    exact grows_same _ _
  | resumed r data earlier response h hout => exact grows_finish x r (some data) response _
  | recvRejected => exact grows_same _ _
  | received => exact grows_poll { x with receiving := true } _
  | polled => exact grows_poll x _
  | recvCancelled => exact grows_same _ _
  | sent data _ hsend => exact grows_send hsend _
  | sendRejected => exact grows_same _ _
  | finished => exact grows_entry _ _ (by nofun)
  | closed => exact grows_same _ _

end

section
variable {W : Type} {c : HttpServer.Config} {authenticates : Bool} {app : ExecutionHost W}
  {s s' : HttpTurns.State} {e : HttpTurns.Event W}

theorem poll_http (s : HttpTurns.State) :
    (HttpTurns.poll app s).http = HttpServer.poll s.http := by
  unfold HttpTurns.poll
  dsimp only
  split_ifs
  · rfl
  · split
    · rfl
    · split_ifs
      · rfl
      · rfl

theorem takeUp_http (s : HttpTurns.State) (item : Json) (items : List Json) :
    (HttpTurns.takeUp authenticates s item items).http = s.http := by
  unfold HttpTurns.takeUp
  dsimp only
  split
  · rfl
  · split_ifs
    · rfl
    · split
      · rfl
      · rfl
    · exact (HttpTurns.proceed_spec _ _ _).1

theorem answered_http (s : HttpTurns.State) (request : RawWireRequest) (items : List Json)
    (verdict : Verdict) : (HttpTurns.answered s request items verdict).http = s.http := by
  cases verdict with
  | principal name =>
    unfold HttpTurns.answered
    dsimp only
    split_ifs
    · exact (HttpTurns.proceed_spec s request items).1
    · rfl
  | _ => rfl

/-- Bodies are queued from outside. -/
theorem turns_grow (hs : HttpTurns.step c authenticates app s e = some s') :
    ∃ e', (∀ r user data, e' = .body r user data → e = .http e') ∧
      Grows s.http.log s'.http.log e' := by
  cases e with
  | http e =>
    obtain ⟨-, hs⟩ := Option.ite_none_right_eq_some.mp hs
    obtain ⟨http, hstep, rfl⟩ := Option.map_eq_some_iff.mp hs
    refine ⟨e, fun _ _ _ _ => rfl, ?_⟩
    rw [HttpTurns.observe_http]
    exact grows_step hstep
  | receive =>
    refine ⟨.recv, by rintro _ _ _ ⟨⟩, ?_⟩
    simp only [HttpTurns.step] at hs
    split at hs
    case h_2 => cases hs
    split_ifs at hs
    · exact Option.some.inj hs ▸ grows_same _ _
    · obtain rfl := Option.some.inj hs
      rw [poll_http]
      exact grows_poll { s.http with receiving := true } _
  | poll =>
    refine ⟨.recv, by rintro _ _ _ ⟨⟩, ?_⟩
    simp only [HttpTurns.step] at hs
    split at hs
    case h_2 => cases hs
    obtain ⟨-, hs⟩ := Option.ite_none_right_eq_some.mp hs
    obtain rfl := Option.some.inj hs
    rw [poll_http]
    exact grows_poll s.http _
  | takeUp =>
    refine ⟨.recv, by rintro _ _ _ ⟨⟩, ?_⟩
    simp only [HttpTurns.step] at hs
    split at hs
    case h_2 => cases hs
    obtain rfl := Option.some.inj hs
    rw [takeUp_http]
    exact grows_same _ _
  | verified verdict =>
    refine ⟨.recv, by rintro _ _ _ ⟨⟩, ?_⟩
    simp only [HttpTurns.step] at hs
    split at hs
    case h_2 => cases hs
    obtain rfl := Option.some.inj hs
    rw [answered_http]
    exact grows_same _ _
  | sent =>
    refine ⟨.recv, by rintro _ _ _ ⟨⟩, ?_⟩
    simp only [HttpTurns.step] at hs
    split at hs
    case h_2 => cases hs
    rename_i response hloop
    obtain rfl := Option.some.inj hs
    cases response with
    | none => exact grows_entry _ _ (by rintro _ _ ⟨⟩)
    | some data =>
      unfold HttpTurns.answer
      dsimp only
      split
      · rename_i http hsend
        exact grows_send hsend _
      · exact grows_same _ _
  | noticeStop =>
    refine ⟨.recv, by rintro _ _ _ ⟨⟩, ?_⟩
    simp only [HttpTurns.step] at hs
    split at hs
    · exact Option.some.inj hs ▸ grows_same _ _
    · exact Option.some.inj hs ▸ grows_same _ _
    · cases hs
  | ended =>
    refine ⟨.recv, by rintro _ _ _ ⟨⟩, ?_⟩
    simp only [HttpTurns.step] at hs
    split at hs
    case h_2 => cases hs
    exact Option.some.inj hs ▸ grows_same _ _
  | processed dispatch host =>
    refine ⟨.recv, by rintro _ _ _ ⟨⟩, ?_⟩
    simp only [HttpTurns.step] at hs
    split at hs
    case h_2 => cases hs
    split at hs
    · exact Option.some.inj hs ▸ grows_same _ _
    · exact Option.some.inj hs ▸ grows_same _ _
  | abandon =>
    refine ⟨.recv, by rintro _ _ _ ⟨⟩, ?_⟩
    obtain ⟨-, hs⟩ := Option.ite_none_right_eq_some.mp hs
    exact Option.some.inj hs ▸ grows_same _ _

end

section
variable {maxBodySize : ℕ} {x y : HttpClient.State} {e : HttpClient.Event} {k : ℕ}

/-- A call goes on: no call is forgotten, and a POST is begun by `send`. -/
structure Calls (x y : HttpClient.State) (e : HttpClient.Event) : Prop where
  known : ∀ k, x.calls k ≠ .absent → y.calls k ≠ .absent
  posting : ∀ k data, y.calls k = .posting data → x.calls k = .posting data ∨
    (x.calls k = .absent ∧ e = .send k data)

/-- What `send` has returned and `recv` has read stays as it is. -/
structure Retains (x y : HttpClient.State) : Prop where
  responses : y.responses = x.responses := by rfl
  requests : y.requests = x.requests := by rfl
  log : y.log = x.log := by rfl

theorem Calls.congr {z : HttpClient.State} (h : Calls x y e) (hz : z.calls = y.calls) :
    Calls x z e := by
  constructor
  · rw [hz]
    exact h.known
  · rw [hz]
    exact h.posting

theorem calls_setCall {call : HttpClient.Call} (habsent : call ≠ .absent)
    (hposting : ∀ data, call = .posting data → x.calls k = .absent ∧ e = .send k data) :
    Calls x (HttpClient.setCall x k call) e where
  known j hj h := by
    obtain ⟨-, hcall⟩ | ⟨-, hold⟩ := HttpClient.update_call h
    · exact habsent hcall
    · exact hj hold
  posting j data h := by
    obtain ⟨rfl, hcall⟩ | ⟨-, hold⟩ := HttpClient.update_call h
    · exact .inr (hposting data hcall)
    · exact .inl hold

theorem calls_over (x : HttpClient.State) (k : ℕ) (e : HttpClient.Event) {call : HttpClient.Call}
    (habsent : call ≠ .absent) (hposting : ∀ data, call ≠ .posting data) :
    Calls x (HttpClient.setCall x k call) e :=
  calls_setCall habsent fun data h => absurd h (hposting data)

theorem posted_calls (x : HttpClient.State) (k : ℕ) (data : Bytes) (status : ℕ)
    (length : Option ℕ) :
    (HttpClient.posted x k data status length).calls = (HttpClient.setCall x k .ended).calls := by
  unfold HttpClient.posted
  dsimp only
  split_ifs <;> rfl

theorem close_spec (x : HttpClient.State) (k : ℕ) (e : HttpClient.Event) :
    Calls x (HttpClient.close x k) e ∧ Retains x (HttpClient.close x k) := by
  have hdropped : ∃ t, (x.pending.elim x fun n => { x with
      closed := Function.update x.closed n true
      pending := none }) = t ∧ t.calls = x.calls ∧ Retains x t := by
    refine ⟨_, rfl, ?_⟩
    cases x.pending with
    | none => exact ⟨rfl, {}⟩
    | some n => exact ⟨rfl, {}⟩
  obtain ⟨t, ht, hcalls, hretains⟩ := hdropped
  have hset : ∀ call,
      (HttpClient.setCall t k call).calls = (HttpClient.setCall x k call).calls := by
    intro call
    unfold HttpClient.setCall
    rw [hcalls]
  unfold HttpClient.close
  rw [ht]
  dsimp only
  split
  · exact ⟨(calls_over x k e (by nofun) (by nofun)).congr (hset .ended),
      ⟨hretains.responses, hretains.requests, hretains.log⟩⟩
  · rename_i i hsession
    exact ⟨(calls_over x k e (by nofun) (by nofun)).congr (hset (.closing i)),
      ⟨hretains.responses, hretains.requests, hretains.log⟩⟩

theorem calls_step (hs : HttpClient.step maxBodySize x e = some y) : Calls x y e := by
  cases HttpClient.step_way hs with
  | connected | connectRefused => exact ⟨fun _ hk => hk, fun _ _ hk => .inl hk⟩
  | sending k data hk =>
    have hcalls : Calls x (HttpClient.setCall x k (.posting data)) (.send k data) := by
      refine calls_setCall (by nofun) fun data' heq => ?_
      cases heq
      exact ⟨hk, rfl⟩
    exact hcalls.congr rfl
  | posted k data status length =>
    exact (calls_over x k _ (by nofun) (by nofun)).congr (posted_calls x k data status length)
  | close k => exact (close_spec x k _).1
  | sendRefused k data why => exact calls_over x k _ (by nofun) (by nofun)
  | recvRefused k | closeFailed k => exact calls_over x k _ (by nofun) (by nofun)
  | postFailed k | closed k => exact (calls_over x k _ (by nofun) (by nofun)).congr rfl
  | tooLong k n | reading k n => exact (calls_over x k _ (by nofun) (by nofun)).congr rfl
  | overflowed k n body data => exact (calls_over x k _ (by nofun) (by nofun)).congr rfl
  | read k n body data => exact (calls_over x k _ (by nofun) (by nofun)).congr rfl
  | returned k n body => exact (calls_over x k _ (by nofun) (by nofun)).congr rfl
  | readFailed k n body => exact (calls_over x k _ (by nofun) (by nofun)).congr rfl

/-- What a client does by itself tells it nothing. -/
theorem retains_own (hs : HttpClient.step maxBodySize x e = some y) (hown : isOwn e = true) :
    Retains x y := by
  cases HttpClient.step_way hs with
  | posted | overflowed | read | returned => cases hown
  | close k => exact (close_spec x k .connect).2
  | _ => exact {}

theorem retains_chunk {data : Bytes} (hs : HttpClient.step maxBodySize x (.chunk k data) = some y) :
    Retains x y := by
  cases HttpClient.step_way hs with
  | overflowed | read => exact {}

theorem eof_spec (hs : HttpClient.step maxBodySize x (.eof k) = some y) :
    ∃ n body, x.calls k = .reading n body ∧ y.responses = x.responses ∧
      y.requests = x.requests ∧ y.log = x.log ++ [.returned n body] := by
  cases HttpClient.step_way hs with
  | returned _ n body hk => exact ⟨n, body, hk, rfl, rfl, rfl⟩

/-- The response to a POST is the next one, with the message of that POST. -/
theorem posted_spec {status : ℕ} {length : Option ℕ}
    (hs : HttpClient.step maxBodySize x (.posted k status length) = some y) :
    ∃ data, x.calls k = .posting data ∧ y.responses = x.responses + 1 ∧
      y.requests = Function.update x.requests x.responses data ∧
      (y.log = x.log ∨ (status = 204 ∧ y.log = x.log ++ [.accepted x.responses]) ∨
        y.log = x.log ++ [.held x.responses]) := by
  cases HttpClient.step_way hs with
  | posted _ data _ _ hk =>
    refine ⟨data, hk, ?_⟩
    unfold HttpClient.posted
    dsimp only
    split_ifs with h204 h200
    · exact ⟨rfl, rfl, .inr (.inl ⟨h204, rfl⟩)⟩
    · exact ⟨rfl, rfl, .inl rfl⟩
    · exact ⟨rfl, rfl, .inr (.inr rfl)⟩

end

/-- Which call of which client a POST belongs to. -/
def Post.key (post : Post) : ℕ × ℕ := (post.client, post.call)

structure Inv {W : Type} (c : HttpServer.Config) (authenticates : Bool) (app : ExecutionHost W)
    (maxBodySize : ℕ) (s : State) : Prop where
  turns : HttpTurns.Inv c authenticates s.server
  answers : HttpTurns.Answers app s.server
  client : ∀ i, HttpClient.Inv (s.clients i)
  alternates : ∀ i, HttpClient.Alternates maxBodySize (s.clients i)
  posting : ∀ i k data, (s.clients i).calls k = .posting data → ⟨i, k, data⟩ ∈ s.posts
  once : (s.posts.map Post.key).Nodup
  known : ∀ post ∈ s.posts, (s.clients post.client).calls post.call ≠ .absent
  queued : ∀ r data, .queued r data ∈ s.server.http.log →
    ∃ i k, s.posts[r]? = some ⟨i, k, data⟩
  origin : ∀ i n, n < (s.clients i).responses → ∃ r k, s.origin i n = some r ∧
    s.posts[r]? = some ⟨i, k, (s.clients i).requests n⟩
  returned : ∀ i n body, .returned n body ∈ (s.clients i).log → ∃ r, s.origin i n = some r ∧
    .responded r (.body body) ∈ s.server.http.log
  accepted : ∀ i n, .accepted n ∈ (s.clients i).log → ∃ r, s.origin i n = some r ∧
    .responded r .noContent ∈ s.server.http.log

section
variable {W : Type} {c : HttpServer.Config} {authenticates : Bool} {app : ExecutionHost W}
  {maxBodySize : ℕ} {s s' : State}

theorem inv_start : Inv c authenticates app maxBodySize start where
  turns := HttpTurns.inv_start c authenticates
  answers := HttpTurns.answers_start app
  client _ := HttpClient.inv_start
  alternates _ := HttpClient.alternates_start maxBodySize
  posting _ _ _ h := nomatch h
  once := List.nodup_nil
  known _ h := nomatch h
  queued _ _ h := nomatch h
  origin _ _ h := absurd h (Nat.not_lt_zero _)
  returned _ _ _ h := nomatch h
  accepted _ _ h := nomatch h

theorem mem_of_responseOf {log : List HttpServer.Entry} {r : ℕ}
    {response : HttpServer.HttpResponse} (h : responseOf log r = some response) :
    .responded r response ∈ log := by
  obtain ⟨entry, hentry, hfound⟩ := List.exists_of_findSome?_eq_some h
  cases entry with
  | responded k response' =>
    dsimp only at hfound
    split_ifs at hfound with hk
    cases hfound
    exact hk ▸ hentry
  | _ => cases hfound

/-- The server goes on. -/
theorem Inv.serve (h : Inv c authenticates app maxBodySize s) {e : HttpTurns.Event W}
    {server : HttpTurns.State} (hserves : serves s.posts e = true)
    (hs : HttpTurns.step c authenticates app s.server e = some server) :
    Inv c authenticates app maxBodySize { s with server := server } := by
  obtain ⟨e', hbody, added, hlog, hadded⟩ := turns_grow hs
  have hgrows : ∀ entry ∈ s.server.http.log, entry ∈ server.http.log := by
    rw [hlog]
    exact fun _ he => List.mem_append_left _ he
  exact { h with
    turns := h.turns.step hs
    answers := h.answers.step h.turns hs
    queued := by
      intro r data hr
      have hr : .queued r data ∈ server.http.log := hr
      rw [hlog] at hr
      obtain hr | hr := List.mem_append.mp hr
      · exact h.queued r data hr
      · obtain ⟨user, rfl⟩ := hadded r data hr
        obtain rfl := hbody r user data rfl
        obtain ⟨⟨i, k, data'⟩, hpost, hdata⟩ := (Option.any_eq_true _ _).mp hserves
        obtain rfl : data' = data := by simpa using hdata
        exact ⟨i, k, hpost⟩
    returned := by
      intro i n body hn
      obtain ⟨r, horigin, hr⟩ := h.returned i n body hn
      exact ⟨r, horigin, hgrows _ hr⟩
    accepted := by
      intro i n hn
      obtain ⟨r, horigin, hr⟩ := h.accepted i n hn
      exact ⟨r, horigin, hgrows _ hr⟩ }

theorem mem_begun {i : ℕ} {x y : HttpClient.State} {e : HttpClient.Event}
    (hs : HttpClient.step maxBodySize x e = some y) {post : Post} (hpost : post ∈ begun i y e) :
    post.client = i ∧ x.calls post.call = .absent ∧ y.calls post.call = .posting post.data := by
  cases e with
  | send k data =>
    unfold begun at hpost
    dsimp only at hpost
    split at hpost
    · rename_i data' hk
      obtain rfl := List.mem_singleton.mp hpost
      refine ⟨rfl, ?_, hk⟩
      cases HttpClient.step_way hs with
      | sendRefused _ _ why habsent => exact habsent
      | sending _ _ habsent => exact habsent
    · cases hpost
  | _ => cases hpost

theorem begun_posting {i k : ℕ} {data : Bytes} {x y : HttpClient.State} {e : HttpClient.Event}
    (hs : HttpClient.step maxBodySize x e = some y) (hk : y.calls k = .posting data) :
    x.calls k = .posting data ∨ ⟨i, k, data⟩ ∈ begun i y e := by
  obtain hold | ⟨-, rfl⟩ := (calls_step hs).posting k data hk
  · exact .inl hold
  · refine .inr ?_
    unfold begun
    dsimp only
    rw [hk]
    exact List.mem_singleton.mpr rfl

theorem begun_length (i : ℕ) (y : HttpClient.State) (e : HttpClient.Event) :
    ((begun i y e).map Post.key).Nodup := by
  unfold begun
  split
  · split
    · exact List.nodup_singleton _
    · exact List.nodup_nil
  · exact List.nodup_nil

theorem getElem?_append_some {posts more : List Post} {r : ℕ} {post : Post}
    (h : posts[r]? = some post) : (posts ++ more)[r]? = some post := by
  rwa [List.getElem?_append_left (List.getElem?_eq_some_iff.mp h).1]

/-- A client goes on, and what it has got is what the server sent to its POSTs. -/
theorem Inv.proceed (h : Inv c authenticates app maxBodySize s) {i : ℕ} {e : HttpClient.Event}
    {y : HttpClient.State} {origin : ℕ → ℕ → Option ℕ}
    (hs : HttpClient.step maxBodySize (s.clients i) e = some y)
    (he : HttpClient.Exclusive (s.clients i) e) (hothers : ∀ j, j ≠ i → origin j = s.origin j)
    (horigin : ∀ n < y.responses, ∃ r k, origin i n = some r ∧
      s.posts[r]? = some ⟨i, k, y.requests n⟩)
    (hreturned : ∀ n body, .returned n body ∈ y.log → ∃ r, origin i n = some r ∧
      .responded r (.body body) ∈ s.server.http.log)
    (haccepted : ∀ n, .accepted n ∈ y.log → ∃ r, origin i n = some r ∧
      .responded r .noContent ∈ s.server.http.log) :
    Inv c authenticates app maxBodySize { setClient s i y with
      posts := s.posts ++ begun i y e
      origin := origin } := by
  have hcalls := calls_step hs
  have hself : (setClient s i y).clients i = y := Function.update_self ..
  have hother : ∀ j, j ≠ i → (setClient s i y).clients j = s.clients j := fun j hj =>
    Function.update_of_ne hj ..
  exact {
    turns := h.turns
    answers := h.answers
    client := fun j => by
      by_cases hj : j = i
      · subst hj
        rw [hself]
        exact (h.client j).step hs
      · rw [hother j hj]
        exact h.client j
    alternates := fun j => by
      by_cases hj : j = i
      · subst hj
        rw [hself]
        exact (h.alternates j).step (h.client j) hs he
      · rw [hother j hj]
        exact h.alternates j
    posting := fun j k data hk => by
      have hk : ((setClient s i y).clients j).calls k = .posting data := hk
      by_cases hj : j = i
      · subst hj
        rw [hself] at hk
        obtain hold | hnew := begun_posting hs hk
        · exact List.mem_append_left _ (h.posting j k data hold)
        · exact List.mem_append_right _ hnew
      · rw [hother j hj] at hk
        exact List.mem_append_left _ (h.posting j k data hk)
    once := by
      rw [List.map_append, List.nodup_append]
      refine ⟨h.once, begun_length i y e, fun key hkey key' hkey' heq => ?_⟩
      obtain ⟨post, hpost, rfl⟩ := List.mem_map.mp hkey
      obtain ⟨post', hpost', rfl⟩ := List.mem_map.mp hkey'
      obtain ⟨hclient, habsent, -⟩ := mem_begun hs hpost'
      obtain ⟨hi, hk⟩ := Prod.mk.inj heq
      refine h.known post hpost ?_
      rw [hi, hk, hclient]
      exact habsent
    known := fun post hpost => by
      show ((setClient s i y).clients post.client).calls post.call ≠ .absent
      obtain hpost | hpost := List.mem_append.mp hpost
      · by_cases hj : post.client = i
        · rw [hj, hself]
          exact hcalls.known _ (hj ▸ h.known post hpost)
        · rw [hother _ hj]
          exact h.known post hpost
      · obtain ⟨hclient, -, hk⟩ := mem_begun hs hpost
        rw [hclient, hself, hk]
        nofun
    queued := fun r data hr => by
      obtain ⟨j, k, hpost⟩ := h.queued r data hr
      exact ⟨j, k, getElem?_append_some hpost⟩
    origin := fun j n hn => by
      have hn : n < ((setClient s i y).clients j).responses := hn
      show ∃ r k, origin j n = some r ∧ (s.posts ++ begun i y e)[r]? =
        some ⟨j, k, ((setClient s i y).clients j).requests n⟩
      by_cases hj : j = i
      · subst hj
        rw [hself] at hn ⊢
        obtain ⟨r, k, hr, hpost⟩ := horigin n hn
        exact ⟨r, k, hr, getElem?_append_some hpost⟩
      · rw [hother j hj] at hn ⊢
        rw [hothers j hj]
        obtain ⟨r, k, hr, hpost⟩ := h.origin j n hn
        exact ⟨r, k, hr, getElem?_append_some hpost⟩
    returned := fun j n body hn => by
      have hn : .returned n body ∈ ((setClient s i y).clients j).log := hn
      show ∃ r, origin j n = some r ∧ _
      by_cases hj : j = i
      · subst hj
        rw [hself] at hn
        exact hreturned n body hn
      · rw [hother j hj] at hn
        rw [hothers j hj]
        exact h.returned j n body hn
    accepted := fun j n hn => by
      have hn : .accepted n ∈ ((setClient s i y).clients j).log := hn
      show ∃ r, origin j n = some r ∧ _
      by_cases hj : j = i
      · subst hj
        rw [hself] at hn
        exact haccepted n hn
      · rw [hother j hj] at hn
        rw [hothers j hj]
        exact h.accepted j n hn }

/-- A client that has got nothing new. -/
theorem Inv.retain (h : Inv c authenticates app maxBodySize s) {i : ℕ} {e : HttpClient.Event}
    {y : HttpClient.State} (hs : HttpClient.step maxBodySize (s.clients i) e = some y)
    (he : HttpClient.Exclusive (s.clients i) e) (hretains : Retains (s.clients i) y) :
    Inv c authenticates app maxBodySize { setClient s i y with
      posts := s.posts ++ begun i y e } := by
  refine h.proceed hs he (fun _ _ => rfl) ?_ ?_ ?_
  · rw [hretains.responses, hretains.requests]
    exact h.origin i
  · rw [hretains.log]
    exact h.returned i
  · rw [hretains.log]
    exact h.accepted i

theorem noContent_of_status {response : HttpServer.HttpResponse}
    (h : statusOf response = some 204) : response = .noContent := by
  cases response with
  | body data => cases h
  | noContent => rfl
  | failed failure =>
    cases failure with
    | disconnected => cases h
    | status code =>
      simp only [statusOf] at h
      split_ifs at h with hcode
      obtain rfl := Option.some.inj h
      omega

/-- One call of a client makes one POST. -/
theorem Inv.post_eq (h : Inv c authenticates app maxBodySize s) {i k : ℕ} {data data' : Bytes}
    (hpost : ⟨i, k, data⟩ ∈ s.posts) (hk : (s.clients i).calls k = .posting data') :
    data' = data := by
  have heq := List.inj_on_of_nodup_map h.once hpost (h.posting i k data' hk) rfl
  exact (congrArg Post.data heq).symm

theorem Inv.respond (h : Inv c authenticates app maxBodySize s) {r : ℕ} {announced : Bool}
    (hs : respond maxBodySize s r announced = some s') :
    Inv c authenticates app maxBodySize s' := by
  simp only [HttpExchange.respond, Option.bind_eq_bind, Option.bind_eq_some_iff, Option.pure_def,
    Option.some.injEq] at hs
  obtain ⟨⟨i, k, data⟩, hpost, response, hresponse, status, hstatus, y, hclient, rfl⟩ := hs
  obtain ⟨data', hk, hresponses, hrequests, hlog⟩ := posted_spec hclient
  obtain rfl := h.post_eq (List.mem_of_getElem? hpost) hk
  have hlt : ∀ n, n < (s.clients i).responses → Function.update (s.origin i)
      (s.clients i).responses (some r) n = s.origin i n := fun n hn =>
    Function.update_of_ne hn.ne ..
  have hself : Function.update s.origin i (Function.update (s.origin i)
      (s.clients i).responses (some r)) i = Function.update (s.origin i)
      (s.clients i).responses (some r) := Function.update_self ..
  have hothers : ∀ j, j ≠ i → Function.update s.origin i (Function.update (s.origin i)
      (s.clients i).responses (some r)) j = s.origin j := fun j hj => Function.update_of_ne hj ..
  have hnext := h.proceed hclient trivial hothers ?_ ?_ ?_
  · rwa [show begun i y (.posted k status _) = [] from rfl, List.append_nil] at hnext
  · intro n hn
    rw [hresponses] at hn
    rw [hself, hrequests]
    obtain hn | rfl := Nat.lt_succ_iff_lt_or_eq.mp hn
    · rw [hlt n hn, Function.update_of_ne hn.ne]
      exact h.origin i n hn
    · exact ⟨r, k, Function.update_self .., by rwa [Function.update_self]⟩
  · intro n body hn
    have hold : .returned n body ∈ (s.clients i).log := by
      obtain hlog | ⟨-, hlog⟩ | hlog := hlog
      · rwa [hlog] at hn
      · simpa [hlog] using hn
      · simpa [hlog] using hn
    obtain ⟨-, -, hn, -⟩ := (h.alternates i).returned n body hold
    rw [hself, hlt n hn]
    exact h.returned i n body hold
  · intro n hn
    have hold : .accepted n ∈ (s.clients i).log → ∃ r', Function.update (s.origin i)
        (s.clients i).responses (some r) n = some r' ∧
        .responded r' .noContent ∈ s.server.http.log := by
      intro hold
      rw [hlt n ((h.alternates i).sent_lt n (List.mem_filterMap.mpr ⟨_, hold, rfl⟩))]
      exact h.accepted i n hold
    rw [hself]
    obtain hlog | ⟨hcode, hlog⟩ | hlog := hlog
    · exact hold (hlog ▸ hn)
    · rw [hlog] at hn
      obtain hn | hn := List.mem_append.mp hn
      · exact hold hn
      · obtain rfl : n = (s.clients i).responses := by simpa using hn
        subst hcode
        obtain rfl := noContent_of_status hstatus
        exact ⟨r, Function.update_self .., mem_of_responseOf hresponse⟩
    · exact hold (by simpa [hlog] using hn)

theorem Inv.eof (h : Inv c authenticates app maxBodySize s) {i k : ℕ}
    (hs : step c authenticates app maxBodySize s (.eof i k) = some s') :
    Inv c authenticates app maxBodySize s' := by
  simp only [HttpExchange.step, Option.bind_eq_bind, Option.bind_eq_some_iff] at hs
  obtain ⟨⟨body, delivered⟩, hincoming, hs⟩ := hs
  obtain ⟨hwhole, hs⟩ := Option.ite_none_right_eq_some.mp hs
  obtain ⟨y, hclient, rfl⟩ := Option.map_eq_some_iff.mp hs
  obtain ⟨n, read, hk, hresponses, hrequests, hlog⟩ := eof_spec hclient
  obtain ⟨-, hread, -⟩ := (h.alternates i).reading k n read hk
  simp only [incoming, hk, Option.bind_eq_bind, Option.bind_eq_some_iff] at hincoming
  obtain ⟨r, horigin, response, hresponse, hbody⟩ := hincoming
  have hsame : ∀ j, j ≠ i → s.origin j = s.origin j := fun _ _ => rfl
  have hnext := h.proceed hclient trivial hsame ?_ ?_ ?_
  · rwa [show begun i y (.eof k) = [] from rfl, List.append_nil] at hnext
  · rw [hresponses, hrequests]
    exact h.origin i
  · intro m body' hm
    rw [hlog] at hm
    obtain hm | hm := List.mem_append.mp hm
    · exact h.returned i m body' hm
    · obtain ⟨rfl, rfl⟩ : m = n ∧ body' = read := by simpa using hm
      cases response with
      | body data =>
        obtain ⟨rfl, rfl⟩ : data = body ∧ (s.clients i).delivered m = delivered := by
          simpa using hbody
        have hwhole : (s.clients i).delivered m = data := hwhole
        rw [hread, hwhole]
        exact ⟨r, horigin, mem_of_responseOf hresponse⟩
      | _ => cases hbody
  · intro m hm
    exact h.accepted i m (by simpa [hlog] using hm)

theorem Inv.step (h : Inv c authenticates app maxBodySize s) {e : Event W}
    (hs : step c authenticates app maxBodySize s e = some s') (he : Exclusive s e) :
    Inv c authenticates app maxBodySize s' := by
  cases e with
  | server e =>
    obtain ⟨hserves, hs⟩ := Option.ite_none_right_eq_some.mp hs
    obtain ⟨server, hserver, rfl⟩ := Option.map_eq_some_iff.mp hs
    exact h.serve hserves hserver
  | client i e =>
    obtain ⟨hown, hs⟩ := Option.ite_none_right_eq_some.mp hs
    obtain ⟨y, hclient, rfl⟩ := Option.map_eq_some_iff.mp hs
    exact h.retain hclient he (retains_own hclient hown)
  | respond r announced => exact h.respond hs
  | chunk i k data =>
    simp only [HttpExchange.step, Option.bind_eq_bind, Option.bind_eq_some_iff] at hs
    obtain ⟨⟨body, delivered⟩, -, hs⟩ := hs
    obtain ⟨-, hs⟩ := Option.ite_none_right_eq_some.mp hs
    obtain ⟨y, hclient, rfl⟩ := Option.map_eq_some_iff.mp hs
    have hnext := h.retain hclient trivial (retains_chunk hclient)
    rwa [show begun i y (.chunk k data) = [] from rfl, List.append_nil] at hnext
  | eof i k => exact h.eof hs

end

/-- Whatever clients, connections and handlers do: when each client lets one `recv` or `close`
end before the next, every body it returns and every 204 is what `process` gave to the message
of its last `send`, and the app receives the message of a `send` once at most. -/
theorem exchanges_answered {W : Type} (c : HttpServer.Config) (authenticates : Bool)
    (app : ExecutionHost W) (maxBodySize : ℕ) (es : List (Event W)) (s : State)
    (hrun : Machine.run (step c authenticates app maxBodySize) start es = some s)
    (hes : Machine.Meets (step c authenticates app maxBodySize) Exclusive start es) :
    (∀ i, Answered app (s.clients i)) ∧ (s.posts.map Post.key).Nodup ∧
    (HttpServer.receivedIds s.server.http.log).Nodup ∧
    ∀ r data, .received r data ∈ s.server.http.log → ∃ i k, s.posts[r]? = some ⟨i, k, data⟩ := by
  have h : Inv c authenticates app maxBodySize s :=
    Machine.invariant_of_meets (fun _ _ _ h he hs => h.step hs he) inv_start hes hrun
  refine ⟨fun i => ?_, h.once, h.turns.http.received_once, fun r data hr => ?_⟩
  · have hreply : ∀ n r reply, n < (s.clients i).responses → s.origin i n = some r →
        (∃ response, .responded r response ∈ s.server.http.log ∧
          HttpTurns.replyOf response = some reply) →
        HttpTurns.Processes app ((s.clients i).requests n) reply := by
      rintro n r reply hn horigin ⟨response, hresponse, hreply⟩
      obtain ⟨data, hqueued, hprocess⟩ := h.answers.responded r response reply hresponse hreply
      obtain ⟨j, k, hpost⟩ := h.queued r data hqueued
      obtain ⟨r', k', horigin', hpost'⟩ := h.origin i n hn
      obtain rfl := Option.some.inj (horigin.symm.trans horigin')
      cases hpost.symm.trans hpost'
      exact hprocess
    have halternates := h.alternates i
    refine ⟨halternates.follows, halternates.increasing, fun n body hn => ?_, fun n hn => ?_⟩
    · obtain ⟨-, -, hlt, -⟩ := halternates.returned n body hn
      obtain ⟨r, horigin, hr⟩ := h.returned i n body hn
      exact hreply n r (some body) hlt horigin ⟨_, hr, rfl⟩
    · have hlt := halternates.sent_lt n (List.mem_filterMap.mpr ⟨_, hn, rfl⟩)
      obtain ⟨r, horigin, hr⟩ := h.accepted i n hn
      exact hreply n r none hlt horigin ⟨_, hr, rfl⟩
  · exact h.queued r data (h.turns.http.own_body r data hr)

def sevenHost : ExecutionHost Unit :=
  { leastHost 1 Nat.one_pos with codec := ⟨fun _ => some [7], fun _ => some (callItem 1)⟩ }

/-- Client 0 breaks off its first POST, whose message is answered nevertheless. -/
def brokenOff : List (Event Unit) :=
  [.client 0 .connect, .client 0 (.send 0 [1]), .server (.http (.handle 0 true)),
    .server (.http (.body 0 none [1])), .client 0 (.postFailed 0), .server .receive,
    .server .takeUp, .server .ended, .client 0 (.send 1 [2]), .server (.http (.handle 1 true)),
    .server (.http (.body 1 none [2])), .server (.processed failing initial), .server .sent,
    .server (.http (.resume 0)), .server .receive, .server .takeUp, .server .ended,
    .server (.processed failing initial), .server .sent, .server (.http (.resume 1)),
    .respond 1 true]

def reading : List (Event Unit) := [.client 0 (.recv 2), .chunk 0 2 [7], .eof 0 2]

theorem exchanges_answered_brokenOff : ∃ s,
    Machine.run (step ⟨64, 1024, 4096⟩ false sevenHost 1024) start (brokenOff ++ reading) = some s ∧
      (s.clients 0).requests 0 = [2] ∧ (s.clients 0).delivered 0 = [7] ∧
      Answered sevenHost (s.clients 0) := by
  have hfirst : Machine.Meets (step ⟨64, 1024, 4096⟩ false sevenHost 1024) Exclusive start
      brokenOff := by
    have hquiet : ∀ e ∈ brokenOff, begins e = false := by decide
    exact Machine.meets_of_forall (fun e he s => exclusive_of_not_begins (hquiet e he)) start
  have hmeets : Machine.Meets (step ⟨64, 1024, 4096⟩ false sevenHost 1024) Exclusive start
      (brokenOff ++ reading) := by
    refine hfirst.append fun s hs => ?_
    obtain rfl := Option.some.inj hs
    refine Machine.meets_cons_of (fun k => ?_) rfl (Machine.meets_cons_of trivial rfl
      (Machine.meets_cons_of trivial rfl trivial))
    match k with
    | 0 | 1 => exact id
    | k + 2 => exact id
  exact ⟨_, rfl, rfl, rfl, (exchanges_answered ⟨64, 1024, 4096⟩ false sevenHost 1024
    (brokenOff ++ reading) _ rfl hmeets).1 0⟩

end WireRpc.HttpExchange
