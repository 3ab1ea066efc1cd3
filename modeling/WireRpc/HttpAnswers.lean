import WireRpc.HttpTurns

/-!
# The answers of an app over HTTP

A response that is not a failure is what `process` gave to the message of its own request.
-/
namespace WireRpc.HttpTurns
open Library Execution

section
variable {W : Type} {c : HttpServer.Config} {authenticates : Bool} {app : ExecutionHost W}
  {s s' : State}

/-- `process` gives this response to the message. -/
def Processes (app : ExecutionHost W) (data : Bytes) (response : Option Bytes) : Prop :=
  ∃ dispatch host, (process app dispatch none data host).2 = .value response

/-- The response is what `process` gave to the message of the request. -/
def Answered (app : ExecutionHost W) (log : List HttpServer.Entry) (r : ℕ)
    (response : Option Bytes) : Prop :=
  ∃ data, .queued r data ∈ log ∧ Processes app data response

structure Answers (app : ExecutionHost W) (s : State) : Prop where
  message : ∀ r, s.http.active = some r → .queued r s.message ∈ s.http.log
  sending : ∀ response, s.loop = .sending response → Processes app s.message response
  result : ∀ r response, s.http.futures r = .result response →
    Answered app s.http.log r response
  responded : ∀ r response reply, .responded r response ∈ s.http.log →
    replyOf response = some reply → Answered app s.http.log r reply

theorem Answered.mono {log log' : List HttpServer.Entry} {r : ℕ} {response : Option Bytes}
    (hlog : ∀ entry ∈ log, entry ∈ log') (h : Answered app log r response) :
    Answered app log' r response := by
  obtain ⟨data, hdata, hprocess⟩ := h
  exact ⟨data, hlog _ hdata, hprocess⟩

theorem answers_start (app : ExecutionHost W) : Answers app start where
  message _ h := nomatch h
  sending _ h := nomatch h
  result _ _ h := nomatch h
  responded _ _ _ h := nomatch h

/-- The task of a message does not touch the transport. -/
theorem Answers.task (h : Answers app s) (hhttp : s'.http = s.http)
    (hmessage : s'.message = s.message) (hloop : ∀ response, s'.loop ≠ .sending response) :
    Answers app s' where
  message := by
    rw [hhttp, hmessage]
    exact h.message
  sending response hl := absurd hl (hloop response)
  result := by
    rw [hhttp]
    exact h.result
  responded := by
    rw [hhttp]
    exact h.responded

theorem Answers.observe (h : Answers app s) {e : HttpServer.Event} {http : HttpServer.State}
    (houtside : fromOutside authenticates e = true)
    (hs : HttpServer.step c s.http e = some http) : Answers app (observe s e http) := by
  have hmessage : (HttpTurns.observe s e http).message = s.message := by
    unfold HttpTurns.observe
    cases e <;> rfl
  have hsending : ∀ response, (HttpTurns.observe s e http).loop = .sending response →
      Processes app (HttpTurns.observe s e http).message response := by
    rw [observe_loop, hmessage]
    exact h.sending
  by_cases he : e = .close
  · subst he
    obtain rfl := Option.some.inj hs
    refine ⟨fun r hr => (nomatch hr), hsending, fun r response hr => h.result r response ?_,
      h.responded⟩
    have hold : (if _ then .exception else s.http.futures r : HttpServer.Future) =
      .result response := hr
    split_ifs at hold
    exact hold
  · have hkeeps := keeps_outside houtside hs he
    refine ⟨fun r hr => ?_, hsending, fun r response hr => ?_,
      fun r response reply hr hreply => ?_⟩
    · rw [observe_http, hkeeps.active] at hr
      rw [observe_http, hmessage]
      exact hkeeps.log _ (h.message r hr)
    · rw [observe_http] at hr ⊢
      exact (h.result r response (hkeeps.result r response hr)).mono hkeeps.log
    · rw [observe_http] at hr ⊢
      obtain hold | hresult := hkeeps.responded r response reply hr hreply
      · exact (h.responded r response reply hold hreply).mono hkeeps.log
      · exact (h.result r reply hresult).mono hkeeps.log

/-- The active future gets what `process` gave to the message of its request. -/
theorem Answers.leave (h : Answers app s) {r : ℕ} {response : Option Bytes}
    (hactive : s.http.active = some r) (hprocess : Processes app s.message response)
    {entry : HttpServer.Entry} (hentry : ∀ k response, entry ≠ .responded k response) :
    Answers app { s with
      http := { HttpServer.setFuture s.http r (.result response) with
        active := none
        activePrincipal := none
        log := s.http.log ++ [entry] }
      activeRequest := none
      loop := .idle } := by
  have hgrows : ∀ e ∈ s.http.log, e ∈ s.http.log ++ [entry] :=
    fun _ he => List.mem_append_left _ he
  refine ⟨fun _ hr => (nomatch hr), fun _ hl => (nomatch hl), fun k response' hk => ?_,
    fun k response' reply hk hreply => ?_⟩
  · obtain hsame | ⟨rfl, hnew⟩ := HttpServer.setFuture_futures s.http r (.result response) k
    · exact (h.result k response' (hsame.symm.trans hk)).mono hgrows
    · cases hnew.symm.trans hk
      exact ⟨s.message, hgrows _ (h.message k hactive), hprocess⟩
  · obtain hk | hk := List.mem_append.mp hk
    · exact (h.responded k response' reply hk hreply).mono hgrows
    · exact absurd (List.mem_singleton.mp hk).symm (hentry k response')

theorem Answers.answer (h : Answers app s) {response : Option Bytes}
    (hloop : s.loop = .sending response) : Answers app (answer c s response) := by
  have hprocess := h.sending response hloop
  cases response with
  | some data =>
    unfold HttpTurns.answer
    dsimp only
    split
    · rename_i http hs
      obtain ⟨r, hactive, rfl⟩ := send_eq hs
      exact h.leave hactive hprocess (by nofun)
    · exact h.task rfl rfl (by nofun)
  | none =>
    unfold HttpTurns.answer HttpServer.finishNotification
    cases hactive : s.http.active with
    | some r => exact h.leave hactive hprocess (by nofun)
    | none =>
      have hgrows : ∀ e ∈ s.http.log, e ∈ s.http.log ++ [.finished] :=
        fun _ he => List.mem_append_left _ he
      refine ⟨fun _ hr => (nomatch hr), fun _ hl => (nomatch hl), fun k response hk => ?_,
        fun k response reply hk hreply => ?_⟩
      · exact (h.result k response hk).mono hgrows
      · have hold : .responded k response ∈ s.http.log := by simpa using hk
        exact (h.responded k response reply hold hreply).mono hgrows

theorem Answers.stay (h : Answers app s) {http : HttpServer.State} {loop : Loop}
    (hstays : Stays s.http http) (hloop : ∀ response, loop ≠ .sending response) :
    Answers app { s with
      http := http
      loop := loop } where
  message := by
    rw [hstays.active, hstays.log]
    exact h.message
  sending response hl := absurd hl (hloop response)
  result := by
    rw [hstays.futures, hstays.log]
    exact h.result
  responded := by
    rw [hstays.log]
    exact h.responded

theorem Answers.poll (h : Answers app s) (hinv : Inv c authenticates s) :
    Answers app (poll app s) := by
  unfold HttpTurns.poll
  cases hclosing : s.http.closing with
  | true => exact h.stay (stays_poll (.inl hclosing)) (by nofun)
  | false =>
    cases hfound : (HttpServer.pop s.http.futures s.http.queue s.http.queuedBytes).1 with
    | none => exact h.stay (stays_poll (.inr hfound)) (by nofun)
    | some entry =>
      obtain ⟨data, r⟩ := entry
      obtain ⟨⟨queue, bytes⟩, hpop⟩ : ∃ rest,
          HttpServer.pop s.http.futures s.http.queue s.http.queuedBytes = (some (data, r), rest) :=
        ⟨_, Prod.ext hfound rfl⟩
      obtain ⟨skipped, hqueue, -⟩ := HttpServer.pop_spec hpop
      have hqueued : .queued r data ∈ s.http.log := hinv.http.queue_log (data, r) (by simp [hqueue])
      have hwaiting := hinv.http.popped_waiting hpop
      obtain ⟨user, huser⟩ := Option.isSome_iff_exists.mp (hinv.accounted.admitted hwaiting).2
      obtain ⟨hactive, -, -, -, -, hfutures, hlog⟩ := poll_found hclosing hfound huser
      have hgrows : ∀ e ∈ s.http.log, e ∈ (HttpServer.poll s.http).log := by
        rw [hlog]
        exact fun _ he => List.mem_append_left _ he
      simp only [huser]
      refine ⟨fun k hk => ?_, fun _ hl => (nomatch hl), fun k response hk => ?_,
        fun k response reply hk hreply => ?_⟩
      · obtain rfl : r = k := Option.some.inj (hactive.symm.trans hk)
        exact hgrows _ hqueued
      · exact (h.result k response ((congrFun hfutures k).symm.trans hk)).mono hgrows
      · have hold : .responded k response ∈ s.http.log := by
          have hk : .responded k response ∈ (HttpServer.poll s.http).log := hk
          simpa [hlog] using hk
        exact (h.responded k response reply hold hreply).mono hgrows

theorem proceed_spec (s : State) (request : RawWireRequest) (items : List Json) :
    (proceed s request items).http = s.http ∧ (proceed s request items).message = s.message ∧
      ∀ response, (proceed s request items).loop ≠ .sending response := by
  unfold HttpTurns.proceed
  split_ifs
  · exact ⟨rfl, rfl, by nofun⟩
  · exact ⟨rfl, rfl, by nofun⟩

theorem Answers.takeUp (h : Answers app s) (item : Json) (items : List Json) :
    Answers app (takeUp authenticates s item items) := by
  have htaken : Answers app (record s [.taken item] (.between items)) :=
    h.task rfl rfl (by nofun)
  unfold HttpTurns.takeUp
  cases validate item with
  | none => exact htaken
  | some request =>
    dsimp only
    split_ifs
    · exact htaken
    · split
      · exact htaken.task rfl rfl (by nofun)
      · exact htaken
    · obtain ⟨hhttp, hmessage, hloop⟩ :=
        proceed_spec (record s [.taken item] (.between items)) request items
      exact htaken.task hhttp hmessage hloop

theorem Answers.answered (h : Answers app s) {request : RawWireRequest} {items : List Json}
    (verdict : Verdict) : Answers app (answered (record s [.verified verdict] s.loop)
      request items verdict) := by
  have hbetween : Answers app { record s [.verified verdict] s.loop with loop := .between items } :=
    h.task rfl rfl (by nofun)
  cases verdict with
  | principal name =>
    unfold HttpTurns.answered
    dsimp only
    split_ifs
    · obtain ⟨hhttp, hmessage, hloop⟩ :=
        proceed_spec (record s [.verified (.principal name)] s.loop) request items
      exact h.task hhttp hmessage hloop
    · exact hbetween
  | cancelled => exact h.task rfl rfl (by nofun)
  | _ => exact hbetween

theorem Answers.step {e : Event W} (h : Answers app s) (hinv : Inv c authenticates s)
    (hs : step c authenticates app s e = some s') : Answers app s' := by
  cases e with
  | http e =>
    obtain ⟨houtside, hs⟩ := Option.ite_none_right_eq_some.mp hs
    obtain ⟨http, hstep, rfl⟩ := Option.map_eq_some_iff.mp hs
    exact h.observe houtside hstep
  | receive =>
    simp only [HttpTurns.step] at hs
    split at hs
    case h_2 => cases hs
    rename_i hloop
    split_ifs at hs
    · exact Option.some.inj hs ▸ h.task rfl rfl (by rintro _ ⟨⟩)
    · have hidle : ∀ response, s.loop ≠ .sending response := by
        rw [hloop]
        rintro _ ⟨⟩
      have hwaits := hinv.stay (hinv.http.waits true) (hinv.accounted.waits true) {}
        (loop_ne_verifying hloop (by rintro _ _ ⟨⟩))
      exact Option.some.inj hs ▸ (h.stay {} hidle).poll hwaits
  | poll =>
    simp only [HttpTurns.step] at hs
    split at hs
    case h_2 => cases hs
    obtain ⟨-, hs⟩ := Option.ite_none_right_eq_some.mp hs
    exact Option.some.inj hs ▸ h.poll hinv
  | noticeStop =>
    simp only [HttpTurns.step] at hs
    split at hs
    · exact Option.some.inj hs ▸ h.task rfl rfl (by rintro _ ⟨⟩)
    · exact Option.some.inj hs ▸ h.stay {} (by rintro _ ⟨⟩)
    · cases hs
  | takeUp =>
    simp only [HttpTurns.step] at hs
    split at hs
    case h_2 => cases hs
    exact Option.some.inj hs ▸ h.takeUp _ _
  | verified verdict =>
    simp only [HttpTurns.step] at hs
    split at hs
    case h_2 => cases hs
    exact Option.some.inj hs ▸ h.answered verdict
  | ended =>
    simp only [HttpTurns.step] at hs
    split at hs
    case h_2 => cases hs
    exact Option.some.inj hs ▸ h.task rfl rfl (by rintro _ ⟨⟩)
  | processed dispatch host =>
    simp only [HttpTurns.step] at hs
    split at hs
    case h_2 => cases hs
    split at hs
    · rename_i response hprocess
      obtain rfl := Option.some.inj hs
      refine ⟨h.message, fun response' hl => ?_, h.result, h.responded⟩
      cases hl
      exact ⟨dispatch, host, hprocess⟩
    · exact Option.some.inj hs ▸ h.task rfl rfl (by rintro _ ⟨⟩)
  | abandon =>
    obtain ⟨-, hs⟩ := Option.ite_none_right_eq_some.mp hs
    exact Option.some.inj hs ▸ h.task rfl rfl (by rintro _ ⟨⟩)
  | sent =>
    simp only [HttpTurns.step] at hs
    split at hs
    case h_2 => cases hs
    rename_i response hloop
    exact Option.some.inj hs ▸ h.answer hloop

end

theorem inv_run {W : Type} {c : HttpServer.Config} {authenticates : Bool} {app : ExecutionHost W}
    {es : List (Event W)} {s : State}
    (hrun : Machine.run (step c authenticates app) start es = some s) :
    Inv c authenticates s ∧ Answers app s := by
  refine Machine.invariant (P := fun s => Inv c authenticates s ∧ Answers app s) ?_
    ⟨inv_start c authenticates, answers_start app⟩ hrun
  intro s e s' h hstep
  exact ⟨h.1.step hstep, h.2.step h.1 hstep⟩

/-- In every interleaving of requests and turns a handler is entered in the turn of a request
that has not given up, with the identity of that request, which the authenticator has just
confirmed; and what a client gets, a body or 204, is what `process` gave to its own message,
which the app has received once at most. -/
theorem turns_owned {W : Type} (c : HttpServer.Config) (authenticates : Bool)
    (app : ExecutionHost W) (es : List (Event W)) (s : State)
    (hrun : Machine.run (step c authenticates app) start es = some s) :
    AtEach (fun before action _ => Licensed authenticates s.admitted before action) s.trace ∧
    (∀ r response reply, .responded r response ∈ s.http.log → replyOf response = some reply →
      Answered app s.http.log r reply) ∧
    (HttpServer.receivedIds s.http.log).Nodup := by
  obtain ⟨hinv, hanswers⟩ := inv_run hrun
  exact ⟨hinv.licensed, hanswers.responded, hinv.http.received_once⟩

/-- An app to which every message is one call. -/
def oneCallHost : ExecutionHost Unit :=
  { leastHost 1 Nat.one_pos with codec := ⟨fun _ => some [], fun _ => some (callItem 1)⟩ }

/-- Request 0 meets its deadline while its handler runs. Its late answer reaches nobody, and
request 1 has its own turn. -/
def lateAnswer : List (Event Unit) :=
  [.http (.handle 0 true), .http (.body 0 (some "alice") [1]), .http (.handle 1 true),
    .http (.body 1 (some "bob") [2]), .receive, .takeUp, .verified (.principal "alice"),
    .http (.interrupt 0 true), .ended, .processed failing initial, .sent, .http (.resume 0),
    .receive, .takeUp, .verified (.principal "bob"), .ended, .processed failing initial, .sent,
    .http (.resume 1)]

theorem turns_owned_late : ∃ s,
    Machine.run (step ⟨64, 1024, 4096⟩ true oneCallHost) start lateAnswer = some s ∧
      s.http.log = [.queued 0 [1], .queued 1 [2], .received 0 [1], .sent [],
        .responded 0 (.failed (.status 504)), .received 1 [2], .sent [],
        .responded 1 (.body [])] ∧
      (HttpServer.receivedIds s.http.log).Nodup :=
  ⟨_, rfl, rfl, (turns_owned ⟨64, 1024, 4096⟩ true oneCallHost lateAnswer _ rfl).2.2⟩

end WireRpc.HttpTurns
