import WireRpc.AccessLog
import WireRpc.Library.Coroutines

/-!
# The deadline of a batch

The identity check and the handlers are coroutines, and every item of a message runs in a
scope of its own under the one deadline. An item that begins late is cut off at its first
suspension, and only there.
-/
namespace WireRpc.BatchDeadline
open Library Execution

variable {W : Type}

/-- The world of a task with the timer of its scope, and the requests whose handler it has
started. -/
structure Scoped (W : Type) where
  world : W
  timer : Timer
  handled : List RawWireRequest

/-- An awaited call: what is seen from outside is that a handler starts. -/
abbrev Body (W α : Type) := Coroutine W RawWireRequest (Outcome α)

/-- An app on an event loop. `dispatch` is the middleware with the handler at its end. -/
structure TimedApp (W : Type) where
  loop : EventLoop W
  codec : Codec
  getPrincipal : Option (Option String → W → Body W (Option String))
  dispatch : RequestContext → RawWireRequest → W → Body W WireResponse
  handlerTimeout : ℕ
  maxResponseSize : ℕ
  maxBatchSize : ℕ
  response_budget : 2048 ≤ maxResponseSize
  batch_limit : 0 < maxBatchSize

/-- Where the scope ends, its own cancellation becomes a `TimeoutError`. -/
def leaveScope {α : Type} (timer : Timer) : Outcome α → Outcome α
  | .cancelled => if timer.expired && !timer.interrupted then .raised .timeout else .cancelled
  | outcome => outcome

namespace TimedApp

variable (app : TimedApp W)

def await {α : Type} (body : Body W α) (timer : Timer) (s : Scoped W) : Scoped W × Outcome α :=
  let finish := body.run app.loop timer
  (⟨finish.world, finish.timer, s.handled ++ finish.events⟩, leaveScope finish.timer finish.result)

/-- `getattr(app._transport, 'get_principal', None)`, awaited if it is there. -/
def check (clientId : Option String) (w : W) : Body W (Option String) :=
  match app.getPrincipal with
  | none => .ends w (.value none)
  | some getPrincipal => getPrincipal clientId w

/-- The identity check is the first thing in the scope. -/
def identity (clientId : Option String) : Await (Scoped W) (Option String) := fun deadline s =>
  app.await (app.check clientId s.world) ⟨deadline ≤ app.loop.clock s.world, false, false⟩ s

def host : ExecutionHost (Scoped W) where
  codec := app.codec
  getPrincipal := some app.identity
  clock s := app.loop.clock s.world
  handlerTimeout := app.handlerTimeout
  maxResponseSize := app.maxResponseSize
  maxBatchSize := app.maxBatchSize
  response_budget := app.response_budget
  batch_limit := app.batch_limit

def dispatching : Dispatch (Scoped W) := fun context request _ s =>
  app.await (app.dispatch context request s.world) s.timer s

/-- What runs in the scope of a request. -/
def body (clientId : Option String) (request : RawWireRequest) (w : W) : Body W WireResponse :=
  (app.check clientId w).bind fun w outcome =>
    match outcome with
    | .value principal =>
      app.dispatch ⟨request.responseId, request.method, principal, clientId⟩ request w
    | .raised e => .ends w (.raised e)
    | .cancelled => .ends w .cancelled

end TimedApp

variable (app : TimedApp W) (clientId : Option String)

/-- The scope runs its body under the timer. -/
theorem scope_eq (deadline : ℕ) (request : RawWireRequest) (s : State (Scoped W)) :
    let finish := (app.body clientId request s.world.world).run app.loop
      ⟨deadline ≤ app.loop.clock s.world.world, false, false⟩
    (scope app.host app.dispatching deadline clientId request s).2 =
        leaveScope finish.timer finish.result ∧
      (scope app.host app.dispatching deadline clientId request s).1.world =
        ⟨finish.world, finish.timer, s.world.handled ++ finish.events⟩ := by
  simp only [scope, principalOf, TimedApp.host, TimedApp.identity, TimedApp.await, TimedApp.body,
    Coroutine.run_bind]
  generalize (app.check clientId s.world.world).run app.loop
    ⟨deadline ≤ app.loop.clock s.world.world, false, false⟩ = first
  cases hresult : first.result with
  | value principal => simp [andThen, leaveScope, TimedApp.dispatching, TimedApp.await]
  | raised e => simp [andThen, leaveScope, Coroutine.run]
  | cancelled =>
    cases hexpired : first.timer.expired && !first.timer.interrupted <;>
      simp [andThen, leaveScope, Coroutine.run, hexpired]

/-- What is left of a request that begins late: its first suspension is cancelled. -/
def TimedApp.lateRun (request : RawWireRequest) (w : W) :
    Finish W RawWireRequest (Outcome WireResponse) :=
  (app.body clientId request w).cut app.loop ⟨true, false, false⟩

theorem scope_late {deadline : ℕ} (request : RawWireRequest) {s : State (Scoped W)}
    (hlate : deadline ≤ app.loop.clock s.world.world) :
    let finish := app.lateRun clientId request s.world.world
    (scope app.host app.dispatching deadline clientId request s).2 =
        leaveScope finish.timer finish.result ∧
      (scope app.host app.dispatching deadline clientId request s).1.world =
        ⟨finish.world, finish.timer, s.world.handled ++ finish.events⟩ := by
  have hscope := scope_eq app clientId deadline request s
  simp only [hlate, decide_true] at hscope
  rw [Coroutine.run_of_due app.loop _ rfl rfl] at hscope
  exact hscope

variable {app clientId}

/-- What a late turn leaves, and the way its request is settled. -/
theorem turn_late {deadline : ℕ} {t : Turn (Scoped W)} {request : RawWireRequest}
    (ht : IsTurn app.host app.dispatching deadline clientId t)
    (hvalid : validate t.item = some request)
    (hlate : deadline ≤ app.loop.clock t.before.world.world) :
    let finish := app.lateRun clientId request t.before.world.world
    t.after.world = ⟨finish.world, finish.timer, t.before.world.handled ++ finish.events⟩ ∧
      ∃ s, t.own = (settle app.host request s (leaveScope finish.timer finish.result)).2.2 := by
  obtain ⟨hresult, hworld⟩ := scope_late app clientId request (s := t.before.enter) hlate
  have hran := ht.ran
  simp only [processOne, hvalid] at hran
  obtain ⟨stats, hs⟩ := settle_fst app.host request
    (scope app.host app.dispatching deadline clientId request t.before.enter).1
    (scope app.host app.dispatching deadline clientId request t.before.enter).2
  obtain ⟨hafter, hown⟩ := Prod.mk.inj hran
  constructor
  · rw [← hafter, hs]
    simp only [State.access, State.leave, hworld]
    rfl
  · refine ⟨(scope app.host app.dispatching deadline clientId request t.before.enter).1, ?_⟩
    rw [← hown, hresult]
    rfl

section
variable (app clientId)

/-- No handler is started, and a call has a reply of its own with the code -32000, which the
caller gets unless it is exchanged for the fallback. Only a call in which `process` itself is
cancelled from outside is left without a reply. -/
structure CutOff (request : RawWireRequest) (t : Turn (Scoped W)) : Prop where
  handlers : t.after.world.handled = t.before.world.handled
  answer : request.id.isNone = false →
    (t.after.world.timer.interrupted = true ∧ t.own = .cancelled) ∨
    ∃ own kept, t.own = .value (some own) ∧ AnswersWith app.codec (-32000) own ∧
      t.kept = some kept ∧ (kept = own ∨ fallback app.codec t.item = some (some kept))

/-- When the first suspension is cancelled, no handler has started and none starts afterwards;
and a call lets the cancellation through, unless its response has the code -32000 all the
same. -/
structure GivesWay (request : RawWireRequest) (w : W) : Prop where
  handlers : (app.lateRun clientId request w).events = []
  answer : request.id.isNone = false →
    ((app.lateRun clientId request w).result = .cancelled ∧
      ((app.lateRun clientId request w).timer.expired = true ∨
        (app.lateRun clientId request w).timer.interrupted = true)) ∨
    ∃ e id, answered app.host request (app.lateRun clientId request w).result = .error e id ∧
      e.code = -32000

end

theorem leaveScope_of_ne {α : Type} {timer : Timer} {outcome : Outcome α}
    (h : outcome ≠ .cancelled) : leaveScope timer outcome = outcome := by
  cases outcome with
  | cancelled => exact absurd rfl h
  | _ => rfl

theorem leaveScope_cancelled {α : Type} (timer : Timer) :
    (leaveScope timer .cancelled : Outcome α) =
      if timer.expired = true ∧ timer.interrupted = false then .raised .timeout
      else .cancelled := by
  simp only [leaveScope, Bool.and_eq_true, Bool.not_eq_true']

section
variable {request : RawWireRequest} {s : State (Scoped W)}

/-- A call whose dispatch is not cancelled is answered. -/
theorem settle_replies (he : app.codec.EncodesErrors) (hcall : request.id.isNone = false)
    {ran : Outcome WireResponse} (hran : ran ≠ .cancelled) :
    ∃ reply, (settle app.host request s ran).2.2 = .value (some reply) := by
  have hhost : app.host.codec.EncodesErrors := he
  obtain ⟨reply, hreply⟩ := settle_returns hhost request s hran
  have hvalue := settle_value hreply
  simp only [hcall, Bool.false_eq_true, if_false] at hvalue
  obtain ⟨b, -, rfl⟩ := hvalue
  exact ⟨b, hreply⟩

/-- The code of a reply is that of the response. -/
theorem settle_code_iff (hr : app.codec.RoundTrips) (he : app.codec.EncodesErrors)
    (hcall : request.id.isNone = false) {ran : Outcome WireResponse} (hran : ran ≠ .cancelled)
    {code : ℤ} :
    (∃ own, (settle app.host request s ran).2.2 = .value (some own) ∧
      AnswersWith app.codec code own) ↔
      ∃ e id, answered app.host request ran = .error e id ∧ e.code = code := by
  obtain ⟨own, hown⟩ := settle_replies (s := s) he hcall hran
  have hvalue := settle_value hown
  simp only [hcall, Bool.false_eq_true, if_false] at hvalue
  obtain ⟨b, hb, hreply⟩ := hvalue
  obtain rfl := Option.some.inj hreply
  obtain ⟨v, hv, hencode⟩ := Option.bind_eq_some_iff.mp hb
  have hdec : app.codec.decode own = some v := hr v own hencode
  rw [← toJson_code_iff hv]
  constructor
  · rintro ⟨own', hown', v', hdec', entry, hentry, hcode⟩
    obtain rfl := Option.some.inj (Outcome.value.inj (hown.symm.trans hown'))
    obtain rfl := Option.some.inj (hdec.symm.trans hdec')
    rw [itemsOf_toJson hv, List.mem_singleton] at hentry
    rwa [hentry] at hcode
  · intro hcode
    refine ⟨own, hown, v, hdec, v, ?_, hcode⟩
    rw [itemsOf_toJson hv]
    exact List.mem_singleton_self v

/-- A cancelled call has no response of its own. -/
theorem answered_cancelled_code {e : WireError} {id : RequestId}
    (h : answered app.host request .cancelled = .error e id) : e.code ≠ -32000 := by
  obtain ⟨rfl, -⟩ := WireResponse.error.inj h
  decide

variable (s) in
/-- A call is cancelled from outside or has a reply with the code -32000 exactly when its
result gives way. -/
theorem settle_late_iff (hr : app.codec.RoundTrips) (he : app.codec.EncodesErrors)
    (hcall : request.id.isNone = false) (timer : Timer) (result : Outcome WireResponse) :
    ((timer.interrupted = true ∧
        (settle app.host request s (leaveScope timer result)).2.2 = .cancelled) ∨
      ∃ own, (settle app.host request s (leaveScope timer result)).2.2 = .value (some own) ∧
        AnswersWith app.codec (-32000) own) ↔
      (result = .cancelled ∧ (timer.expired = true ∨ timer.interrupted = true)) ∨
        ∃ e id, answered app.host request result = .error e id ∧ e.code = -32000 := by
  by_cases hcancelled : result = .cancelled
  · subst hcancelled
    have hnot : ¬ ∃ e id, answered app.host request .cancelled = .error e id ∧
        e.code = -32000 := fun ⟨_, _, h, hcode⟩ => answered_cancelled_code h hcode
    rw [leaveScope_cancelled, or_iff_left hnot]
    split_ifs with htimeout
    · -- the timer's own cancellation is a `TimeoutError`
      refine iff_of_true (.inr ((settle_code_iff hr he hcall ?_).mpr ?_)) ⟨rfl, .inl htimeout.1⟩
      · nofun
      · exact ⟨errorFor .timeout, request.responseId, rfl, rfl⟩
    · have hsilent : ¬ ∃ own, (settle app.host request s .cancelled).2.2 = .value (some own) ∧
          AnswersWith app.codec (-32000) own := fun ⟨_, h, _⟩ => nomatch h
      rw [or_iff_left hsilent]
      cases hinterrupted : timer.interrupted <;> simp_all [settle]
  · rw [leaveScope_of_ne hcancelled, settle_code_iff hr he hcall hcancelled]
    obtain ⟨own, hown⟩ := settle_replies (s := s) he hcall hcancelled
    simp [hown, hcancelled]

end

theorem cutOff_iff (hr : app.codec.RoundTrips) (he : app.codec.EncodesErrors) {deadline : ℕ}
    {t : Turn (Scoped W)} {request : RawWireRequest}
    (ht : IsTurn app.host app.dispatching deadline clientId t)
    (hvalid : validate t.item = some request)
    (hlate : deadline ≤ app.loop.clock t.before.world.world) :
    CutOff app request t ↔ GivesWay app clientId request t.before.world.world := by
  obtain ⟨hworld, s, hown⟩ := turn_late ht hvalid hlate
  have hanswer (hcall : request.id.isNone = false) := settle_late_iff s hr he hcall
    (app.lateRun clientId request t.before.world.world).timer
    (app.lateRun clientId request t.before.world.world).result
  constructor
  · intro h
    constructor
    · simpa [hworld] using h.handlers
    · intro hcall
      apply (hanswer hcall).mp
      rw [← hown]
      obtain ⟨hinterrupted, hcancelled⟩ | ⟨own, -, hreply, hcode, -⟩ := h.answer hcall
      · rw [hworld] at hinterrupted
        exact .inl ⟨hinterrupted, hcancelled⟩
      · exact .inr ⟨own, hreply, hcode⟩
  · intro h
    constructor
    · rw [hworld, h.handlers, List.append_nil]
    · intro hcall
      have hleft := (hanswer hcall).mpr (h.answer hcall)
      rw [← hown] at hleft
      obtain ⟨hinterrupted, hcancelled⟩ | ⟨own, hreply, hcode⟩ := hleft
      · left
        rw [hworld]
        exact ⟨hinterrupted, hcancelled⟩
      · obtain ⟨kept, hkept, hwhich⟩ := ht.kept_of_own hreply
        exact .inr ⟨own, kept, hreply, hcode, hkept, hwhich⟩

/-- The item is valid, and the deadline of the message has passed when its turn begins. -/
structure Late (app : TimedApp W) (s : State (Scoped W)) (t : Turn (Scoped W))
    (request : RawWireRequest) : Prop where
  valid : validate t.item = some request
  passed : app.loop.clock s.world.world + app.handlerTimeout ≤ app.loop.clock t.before.world.world

/-- Every request that begins late is cut off; and the entries of the reply that `process`
returns are what the turns keep. -/
structure DeadlineKept (app : TimedApp W) (clientId : Option String) (data : Bytes)
    (s : State (Scoped W)) : Prop where
  cutOff : ∀ t ∈ messageTurns app.host app.dispatching clientId data s,
    ∀ request, Late app s t request → CutOff app request t
  replies : messageTurns app.host app.dispatching clientId data s ≠ [] →
    ∀ b, (process app.host app.dispatching clientId data s).2 = .value (some b) →
      ∃ v, app.codec.decode b = some v ∧
        List.Forall₂ (fun kept entry => app.codec.decode kept = some entry)
          ((messageTurns app.host app.dispatching clientId data s).filterMap Turn.kept) (itemsOf v)

/-- A request that suspends first and lets the cancellation through gives way. -/
theorem givesWay_of_passes {request : RawWireRequest} {w v : W}
    {resume : Bool → W → Body W WireResponse}
    (h : app.body clientId request w = .suspends v resume)
    (hpasses : ∀ w timer, ((resume true w).run app.loop timer).events = [] ∧
      ((resume true w).run app.loop timer).timer = timer ∧
      ((resume true w).run app.loop timer).result = .cancelled) :
    GivesWay app clientId request w := by
  have hrun : app.lateRun clientId request w =
      (resume true (app.loop.wake ⟨true, false, false⟩ v).2).run app.loop
        (Timer.wake ⟨true, false, false⟩ (app.loop.wake ⟨true, false, false⟩ v).1) := by
    rw [TimedApp.lateRun, h, Coroutine.cut]
  obtain ⟨hevents, htimer, hresult⟩ := hpasses (app.loop.wake ⟨true, false, false⟩ v).2
    (Timer.wake ⟨true, false, false⟩ (app.loop.wake ⟨true, false, false⟩ v).1)
  constructor
  · rw [hrun, hevents]
  · intro _
    rw [hrun, hresult, htimer]
    refine .inl ⟨rfl, ?_⟩
    cases hwake : (app.loop.wake ⟨true, false, false⟩ v).1 with
    | continues => exact absurd hwake (app.loop.due_cancels _ v rfl rfl)
    | timeout => exact .inl rfl
    | cancelled => exact .inr rfl

/-- Whatever waits is woken by the timer, thirty units later. -/
def slowLoop : EventLoop ℕ where
  clock w := w
  wake timer w := if timer.expired then (.continues, w) else (.timeout, w + 30)
  due_cancels := by
    intro timer w _ hexpired
    simp [hexpired]

/-- `hang` waits for ever, any other method returns at once. -/
def hangingApp : TimedApp ℕ where
  loop := slowLoop
  codec := msgSpecJsonCodec
  getPrincipal := none
  dispatch _ request w := .emits request <|
    if request.method = "hang" then
      .suspends w fun cancelled w =>
        .ends w (if cancelled then .cancelled else .value (.success none request.responseId))
    else .ends w (.value (.success (some (.int 1)) request.responseId))
  handlerTimeout := 30
  maxResponseSize := 2048
  maxBatchSize := 2
  response_budget := Nat.lt_add_one 2047
  batch_limit := Nat.two_pos

def hangItem : Json := RawWireRequest.toJson ⟨"hang", some (.int 7), .null⟩

def start : State (Scoped ℕ) := ⟨{}, none, [], [], ⟨0, ⟨false, false, false⟩, []⟩⟩

/-- The second item of two has its turn when the first one is over. -/
theorem second_turn (app : ExecutionHost W) (dispatch : Dispatch W) (clientId : Option String)
    {data : Bytes} (s : State W) {item item' : Json} {f f' : Option Bytes}
    (hdec : app.codec.decode data = some (.arr [item, item']))
    (hrefused : ¬ Refused app [item, item'])
    (hf : [item, item'].mapM (fallback app.codec) = some [f, f'])
    (hfirst : ∃ reply, (processOne app dispatch (app.clock s.world + app.handlerTimeout) clientId
      item s.countRequest).2 = .value reply) :
    ∃ t ∈ messageTurns app dispatch clientId data s, t.item = item' ∧
      t.before = (processOne app dispatch (app.clock s.world + app.handlerTimeout) clientId item
        s.countRequest).1 ∧
      t.after = (processOne app dispatch (app.clock s.world + app.handlerTimeout) clientId item'
        t.before).1 := by
  obtain ⟨reply, hreply⟩ := hfirst
  rw [messageTurns_arr hdec, batchTurns_of_not_refused hrefused hf]
  show ∃ t ∈ turns app dispatch _ clientId [(item, f), (item', f')] _ _ _, _
  simp only [turns, turn, hreply]
  exact ⟨_, List.mem_cons_of_mem _ (first_mem_turns app dispatch _ clientId item' f' [] _ _ _),
    rfl, rfl, rfl⟩

/-- The identity check waits for ever, and lets its cancellation through. -/
def checkedApp : TimedApp ℕ :=
  { hangingApp with
    getPrincipal := some fun _ w => .suspends w fun cancelled w =>
      .ends w (if cancelled then .cancelled else .value none) }

theorem checkedApp_givesWay (request : RawWireRequest) (w : ℕ) :
    GivesWay checkedApp none request w :=
  givesWay_of_passes rfl fun _ _ => ⟨rfl, rfl, rfl⟩

end WireRpc.BatchDeadline
