import WireRpc.FailureIsolation
import WireRpc.MiddlewareOrder

/-!
# Apps with routers

An app that was built from methods, routers and middleware is served by its own dispatch. What
the handlers and each middleware have to keep to, one by one, so that every message is answered
as the protocol asks and the loops of both apps go on.
-/
namespace WireRpc.Routing
open Library Execution

variable {W C V T : Type}

def Response.id : Response V → RequestId
  | .success _ id => id
  | .error _ id => id

/-- A response with the id of the request, or an ordinary exception. -/
def AnswersCall (call : Request V × C) (answer : Answer V) : Prop :=
  (∃ response, answer = .value response ∧ response.id = call.1.responseId) ∨
    ∃ e, answer = .raised e

def Uncancelled (_ : Request V × C) (answer : Answer V) : Prop := answer ≠ .cancelled

theorem AnswersCall.uncancelled {call : Request V × C} {answer : Answer V}
    (h : AnswersCall call answer) : Uncancelled call answer := by
  rintro rfl
  obtain ⟨response, h, -⟩ | ⟨e, h⟩ := h
  · cases h
  · cases h

/-- The handler returns or raises an ordinary exception. -/
def Handler.Returns (handler : Handler W C V T) : Prop :=
  ∀ scope arguments w, (handler.body scope arguments w).2 ≠ .cancelled

/-- The middleware answers its call as `R` says, if `next` answers every call it makes so. -/
def Middleware.Keeps (R : Request V × C → Answer V → Prop) (func : Middleware W C V) : Prop :=
  ∀ scope, Layer.Keeps R (func.body scope)

/-- What is asked of the handlers and the middleware of an app, each for itself. -/
structure Behaves (R : Request V × C → Answer V → Prop)
    (registrations : List (Registration W C V T)) : Prop where
  handlers : ∀ m ∈ registrations.flatMap Registration.methods, m.registered.handler.Returns
  routed : ∀ m ∈ registrations.flatMap Registration.methods, ∀ func ∈ m.middleware, func.Keeps R
  outer : ∀ func ∈ registrations.flatMap Registration.outer, func.Keeps R

variable {codec : TypedCodec V T} {calling : Calling C V T} {ctx : C}
  {registrations : List (Registration W C V T)} {R : Request V × C → Answer V → Prop}

theorem callHandler_answers {registered : Registered W C V T} (h : registered.handler.Returns)
    (scope : Scope) (call : Request V × C) (w : W) :
    AnswersCall call (callHandler codec calling registered scope call w).2 := by
  unfold callHandler
  have hreturns := h scope (calling registered.spec call.1.params call.2) w
  split
  · rename_i heq
    rw [heq] at hreturns
    exact absurd rfl hreturns
  · exact .inr ⟨_, rfl⟩
  · split
    · exact .inl ⟨_, rfl, rfl⟩
    · split
      · exact .inr ⟨_, rfl⟩
      · exact .inl ⟨_, rfl, rfl⟩

/-- An entry of the table of an app is that of one of its methods. -/
theorem exists_method {name : String} {entry : HandlerEntry W C V T}
    (h : (App.build ctx registrations).handlers.lookup name = some entry) :
    ∃ m ∈ registrations.flatMap Registration.methods, entry = ⟨m.registered, m.middleware⟩ := by
  have hlists := App.build_lists ctx registrations name
  rw [h] at hlists
  obtain ⟨m, hm, heq⟩ := List.mem_map.mp hlists
  exact ⟨m, hm, (Prod.mk.inj heq).2.symm⟩

/-- What the middleware keeps, a dispatch does, whatever params the request was given on the
way. -/
theorem dispatch_keeps (codec : TypedCodec V T) (calling : Calling C V T) (ctx : C)
    (hweaker : ∀ call answer, AnswersCall call answer → R call answer)
    (h : Behaves R registrations) (scope : Scope) (request : Request V) (w : W) :
    ∃ params, R ({ request with params := params }, ctx)
      (dispatch codec calling (App.build ctx registrations) scope request w).answer := by
  cases hentry : (App.build ctx registrations).handlers.lookup request.method with
  | none =>
    rw [dispatch_unknown hentry]
    exact ⟨request.params, hweaker _ _ (.inl ⟨_, rfl, rfl⟩)⟩
  | some entry =>
    obtain ⟨m, hm, rfl⟩ := exists_method hentry
    cases hparams : convertParams codec m.registered.spec request.params with
    | none =>
      rw [dispatch_inconvertible hentry hparams]
      exact ⟨request.params, hweaker _ _ (.inl ⟨_, rfl, rfl⟩)⟩
    | some params =>
      refine ⟨params, ?_⟩
      rw [dispatch_eq hentry hparams, App.build_middleware, App.build_ctx]
      refine layered_keeps ?_ (fun call w => ?_) _ _
      · intro layer hlayer
        obtain ⟨func, hfunc, rfl⟩ := List.mem_map.mp hlayer
        obtain hfunc | hfunc := List.mem_append.mp hfunc
        · exact h.outer func hfunc scope
        · exact h.routed m hm func hfunc scope
      · exact hweaker _ _ (callHandler_answers (h.handlers m hm) scope call w)

theorem Answer.eq_cancelled {answer : Answer V} (h : Answer.toWire codec answer = .cancelled) :
    answer = .cancelled := by
  cases answer with
  | value response => cases h
  | raised e => cases h
  | cancelled => rfl

theorem dispatcher_answersWithId (h : Behaves AnswersCall registrations) :
    AnswersWithId ((App.build ctx registrations).dispatcher codec calling) := by
  intro context request deadline w
  obtain ⟨params, hkeeps⟩ := dispatch_keeps codec calling ctx (fun _ _ h => h) h
    ⟨context, deadline⟩ (.ofRaw codec request) w
  unfold App.dispatcher
  obtain ⟨response, hanswer, hid⟩ | ⟨e, hanswer⟩ := hkeeps
  · refine .inl ⟨response.toWire codec, ?_, ?_⟩
    · simp only [hanswer, Answer.toWire]
    · cases response <;> exact hid
  · refine .inr ⟨e, ?_⟩
    simp only [hanswer, Answer.toWire]

theorem dispatcher_returns (h : Behaves Uncancelled registrations) :
    DispatchReturns ((App.build ctx registrations).dispatcher codec calling) := by
  intro context request deadline w
  obtain ⟨params, hkeeps⟩ := dispatch_keeps codec calling ctx (fun _ _ h => h.uncancelled) h
    ⟨context, deadline⟩ (.ofRaw codec request) w
  exact fun hcancelled => hkeeps (Answer.eq_cancelled hcancelled)

/-- A message of a peer is processed with the dispatch of the app for this peer. -/
def Routed (codec : TypedCodec V T) (app : App W C V T) (s : MulticastApp.State) :
    MulticastApp.Event W → Prop
  | .processed t dispatch _ => dispatch = app.dispatcher codec (multicast (s.tasks t).peer)
  | _ => True

/-- If the middleware answers with the id of its request, as long as `next` does, then every
message is answered as the protocol asks. If no handler and no middleware ends with
`CancelledError`, the middleware as long as `next` does not, both loops go on until a call of the
transport fails or `stop` is called. What a deadline cuts short ends with the `TimeoutError` that
the deadline scope makes of it. -/
theorem routed_app_served (host : ExecutionHost W) (hr : host.codec.RoundTrips)
    (he : host.codec.EncodesErrors) (hl : host.codec.EncodesLists) (hi : IdentityReturns host)
    (codec : TypedCodec V T) (ctx : C) (registrations : List (Registration W C V T)) :
    let app := App.build ctx registrations
    (Behaves AnswersCall registrations →
      ∀ calling clientId data envelope s, host.codec.decode data = some envelope →
        ∃ s' reply, process host (app.dispatcher codec calling) clientId data s =
            (s', .value reply) ∧
          Conforms host envelope s.dispatched s'.dispatched reply) ∧
    (Behaves Uncancelled registrations →
      (∀ es s, Machine.run (WireRpc.App.step host) WireRpc.App.start es = some s →
        (∀ dispatch state, .processed dispatch state ∈ es →
          dispatch = app.dispatcher codec unicast) → WireRpc.App.Serving host s) ∧
      ∀ maxConcurrency es s, 0 < maxConcurrency →
        Machine.run (MulticastApp.step host) (MulticastApp.start maxConcurrency) es = some s →
        Machine.Meets (MulticastApp.step host) (Routed codec app)
          (MulticastApp.start maxConcurrency) es → MulticastApp.Serving host s) := by
  intro app
  refine ⟨fun h calling clientId data envelope s hdec => ?_, fun h => ⟨?_, ?_⟩⟩
  · rw [process_of_decode hdec]
    exact processEnvelope_conforms hr he hl (dispatcher_answersWithId h) hi envelope s.countRequest
  · intro es s hrun hrouted
    refine WireRpc.App.serving_run hr he hl hi (Machine.meets_of_forall ?_ _) hrun
    intro e he' u
    cases e with
    | processed dispatch state => exact hrouted dispatch state he' ▸ dispatcher_returns h
    | _ => trivial
  · intro maxConcurrency es s hn hrun hrouted
    refine MulticastApp.serving_run hr he hl hi hn (hrouted.mono fun u e he' => ?_) hrun
    cases e with
    | processed t dispatch state => exact he' ▸ dispatcher_returns h
    | _ => trivial

/-- The host of `adminApp`. -/
def adminHost : ExecutionHost (List String) where
  codec := msgSpecJsonCodec
  getPrincipal := none
  clock := List.length
  handlerTimeout := 30
  maxResponseSize := 4096
  maxBatchSize := 1
  response_budget := by decide
  batch_limit := Nat.one_pos

def unserved : Execution.State (List String) := ⟨{}, none, [], [], []⟩

theorem passing_keeps {R : Request Json × Unit → Answer Json → Prop} (name : String) :
    (passing name).Keeps R :=
  fun _ _ _ => .calls fun _ _ h => .ends h

theorem adminApp_methods : adminApp.flatMap Registration.methods =
    [⟨[("admin", [passing "audit"])], "list", answering "admins"⟩, listUsers] := rfl

/-- Its middleware hands on the call and the answer as they are. -/
theorem adminApp_behaves (R : Request Json × Unit → Answer Json → Prop) : Behaves R adminApp where
  handlers := by
    rw [adminApp_methods]
    exact List.forall_mem_cons.mpr ⟨fun _ _ _ => nofun, List.forall_mem_singleton.mpr fun _ _ _ =>
      nofun⟩
  routed := by
    rw [adminApp_methods]
    refine List.forall_mem_cons.mpr ⟨?_, List.forall_mem_singleton.mpr ?_⟩
    · exact List.forall_mem_singleton.mpr (passing_keeps "audit")
    · exact List.forall_mem_cons.mpr ⟨passing_keeps "audit",
        List.forall_mem_singleton.mpr (passing_keeps "quota")⟩
  outer := List.forall_mem_singleton.mpr (passing_keeps "log")

/-- A call of a method of the inner router. -/
def listItem : Json := RawWireRequest.toJson ⟨"admin.users.list", some (.int 1), .null⟩

def adminDispatch : Dispatch (List String) :=
  (App.build () adminApp).dispatcher jsonObjects unicast

/-- The call is answered, and the app waits for the next message. -/
theorem routed_app_served_users :
    (∃ s' reply, process adminHost adminDispatch none (Json.encode listItem) unserved =
        (s', .value reply) ∧ Conforms adminHost listItem [] s'.dispatched reply) ∧
      ∃ s, Machine.run (WireRpc.App.step adminHost) WireRpc.App.start
          [.receive (Json.encode listItem), .processed adminDispatch unserved, .sent .done] =
            some s ∧
        WireRpc.App.Serving adminHost s := by
  obtain ⟨hconforms, hserves⟩ := routed_app_served adminHost msgSpecJsonCodec_roundTrips
    msgSpecJsonCodec_encodesErrors msgSpecJsonCodec_encodesLists (by rintro _ ⟨⟩) jsonObjects ()
    adminApp
  obtain ⟨happ, -⟩ := hserves (adminApp_behaves Uncancelled)
  have hdecode : adminHost.codec.decode (Json.encode listItem) = some listItem :=
    msgSpecJsonCodec_roundTrips listItem _ rfl
  obtain ⟨s', reply, hprocess, hreply⟩ :=
    hconforms (adminApp_behaves AnswersCall) unicast none _ listItem unserved hdecode
  have hvalue : (process adminHost adminDispatch none (Json.encode listItem) unserved).2 =
      .value reply := congrArg Prod.snd hprocess
  have hrun := WireRpc.App.run_served hvalue
  refine ⟨⟨s', reply, hprocess, hreply⟩, _, hrun, happ _ _ hrun ?_⟩
  intro dispatch state hmem
  simp only [List.mem_cons, List.not_mem_nil, or_false, reduceCtorEq, false_or,
    WireRpc.App.Event.processed.injEq] at hmem
  exact hmem.1

end WireRpc.Routing
