import WireRpc.Execution
import WireRpc.Library.Layers
import WireRpc.Library.Tables

/-!
# Routers, their flattening, and the dispatch of an app

Handlers are grouped in a tree of routers, each with a prefix and middleware. An app flattens
the tree to one table, where every handler stands under its full name with the middleware of
the routers above it. Objects, hints and the context are whatever the application uses.
-/
namespace WireRpc.Routing
open Library Execution

variable {W C V T : Type}

/-- What middleware and handlers read besides their arguments: `current_request()`, and the
deadline they run under. -/
structure Scope where
  context : RequestContext
  deadline : ℕ

/-- A request whose params may have been converted. -/
structure Request (V : Type) where
  method : String
  id : Option RequestId
  params : V

def Request.responseId (r : Request V) : RequestId := r.id.getD .null

inductive Response (V : Type) where
  | success (result : V) (id : RequestId)
  | error (error : WireError) (id : RequestId)

/-- The typed side of a codec. In `convert` a `none` is the `CodecConversionError`; in `toJson`
it is an object that cannot be encoded. -/
structure TypedCodec (V T : Type) where
  ofJson : Json → V
  toJson : V → Option Json
  convert : V → T → Option V

structure Parameter (T : Type) where
  name : String
  positional : Bool
  hint : Option T

/-- The arguments of a handler are positional. -/
inductive Argument (C V : Type) where
  | params (v : V)
  | ctx (c : C)
  | clientId (id : String)

/-- A handler with its signature. -/
structure Handler (W C V T : Type) where
  parameters : List (Parameter T)
  returns : Option T
  body : Scope → List (Argument C V) → W → W × Outcome V

structure HandlerSpec (T : Type) where
  paramsType : Option T
  returnType : Option T
  hasParams : Bool
  receivesClientId : Bool

def Handler.spec (func : Handler W C V T) (hasParams receivesClientId : Bool) : HandlerSpec T where
  paramsType := if hasParams then func.parameters.head?.bind Parameter.hint else none
  returnType := func.returns
  hasParams := hasParams
  receivesClientId := receivesClientId

/-- `none` is the `TypeError` for a signature that is not supported. -/
def inspectHandler (multicast : Bool) (func : Handler W C V T) : Option (HandlerSpec T) :=
  if func.parameters.any fun p => !p.positional then none
  else
    match multicast, func.parameters with
    | true, [_] => some (func.spec false false)
    | true, [_, second] =>
      let receivesClientId := second.name == "client_id"
      some (func.spec (!receivesClientId) receivesClientId)
    | true, [_, _, third] =>
      if third.name = "client_id" then some (func.spec true true) else none
    | false, [_] => some (func.spec false false)
    | false, [_, _] => some (func.spec true false)
    | _, _ => none

/-- A handler that has passed the inspection of its signature. -/
structure Registered (W C V T : Type) where
  handler : Handler W C V T
  multicast : Bool
  spec : HandlerSpec T
  inspected : inspectHandler multicast handler = some spec

/-- What a dispatching app passes to a handler. -/
abbrev Calling (C V T : Type) := HandlerSpec T → V → C → List (Argument C V)

/-- As `App._dispatch` calls a handler. -/
def unicast : Calling C V T := fun spec params ctx =>
  if spec.hasParams then [.params params, .ctx ctx] else [.ctx ctx]

/-- As `MulticastApp._dispatch` calls a handler. -/
def multicast (clientId : String) : Calling C V T := fun spec params ctx =>
  if spec.hasParams && spec.receivesClientId then [.params params, .ctx ctx, .clientId clientId]
  else if spec.hasParams then [.params params, .ctx ctx]
  else if spec.receivesClientId then [.ctx ctx, .clientId clientId]
  else [.ctx ctx]

/-- What calls of middleware end with: a response, an exception or a cancellation. -/
abbrev Answer (V : Type) := Outcome (Response V)

structure Middleware (W C V : Type) where
  name : String
  body : Scope → Layer W (Request V × C) (Answer V)

/-- `_handlers` and `_specs` have the same keys, and are one table here. -/
inductive Router (W C V T : Type) where
  | mk (pre : String) (handlers : Table String (Registered W C V T))
    (middleware : List (Middleware W C V)) (children : List (Router W C V T))

structure HandlerEntry (W C V T : Type) where
  registered : Registered W C V T
  middleware : List (Middleware W C V)

namespace Router

/-- The local handlers under their full names. -/
def localEntries (fullPrefix : String) (chain : List (Middleware W C V))
    (handlers : Table String (Registered W C V T)) : Table String (HandlerEntry W C V T) :=
  handlers.entries.foldl (fun entries e => entries.insert (fullPrefix ++ e.1) ⟨e.2, chain⟩) ∅

mutual

/-- `Router._flatten`. -/
def flatten (pre : String) (parentMiddleware : List (Middleware W C V)) :
    Router W C V T → Table String (HandlerEntry W C V T)
  | mk own handlers middleware children =>
    let chain := parentMiddleware ++ middleware
    let fullPrefix := pre ++ own ++ "."
    flattenAll fullPrefix chain (localEntries fullPrefix chain handlers) children

/-- The loop over the children, which updates the entries found so far. -/
def flattenAll (fullPrefix : String) (chain : List (Middleware W C V))
    (entries : Table String (HandlerEntry W C V T)) :
    List (Router W C V T) → Table String (HandlerEntry W C V T)
  | [] => entries
  | child :: children =>
    flattenAll fullPrefix chain (Table.update entries (flatten fullPrefix chain child)) children

end

end Router

/-- What dispatch reads of an app. Its three dicts have the same keys, and are one table. -/
structure App (W C V T : Type) where
  ctx : C
  handlers : Table String (HandlerEntry W C V T)
  middleware : List (Middleware W C V)

inductive Registration (W C V T : Type) where
  | method (name : String) (registered : Registered W C V T)
  | includeRouter (router : Router W C V T)
  | middleware (func : Middleware W C V)

namespace App

def new (ctx : C) : App W C V T := ⟨ctx, ∅, []⟩

def register (app : App W C V T) : Registration W C V T → App W C V T
  | .method name registered =>
    { app with handlers := app.handlers.insert name ⟨registered, []⟩ }
  | .includeRouter router =>
    { app with handlers := Table.update app.handlers (router.flatten "" []) }
  | .middleware func => { app with middleware := app.middleware ++ [func] }

end App

/-- What a dispatch activates: middleware and handlers. -/
inductive Stage (W C V T : Type) where
  | middleware (func : Middleware W C V)
  | handler (func : Handler W C V T)

/-- The innermost function of the chain. -/
def callHandler (codec : TypedCodec V T) (calling : Calling C V T)
    (registered : Registered W C V T) (scope : Scope) (call : Request V × C) (w : W) :
    W × Answer V :=
  match registered.handler.body scope (calling registered.spec call.1.params call.2) w with
  | (w, .cancelled) => (w, .cancelled)
  | (w, .raised e) => (w, .raised e)
  | (w, .value result) =>
    match registered.spec.returnType with
    | none => (w, .value (.success result call.1.responseId))
    | some returnType =>
      match codec.convert result returnType with
      | none => (w, .raised .other)
      | some result => (w, .value (.success result call.1.responseId))

/-- Params are converted for a handler that takes them and has a hint for them. -/
def convertParams (codec : TypedCodec V T) (spec : HandlerSpec T) (params : V) : Option V :=
  match spec.paramsType with
  | none => some params
  | some paramsType => if spec.hasParams then codec.convert params paramsType else some params

/-- A middleware under what it reads, with its label. -/
def Middleware.layer (scope : Scope) (func : Middleware W C V) :
    Stage W C V T × Layer W (Request V × C) (Answer V) :=
  (.middleware func, func.body scope)

/-- How a dispatch ended, and what it activated. -/
structure Dispatched (W C V T : Type) where
  world : W
  answer : Answer V
  activations : List (Activation (Stage W C V T))

/-- `_dispatch`. -/
def dispatch (codec : TypedCodec V T) (calling : Calling C V T) (app : App W C V T)
    (scope : Scope) (request : Request V) (w : W) : Dispatched W C V T :=
  match app.handlers.lookup request.method with
  | none =>
    ⟨w, .value (.error ⟨.methodNotFound, "Method not found", .null⟩ request.responseId), []⟩
  | some entry =>
    match convertParams codec entry.registered.spec request.params with
    | none =>
      ⟨w, .value (.error ⟨.invalidParams, "Invalid params", .null⟩ request.responseId), []⟩
    | some params =>
      let chain := atCore (.handler entry.registered.handler)
        (callHandler codec calling entry.registered scope)
      let chain := (entry.middleware.map (Middleware.layer scope)).reverse.foldl
        (fun next layer => around layer.1 layer.2 next) chain
      let chain := (app.middleware.map (Middleware.layer scope)).reverse.foldl
        (fun next layer => around layer.1 layer.2 next) chain
      let ran := chain ({ request with params := params }, app.ctx) w
      ⟨ran.world, ran.answer, [ran.activation]⟩

/-- The request as it was decoded. -/
def Request.ofRaw (codec : TypedCodec V T) (request : RawWireRequest) : Request V :=
  ⟨request.method, request.id, codec.ofJson request.params⟩

def Response.toWire (codec : TypedCodec V T) : Response V → WireResponse
  | success result id => .success (codec.toJson result) id
  | error e id => .error e id

def Answer.toWire (codec : TypedCodec V T) : Answer V → Outcome WireResponse
  | .value response => .value (response.toWire codec)
  | .raised e => .raised e
  | .cancelled => .cancelled

/-- The dispatch that `process` is given. -/
def App.dispatcher (codec : TypedCodec V T) (calling : Calling C V T) (app : App W C V T) :
    Dispatch W := fun context request deadline w =>
  let dispatched := dispatch codec calling app ⟨context, deadline⟩ (.ofRaw codec request) w
  (dispatched.world, Answer.toWire codec dispatched.answer)

end WireRpc.Routing
