import WireRpc.Router

/-!
# Full names and the order of middleware

Which methods a tree of routers holds, each with the routers on its path, and that the
flattened table lists exactly these. A dispatch is then the middleware of the app and of the
path, one around the other, around the handler.
-/
namespace WireRpc.Routing
open Library Execution

variable {W C V T : Type}

/-- A method with the prefixes and the middleware of the routers above it, outermost first. -/
structure Method (W C V T : Type) where
  path : List (String × List (Middleware W C V))
  name : String
  registered : Registered W C V T

namespace Method

def fullName (m : Method W C V T) : String :=
  ".".intercalate (m.path.map Prod.fst ++ [m.name])

def middleware (m : Method W C V T) : List (Middleware W C V) := m.path.flatMap Prod.snd

def below (router : String × List (Middleware W C V)) (m : Method W C V T) : Method W C V T :=
  { m with path := router :: m.path }

/-- The entry of a method in a table, below what it is flattened under. -/
def entry (pre : String) (chain : List (Middleware W C V)) (m : Method W C V T) :
    String × HandlerEntry W C V T :=
  (pre ++ m.fullName, ⟨m.registered, chain ++ m.middleware⟩)

theorem fullName_below (own : String) (middleware : List (Middleware W C V))
    (m : Method W C V T) : (m.below (own, middleware)).fullName = own ++ "." ++ m.fullName := by
  unfold fullName below
  cases m.path with
  | nil => simp [String.intercalate_cons_cons]
  | cons router path => simp [String.intercalate_cons_cons]

theorem entry_below (pre own : String) (chain middleware : List (Middleware W C V))
    (m : Method W C V T) :
    (m.below (own, middleware)).entry pre chain =
      m.entry (pre ++ own ++ ".") (chain ++ middleware) := by
  unfold entry
  rw [fullName_below]
  simp [below, Method.middleware, String.append_assoc]

end Method

/-- A method on a router itself, as the router has it. -/
def Method.direct (name : String) (registered : Registered W C V T) : Method W C V T :=
  ⟨[], name, registered⟩

namespace Router

mutual

/-- The methods of a router and of those below it. -/
def methods : Router W C V T → List (Method W C V T)
  | mk own handlers middleware children =>
    (handlers.entries.map (fun e => Method.direct e.1 e.2) ++ methodsAll children).map
      (Method.below (own, middleware))

def methodsAll : List (Router W C V T) → List (Method W C V T)
  | [] => []
  | child :: children => methods child ++ methodsAll children

end

theorem localEntries_lists (fullPrefix : String) (chain : List (Middleware W C V))
    (handlers : Table String (Registered W C V T)) :
    Table.Lists (localEntries fullPrefix chain handlers)
      ((handlers.entries.map fun e => Method.direct e.1 e.2).map
        (Method.entry fullPrefix chain)) := by
  unfold localEntries
  induction handlers.entries using List.reverseRecOn with
  | nil => exact .empty
  | append_singleton es e ih =>
    have hentry : (Method.direct e.1 e.2).entry fullPrefix chain =
        (fullPrefix ++ e.1, ⟨e.2, chain⟩) := by
      simp [Method.entry, Method.direct, Method.fullName, Method.middleware]
    rw [List.foldl_append, List.map_append, List.map_append, List.map_singleton,
      List.map_singleton, hentry]
    exact ih.insert (fullPrefix ++ e.1) ⟨e.2, chain⟩

mutual

/-- Flattening lists the methods of the tree under their full names. -/
theorem flatten_lists (pre : String) (chain : List (Middleware W C V)) :
    ∀ router : Router W C V T,
      Table.Lists (router.flatten pre chain) (router.methods.map (Method.entry pre chain))
  | mk own handlers middleware children => by
    have hlists := flattenAll_lists (pre ++ own ++ ".") (chain ++ middleware)
      (localEntries_lists (pre ++ own ++ ".") (chain ++ middleware) handlers) children
    rw [← List.map_append] at hlists
    simpa only [flatten, methods, List.map_map, Function.comp_def, Method.entry_below] using hlists

theorem flattenAll_lists (fullPrefix : String) (chain : List (Middleware W C V))
    {entries : Table String (HandlerEntry W C V T)}
    {l : List (String × HandlerEntry W C V T)} (h : Table.Lists entries l) :
    ∀ children : List (Router W C V T),
      Table.Lists (flattenAll fullPrefix chain entries children)
        (l ++ (methodsAll children).map (Method.entry fullPrefix chain))
  | [] => by simpa only [flattenAll, methodsAll, List.map_nil, List.append_nil] using h
  | child :: children => by
    have hchild := h.update (flatten_lists fullPrefix chain child)
    have hrest := flattenAll_lists fullPrefix chain hchild children
    simpa only [flattenAll, methodsAll, List.map_append, List.append_assoc] using hrest

end

end Router

def Registration.methods : Registration W C V T → List (Method W C V T)
  | .method name registered => [.direct name registered]
  | .includeRouter router => router.methods
  | .middleware _ => []

/-- The middleware of the app itself. -/
def Registration.outer : Registration W C V T → List (Middleware W C V)
  | .middleware func => [func]
  | _ => []

/-- An app after some registrations. -/
def App.build (ctx : C) (registrations : List (Registration W C V T)) : App W C V T :=
  registrations.foldl App.register (App.new ctx)

theorem App.build_concat (ctx : C) (registrations : List (Registration W C V T))
    (r : Registration W C V T) :
    App.build ctx (registrations ++ [r]) = (App.build ctx registrations).register r := by
  unfold App.build
  rw [List.foldl_append]
  rfl

/-- A registration adds its methods to the table. -/
theorem App.register_lists {app : App W C V T} {ms : List (Method W C V T)}
    (h : Table.Lists app.handlers (ms.map (Method.entry "" []))) (r : Registration W C V T) :
    Table.Lists (app.register r).handlers ((ms ++ r.methods).map (Method.entry "" [])) := by
  rw [List.map_append]
  cases r with
  | method name registered =>
    have hentry : (Method.direct name registered).entry "" [] = (name, ⟨registered, []⟩) := by
      simp [Method.entry, Method.direct, Method.fullName, Method.middleware]
    rw [Registration.methods, List.map_singleton, hentry]
    exact h.insert name ⟨registered, []⟩
  | includeRouter router => exact h.update (router.flatten_lists "" [])
  | middleware func =>
    rw [Registration.methods, List.map_nil, List.append_nil]
    exact h

theorem App.build_lists (ctx : C) (registrations : List (Registration W C V T)) :
    Table.Lists (App.build ctx registrations).handlers
      ((registrations.flatMap Registration.methods).map (Method.entry "" [])) := by
  induction registrations using List.reverseRecOn with
  | nil => exact .empty
  | append_singleton registrations r ih =>
    rw [App.build_concat, List.flatMap_append, List.flatMap_singleton]
    exact App.register_lists ih r

theorem App.build_middleware (ctx : C) (registrations : List (Registration W C V T)) :
    (App.build ctx registrations).middleware = registrations.flatMap Registration.outer := by
  induction registrations using List.reverseRecOn with
  | nil => rfl
  | append_singleton registrations r ih =>
    rw [App.build_concat, List.flatMap_append, List.flatMap_singleton, ← ih]
    cases r with
    | method name registered => exact (List.append_nil _).symm
    | includeRouter router => exact (List.append_nil _).symm
    | middleware func => rfl

theorem App.build_ctx (ctx : C) (registrations : List (Registration W C V T)) :
    (App.build ctx registrations).ctx = ctx := by
  induction registrations using List.reverseRecOn with
  | nil => rfl
  | append_singleton registrations r ih =>
    rw [App.build_concat]
    cases r with
    | method name registered => exact ih
    | includeRouter router => exact ih
    | middleware func => exact ih

theorem fst_entry (m : Method W C V T) : (m.entry "" []).1 = m.fullName :=
  String.empty_append

theorem map_fst_entry (ms : List (Method W C V T)) :
    (ms.map (Method.entry "" [])).map Prod.fst = ms.map Method.fullName := by
  simp [Function.comp_def, fst_entry]

/-- The steps one around the other, around the handler. -/
def composition (codec : TypedCodec V T) (calling : Calling C V T) (scope : Scope)
    (steps : List (Middleware W C V)) (registered : Registered W C V T) :
    Callee (Stage W C V T) W (Request V × C) (Answer V) :=
  layered (steps.map (Middleware.layer scope))
    (atCore (.handler registered.handler) (callHandler codec calling registered scope))

/-- The chain is the composition of the app's middleware and the entry's. -/
theorem dispatch_eq {codec : TypedCodec V T} {calling : Calling C V T} {app : App W C V T}
    {scope : Scope} {request : Request V} {w : W} {entry : HandlerEntry W C V T} {params : V}
    (hentry : app.handlers.lookup request.method = some entry)
    (hparams : convertParams codec entry.registered.spec request.params = some params) :
    dispatch codec calling app scope request w =
      let ran := composition codec calling scope (app.middleware ++ entry.middleware)
        entry.registered ({ request with params := params }, app.ctx) w
      ⟨ran.world, ran.answer, [ran.activation]⟩ := by
  unfold dispatch composition
  rw [hentry]
  simp only [hparams]
  rw [foldl_reverse_around, foldl_reverse_around, layered_append, List.map_append]

theorem dispatch_unknown {codec : TypedCodec V T} {calling : Calling C V T} {app : App W C V T}
    {scope : Scope} {request : Request V} {w : W}
    (h : app.handlers.lookup request.method = none) :
    dispatch codec calling app scope request w =
      ⟨w, .value (.error ⟨.methodNotFound, "Method not found", .null⟩ request.responseId), []⟩ := by
  unfold dispatch
  rw [h]

theorem dispatch_inconvertible {codec : TypedCodec V T} {calling : Calling C V T}
    {app : App W C V T} {scope : Scope} {request : Request V} {w : W}
    {entry : HandlerEntry W C V T} (hentry : app.handlers.lookup request.method = some entry)
    (hparams : convertParams codec entry.registered.spec request.params = none) :
    dispatch codec calling app scope request w =
      ⟨w, .value (.error ⟨.invalidParams, "Invalid params", .null⟩ request.responseId), []⟩ := by
  unfold dispatch
  rw [hentry]
  simp only [hparams]

/-- The stages of a dispatch that gets as far as the handler. -/
def stages (steps : List (Middleware W C V)) (registered : Registered W C V T) :
    List (Stage W C V T) :=
  steps.map .middleware ++ [.handler registered.handler]

/-- What a dispatch activates, given the stages in their order: at each depth only the stage of
that depth; each stage once where every middleware calls `next` once; and nothing below
middleware that does not call it. -/
structure InOrder (steps : List (Middleware W C V)) (registered : Registered W C V T)
    (activation : Activation (Stage W C V T)) : Prop where
  label : ∀ d, ∀ u ∈ activation.level d, (stages steps registered)[d]? = some u.label
  once : activation.EachOnce (steps.map Stage.middleware) →
    activation.order = stages steps registered
  stops : ∀ d e, (∀ u ∈ activation.level d, u.inner = []) → d < e → activation.level e = []

theorem composition_inOrder (codec : TypedCodec V T) (calling : Calling C V T) (scope : Scope)
    (steps : List (Middleware W C V)) (registered : Registered W C V T)
    (call : Request V × C) (w : W) :
    InOrder steps registered
      (composition codec calling scope steps registered call w).activation := by
  have hfollows := layered_follows (steps.map (Middleware.layer scope))
    (.handler registered.handler) (callHandler codec calling registered scope) call w
  rw [List.map_map] at hfollows
  constructor
  · exact hfollows.label_level
  · exact Activation.order_eq hfollows
  · exact fun d e => Activation.level_of_silent

/-- Middleware that calls `next` once. -/
def passing (name : String) : Middleware (List String) Unit Json where
  name := name
  body _ call w := .calls (name :: w) call fun w answer => .ends w answer

def answering (name : String) : Registered (List String) Unit Json Unit where
  handler :=
    { parameters := [⟨"ctx", true, none⟩]
      returns := none
      body := fun _ _ w => (name :: w, .value .null) }
  multicast := false
  spec := ⟨none, none, false, false⟩
  inspected := rfl

def users : Router (List String) Unit Json Unit :=
  .mk "users" (AList.insert "list" (answering "users") ∅) [passing "quota"] []

def admin : Router (List String) Unit Json Unit :=
  .mk "admin" (AList.insert "list" (answering "admins") ∅) [passing "audit"] [users]

def jsonObjects : TypedCodec Json Unit where
  ofJson v := v
  toJson v := some v
  convert v _ := some v

def listUsers : Method (List String) Unit Json Unit :=
  ⟨[("admin", [passing "audit"]), ("users", [passing "quota"])], "list", answering "users"⟩

/-- The app registers its own middleware after the router. -/
def adminApp : List (Registration (List String) Unit Json Unit) :=
  [.includeRouter admin, .middleware (passing "log")]

def listScope : Scope := ⟨⟨.int 1, "admin.users.list", some "root", none⟩, 30⟩

end WireRpc.Routing
