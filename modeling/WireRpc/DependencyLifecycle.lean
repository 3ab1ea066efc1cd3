import WireRpc.Library.Lists

/-!
# The lifecycle of authentication dependencies

`DependencyLifecycle` starts the objects it was given and shuts down those it has started. Each
call of an object may return, raise, or be cut off by a cancellation, which is what the timeouts
around startup and shutdown deliver. The cancellation also ends the loop over the dependencies.
-/
namespace WireRpc.DependencyLifecycle
open Library

variable {ε : Type}

/-- How an awaited call ends. Only `raises` is caught by `except Exception`. -/
inductive Ended (ε : Type) where
  | returns
  | raises (e : ε)
  | cancelled
  deriving DecidableEq

def Ended.isCancelled : Ended ε → Bool
  | cancelled => true
  | _ => false

def Ended.fails : Ended ε → Bool
  | returns => false
  | _ => true

inductive Invocation (D : Type) where
  | startup (d : D)
  | shutdown (d : D)
  deriving DecidableEq

/-- The objects, of which some are a `StartupComponent`, and how their calls end.
`alreadyStarted` is the `RuntimeError` of a second startup. -/
structure Environment (D ε : Type) where
  hasLifecycle : D → Bool
  startup : D → Ended ε
  shutdown : D → Ended ε
  alreadyStarted : ε

/-- The object, with the history of the calls it has made. -/
structure Lifecycle (D : Type) where
  dependencies : List D
  started : List D
  startupCalled : Bool
  calls : List (Invocation D)

variable {D : Type}

def new (dependencies : List D) : Lifecycle D := ⟨dependencies, [], false, []⟩

/-- The loop of `shutdown`, with the last failure so far. A cancellation is not an `Exception`,
and leaves the loop. -/
def shutdownLoop (env : Environment D ε) :
    List D → Option ε → List (Invocation D) → Ended ε × List (Invocation D)
  | [], none, calls => (.returns, calls)
  | [], some e, calls => (.raises e, calls)
  | d :: ds, failure, calls =>
    match env.shutdown d with
    | .returns => shutdownLoop env ds failure (calls ++ [.shutdown d])
    | .raises e => shutdownLoop env ds (some e) (calls ++ [.shutdown d])
    | .cancelled => (.cancelled, calls ++ [.shutdown d])

/-- The list of what was started is emptied before the loop. -/
def shutdown (env : Environment D ε) (s : Lifecycle D) : Ended ε × Lifecycle D :=
  let ran := shutdownLoop env s.started.reverse none s.calls
  (ran.1, { s with started := [], calls := ran.2 })

section
variable [DecidableEq D]

/-- The loop of `startup`, with the objects it has seen. -/
def startupLoop (env : Environment D ε) :
    List D → List D → Lifecycle D → Ended ε × Lifecycle D
  | [], _, s => (.returns, s)
  | d :: ds, seen, s =>
    if env.hasLifecycle d ∧ d ∉ seen then
      match env.startup d with
      | .returns =>
        startupLoop env ds (d :: seen)
          { s with calls := s.calls ++ [.startup d], started := s.started ++ [d] }
      | failure => (failure, { s with calls := s.calls ++ [.startup d] })
    else startupLoop env ds seen s

/-- What the rollback raises replaces the failure. -/
def startup (env : Environment D ε) (s : Lifecycle D) : Ended ε × Lifecycle D :=
  if s.startupCalled then (.raises env.alreadyStarted, s)
  else
    match startupLoop env s.dependencies [] { s with startupCalled := true } with
    | (.returns, s) => (.returns, s)
    | (failure, s) =>
      match shutdown env s with
      | (.returns, s) => (failure, s)
      | (other, s) => (other, s)

/-- One lifecycle, as `App._run` goes through it: `startup`, and `shutdown` after it where it
has not failed. -/
def lifecycle (env : Environment D ε) (dependencies : List D) : Lifecycle D :=
  match startup env (new dependencies) with
  | (.returns, s) => (shutdown env s).2
  | (_, s) => s

/-- The dependencies that are to be started, each once. -/
def components (env : Environment D ε) (dependencies : List D) : List D :=
  (dependencies.filter env.hasLifecycle).eraseDups

/-- Those whose startup completes: the ones before the first that fails. -/
def completed (env : Environment D ε) (dependencies : List D) : List D :=
  (components env dependencies).takeWhile fun d => !(env.startup d).fails

end

def startups (calls : List (Invocation D)) : List D :=
  calls.filterMap fun
    | .startup d => some d
    | .shutdown _ => none

def shutdowns (calls : List (Invocation D)) : List D :=
  calls.filterMap fun
    | .startup _ => none
    | .shutdown d => some d

/-- Every dependency whose startup completed is shut down once, in reverse order, and no
other. -/
def ShutDownOnce (env : Environment D ε) (calls : List (Invocation D)) : Prop :=
  shutdowns calls = ((startups calls).filter fun d => !(env.startup d).fails).reverse ∧
    (shutdowns calls).Nodup

/-- The loop of `shutdown` calls the dependencies up to the first that is cut off. -/
theorem shutdownLoop_calls (env : Environment D ε) (ds : List D) (failure : Option ε)
    (calls : List (Invocation D)) :
    (shutdownLoop env ds failure calls).2 =
      calls ++ (throughFirst (fun d => (env.shutdown d).isCancelled) ds).map .shutdown := by
  induction ds generalizing failure calls with
  | nil => cases failure <;> simp [shutdownLoop, throughFirst]
  | cons d ds ih =>
    unfold shutdownLoop throughFirst
    cases hended : env.shutdown d with
    | returns => simp [Ended.isCancelled, ih]
    | raises e => simp [Ended.isCancelled, ih]
    | cancelled => simp [Ended.isCancelled]

theorem shutdown_calls (env : Environment D ε) (s : Lifecycle D) :
    (shutdown env s).2.calls = s.calls ++
      (throughFirst (fun d => (env.shutdown d).isCancelled) s.started.reverse).map .shutdown :=
  shutdownLoop_calls env s.started.reverse none s.calls

section
variable [DecidableEq D]

/-- The components that are left when some have been seen. -/
theorem eraseDups_seen (p : D → Bool) (d : D) (ds seen : List D) :
    (((ds.filter fun a => p a && !decide (a ∈ seen))).filter fun a => !a == d).eraseDups =
      (ds.filter fun a => p a && !decide (a ∈ d :: seen)).eraseDups := by
  rw [List.filter_filter]
  congr 1
  apply List.filter_congr
  intro a _
  simp only [List.mem_cons, beq_eq_decide]
  by_cases had : a = d
  · simp [had]
  · simp [had]

/-- The loop of `startup` calls the components up to the first that fails. -/
theorem startupLoop_state (env : Environment D ε) (ds seen : List D) (s : Lifecycle D) :
    let left := (ds.filter fun d => env.hasLifecycle d && !decide (d ∈ seen)).eraseDups
    (startupLoop env ds seen s).2 = { s with
      calls := s.calls ++ (throughFirst (fun d => (env.startup d).fails) left).map .startup
      started := s.started ++ left.takeWhile fun d => !(env.startup d).fails } := by
  induction ds generalizing seen s with
  | nil => simp [startupLoop, throughFirst]
  | cons d ds ih =>
    unfold startupLoop
    split_ifs with hnew
    · have hfilter : (env.hasLifecycle d && !decide (d ∈ seen)) = true := by simp [hnew]
      simp only [List.filter_cons, hfilter, if_true, List.eraseDups_cons, eraseDups_seen]
      cases hended : env.startup d with
      | returns => simp [ih, throughFirst, hended, Ended.fails]
      | raises e => simp [throughFirst, hended, Ended.fails]
      | cancelled => simp [throughFirst, hended, Ended.fails]
    · have hfilter : (env.hasLifecycle d && !decide (d ∈ seen)) = false := by
        simpa using hnew
      simp only [List.filter_cons, hfilter, Bool.false_eq_true, if_false]
      exact ih seen s

/-- Whether startup fails or not, one shutdown follows the loop of `startup`. -/
theorem lifecycle_eq (env : Environment D ε) (dependencies : List D) :
    lifecycle env dependencies = (shutdown env
      (startupLoop env dependencies [] { new dependencies with startupCalled := true }).2).2 := by
  have hstartup : startup env (new dependencies) =
      match startupLoop env dependencies [] { new dependencies with startupCalled := true } with
      | (.returns, s) => (.returns, s)
      | (failure, s) =>
        match shutdown env s with
        | (.returns, s) => (failure, s)
        | (other, s) => (other, s) := rfl
  unfold lifecycle
  rw [hstartup]
  obtain ⟨ended, s⟩ := startupLoop env dependencies []
    { new dependencies with startupCalled := true }
  rcases hshutdown : shutdown env s with ⟨rollback, t⟩
  cases ended with
  | returns => simp only [hshutdown]
  | raises e => cases rollback <;> simp only [hshutdown]
  | cancelled => cases rollback <;> simp only [hshutdown]

/-- The calls of a lifecycle. -/
theorem lifecycle_calls (env : Environment D ε) (dependencies : List D) :
    (lifecycle env dependencies).calls =
      (throughFirst (fun d => (env.startup d).fails) (components env dependencies)).map .startup ++
      (throughFirst (fun d => (env.shutdown d).isCancelled)
        (completed env dependencies).reverse).map .shutdown := by
  have hstate := startupLoop_state env dependencies []
    { new dependencies with startupCalled := true }
  rw [lifecycle_eq, shutdown_calls, hstate]
  simp [new, components, completed]

theorem nodup_completed (env : Environment D ε) (dependencies : List D) :
    (completed env dependencies).Nodup :=
  (nodup_eraseDups _).sublist (List.takeWhile_sublist _)

theorem startups_lifecycle (env : Environment D ε) (dependencies : List D) :
    startups (lifecycle env dependencies).calls =
      throughFirst (fun d => (env.startup d).fails) (components env dependencies) := by
  rw [lifecycle_calls]
  simp [startups, List.filterMap_append, List.filterMap_map]

theorem shutdowns_lifecycle (env : Environment D ε) (dependencies : List D) :
    shutdowns (lifecycle env dependencies).calls =
      throughFirst (fun d => (env.shutdown d).isCancelled)
        (completed env dependencies).reverse := by
  rw [lifecycle_calls]
  simp [shutdowns, List.filterMap_append, List.filterMap_map]

/-- Nothing is left to shut down, so a second `shutdown` does not make up for a first that was
cut off. -/
theorem shutdown_again (env : Environment D ε) (dependencies : List D) :
    (shutdown env (lifecycle env dependencies)).2 = lifecycle env dependencies := by
  have hstarted : (lifecycle env dependencies).started = [] := by
    rw [lifecycle_eq]
    rfl
  unfold shutdown
  rw [hstarted]
  exact congrArg (fun started => { lifecycle env dependencies with started := started })
    hstarted.symm

/-- Every started dependency is shut down once exactly when no shutdown, except that of the
dependency that was started first, is cut off. -/
theorem shut_down_once_iff (env : Environment D ε) (dependencies : List D) :
    ShutDownOnce env (lifecycle env dependencies).calls ↔
      ∀ d ∈ (completed env dependencies).tail, (env.shutdown d).isCancelled = false := by
  have hcompleted : (startups (lifecycle env dependencies).calls).filter
      (fun d => !(env.startup d).fails) = completed env dependencies := by
    rw [startups_lifecycle]
    exact filter_throughFirst _ _
  have hnodup := nodup_completed env dependencies
  unfold ShutDownOnce
  rw [hcompleted, shutdowns_lifecycle, throughFirst_eq_self, List.dropLast_reverse]
  constructor
  · intro h d hd
    exact h.1 d (List.mem_reverse.mpr hd)
  · intro h
    constructor
    · intro d hd
      exact h d (List.mem_reverse.mp hd)
    · exact (List.nodup_reverse.mpr hnodup).sublist (throughFirst_starts _ _).sublist

end

/-- A validator and a session store. The store, which is shut down first, is cut off by the
timeout around the shutdown. -/
def cutOff : Environment String String where
  hasLifecycle _ := true
  startup _ := .returns
  shutdown d := if d = "store" then .cancelled else .returns
  alreadyStarted := "Authentication already started"

theorem validator_left_open :
    (lifecycle cutOff ["validator", "store"]).calls =
        [.startup "validator", .startup "store", .shutdown "store"] ∧
      ¬ ShutDownOnce cutOff (lifecycle cutOff ["validator", "store"]).calls := by
  have hcalls : (lifecycle cutOff ["validator", "store"]).calls =
      [.startup "validator", .startup "store", .shutdown "store"] := by decide
  refine ⟨hcalls, fun h => ?_⟩
  rw [hcalls] at h
  exact absurd h.1 (by decide)

end WireRpc.DependencyLifecycle
