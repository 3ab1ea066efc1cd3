import WireRpc.App

/-!
# The lifecycle of an app

`_run`, which `App` and `MulticastApp` share word for word: start the transport, call the
startup hook, listen, call the shutdown hook, shut the transport down. Any number of calls of
`run` and `serve` may overlap, and each await may end with an exception, a timeout or a
cancellation. `_listen` is a machine of its own.
-/
namespace WireRpc.AppLifecycle
open Library

/-- `_listen` of an app. It has `ended` when it has returned or raised; tasks that it has
started may still take steps then. -/
structure Listener where
  State : Type
  Event : Type
  start : State
  step : State → Event → Option State
  ended : State → Bool
  ended_stays : ∀ l e l', ended l = true → step l e = some l' → ended l' = true

/-- The transport may be a `StartupComponent`, and the hooks may have been registered. -/
structure Hooks where
  component : Bool
  onStartup : Bool
  onShutdown : Bool

inductive Call (Ctx : Type) where
  | startup
  | onStartup
  | listen
  | onShutdown (ctx : Option Ctx)
  | shutdown
  deriving DecidableEq

/-- Where a call of `_run` stands: not made, refused, at one of its awaits, or over. -/
inductive Phase where
  | absent
  | refused
  | starting
  | hooking
  | listening
  | hookingDown
  | shuttingDown
  | ended
  deriving DecidableEq

/-- The call is past its first check. -/
def Phase.admitted : Phase → Bool
  | absent => false
  | refused => false
  | _ => true

def Phase.active (phase : Phase) : Bool := phase.admitted && decide (phase ≠ .ended)

/-- `dependenciesStarted` and `applicationStarted` are the locals of the one call that is not
refused. `calls` is the history. -/
structure State (Ctx : Type) (L : Listener) where
  stopping : Bool := false
  running : Bool := false
  ctx : Option Ctx := none
  phases : ℕ → Phase := fun _ => .absent
  dependenciesStarted : Bool := false
  applicationStarted : Bool := false
  listener : L.State := L.start
  calls : List (Call Ctx) := []

/-- `startupEnded` and `hookEnded` say whether the await returned, and with what. After
`_listen` and in the `finally` blocks it makes no difference. -/
inductive Event (Ctx : Type) (L : Listener) where
  | run (k : ℕ)
  | startupEnded (k : ℕ) (returned : Bool)
  | hookEnded (k : ℕ) (result : Option (Option Ctx))
  | listens (e : L.Event)
  | listenEnded (k : ℕ)
  | onShutdownEnded (k : ℕ)
  | shutdownEnded (k : ℕ)
  | stop

section
variable {Ctx : Type} {L : Listener} (hooks : Hooks) (s : State Ctx L) (k : ℕ)

def setPhase (phase : Phase) : State Ctx L :=
  { s with phases := Function.update s.phases k phase }

def call (call : Call Ctx) (phase : Phase) : State Ctx L :=
  { setPhase s k phase with calls := s.calls ++ [call] }

/-- The innermost `finally` block. -/
def finish : State Ctx L := { setPhase s k .ended with running := false }

/-- The `finally` block after the shutdown hook. -/
def shutDown : State Ctx L :=
  if s.dependenciesStarted && hooks.component then call s k .shutdown .shuttingDown else finish s k

/-- The outermost `finally` block. -/
def leave : State Ctx L :=
  let s := { s with stopping := true }
  if s.applicationStarted && hooks.onShutdown then call s k (.onShutdown s.ctx) .hookingDown
  else shutDown hooks s k

def listen : State Ctx L := call { s with applicationStarted := true } k .listen .listening

/-- After `_internal_startup`. -/
def hook : State Ctx L :=
  let s := { s with dependenciesStarted := true }
  if hooks.onStartup then call s k .onStartup .hooking else listen s k

/-- `_internal_startup`. -/
def begin : State Ctx L :=
  if hooks.component then call s k .startup .starting else hook hooks s k

def run : State Ctx L :=
  if s.running || s.stopping then setPhase s k .refused
  else begin hooks { s with running := true } k

end

section
variable {Ctx : Type} {L : Listener}

def step (hooks : Hooks) (s : State Ctx L) : Event Ctx L → Option (State Ctx L)
  | .run k => if s.phases k = .absent then some (run hooks s k) else none
  | .startupEnded k returned =>
    if s.phases k = .starting then some (if returned then hook hooks s k else leave hooks s k)
    else none
  | .hookEnded k result =>
    if s.phases k = .hooking then
      match result with
      | some ctx => some (listen { s with ctx := ctx } k)
      | none => some (leave hooks s k)
    else none
  | .listens e =>
    if s.applicationStarted then
      (L.step s.listener e).map fun listener => { s with listener := listener }
    else none
  | .listenEnded k =>
    if s.phases k = .listening ∧ L.ended s.listener = true then some (leave hooks s k) else none
  | .onShutdownEnded k =>
    if s.phases k = .hookingDown then some (shutDown hooks s k) else none
  | .shutdownEnded k => if s.phases k = .shuttingDown then some (finish s k) else none
  | .stop => some { s with stopping := true }

/-- The shutdown hook has been reached. -/
def Phase.pastListen : Phase → Bool
  | hookingDown => true
  | shuttingDown => true
  | ended => true
  | _ => false

def Phase.pastHook : Phase → Bool
  | shuttingDown => true
  | ended => true
  | _ => false

/-- The calls up to a phase, for what has been started. -/
def callsOf (hooks : Hooks) (dependencies application : Bool) (ctx : Option Ctx) (phase : Phase) :
    List (Call Ctx) :=
  (if hooks.component then [Call.startup] else []) ++
    (if dependencies && hooks.onStartup then [Call.onStartup] else []) ++
    (if application then [Call.listen] else []) ++
    (if phase.pastListen && (application && hooks.onShutdown) then [Call.onShutdown ctx] else []) ++
    if phase.pastHook && (dependencies && hooks.component) then [Call.shutdown] else []

section
variable {hooks : Hooks} {dependencies application : Bool} {ctx : Option Ctx} {phase : Phase}

theorem pastHook_eq_false (h : phase.pastListen = false) : phase.pastHook = false := by
  cases phase <;> first | rfl | cases h

theorem callsOf_onShutdown (hphase : phase.pastListen = false)
    (h : (application && hooks.onShutdown) = true) :
    callsOf hooks dependencies application ctx phase ++ [.onShutdown ctx] =
      callsOf hooks dependencies application ctx .hookingDown := by
  have hnext : Phase.hookingDown.pastListen = true ∧ Phase.hookingDown.pastHook = false :=
    ⟨rfl, rfl⟩
  simp only [callsOf, hphase, pastHook_eq_false hphase, hnext, h, Bool.false_and, Bool.true_and,
    Bool.false_eq_true, if_true, if_false, List.append_nil]

theorem callsOf_no_onShutdown (hphase : phase.pastListen = false)
    (h : (application && hooks.onShutdown) = false) :
    callsOf hooks dependencies application ctx phase =
      callsOf hooks dependencies application ctx .hookingDown := by
  have hnext : Phase.hookingDown.pastListen = true ∧ Phase.hookingDown.pastHook = false :=
    ⟨rfl, rfl⟩
  simp only [callsOf, hphase, pastHook_eq_false hphase, hnext, h, Bool.false_and, Bool.true_and]

theorem callsOf_shutdown (h : (dependencies && hooks.component) = true) :
    callsOf hooks dependencies application ctx .hookingDown ++ [.shutdown] =
      callsOf hooks dependencies application ctx .shuttingDown := by
  have hnow : Phase.hookingDown.pastListen = true ∧ Phase.hookingDown.pastHook = false :=
    ⟨rfl, rfl⟩
  have hnext : Phase.shuttingDown.pastListen = true ∧ Phase.shuttingDown.pastHook = true :=
    ⟨rfl, rfl⟩
  simp only [callsOf, hnow, hnext, h, Bool.false_and, Bool.true_and, Bool.false_eq_true, if_true,
    if_false, List.append_nil]

theorem callsOf_no_shutdown (h : (dependencies && hooks.component) = false) :
    callsOf hooks dependencies application ctx .hookingDown =
      callsOf hooks dependencies application ctx .ended := by
  have hnow : Phase.hookingDown.pastListen = true ∧ Phase.hookingDown.pastHook = false := ⟨rfl, rfl⟩
  have hnext : Phase.ended.pastListen = true ∧ Phase.ended.pastHook = true := ⟨rfl, rfl⟩
  simp only [callsOf, hnow, hnext, h, Bool.false_and, Bool.true_and]

end

/-- What is started in a phase. -/
def Phase.Agrees (dependencies application : Bool) : Phase → Prop
  | starting => dependencies = false ∧ application = false
  | hooking => dependencies = true ∧ application = false
  | listening => dependencies = true ∧ application = true
  | hookingDown => dependencies = true ∧ application = true
  | shuttingDown => dependencies = true
  | _ => application = true → dependencies = true

/-- What every reachable state keeps. One call is admitted at most, and its phase says what has
been called. -/
structure Inv (hooks : Hooks) (s : State Ctx L) : Prop where
  unique : ∀ j k, (s.phases j).admitted = true → (s.phases k).admitted = true → j = k
  running_iff : s.running = true ↔ ∃ k, (s.phases k).active = true
  spent : ∀ k, (s.phases k).admitted = true → s.running = true ∨ s.stopping = true
  stopping : ∀ k, (s.phases k).pastListen = true → s.stopping = true
  agrees : ∀ k, (s.phases k).admitted = true →
    (s.phases k).Agrees s.dependenciesStarted s.applicationStarted
  called : ∀ k, (s.phases k).admitted = true →
    s.calls = callsOf hooks s.dependenciesStarted s.applicationStarted s.ctx (s.phases k)
  untouched : (∀ k, (s.phases k).admitted = false) → s.calls = [] ∧
    s.dependenciesStarted = false ∧ s.applicationStarted = false
  ended : ∀ k, (s.phases k).pastListen = true → s.applicationStarted = true →
    L.ended s.listener = true

section
variable {hooks : Hooks} {s s' : State Ctx L} {k : ℕ}

theorem inv_start : Inv hooks ({} : State Ctx L) where
  unique _ _ h := absurd h nofun
  running_iff := by simp [Phase.active, Phase.admitted]
  spent _ h := absurd h nofun
  stopping _ h := absurd h nofun
  agrees _ h := absurd h nofun
  called _ h := absurd h nofun
  untouched _ := ⟨rfl, rfl, rfl⟩
  ended _ h := absurd h nofun

/-- The admitted call comes to a phase. -/
theorem Inv.move {phase : Phase} (honly : ∀ j, (s.phases j).admitted = true → j = k)
    (hphases : s'.phases = Function.update s.phases k phase) (hadmitted : phase.admitted = true)
    (hrunning : s'.running = decide (phase ≠ .ended))
    (hspent : s'.running = true ∨ s'.stopping = true)
    (hstopping : phase.pastListen = true → s'.stopping = true)
    (hagrees : phase.Agrees s'.dependenciesStarted s'.applicationStarted)
    (hcalled : s'.calls =
      callsOf hooks s'.dependenciesStarted s'.applicationStarted s'.ctx phase)
    (hended : phase.pastListen = true → s'.applicationStarted = true →
      L.ended s'.listener = true) : Inv hooks s' := by
  have hself : s'.phases k = phase := by rw [hphases, Function.update_self]
  have heq : ∀ j, (s'.phases j).admitted = true → j = k := by
    intro j hj
    by_contra hjk
    rw [hphases, Function.update_of_ne hjk] at hj
    exact hjk (honly j hj)
  have hpast : ∀ j, (s'.phases j).pastListen = true → j = k := by
    intro j hj
    apply heq
    cases hphase : s'.phases j <;> simp [hphase, Phase.pastListen] at hj <;> rfl
  exact {
    unique := fun i j hi hj => (heq i hi).trans (heq j hj).symm
    running_iff := by
      rw [hrunning, decide_eq_true_iff]
      constructor
      · exact fun hne => ⟨k, by simp [hself, Phase.active, hadmitted, hne]⟩
      · rintro ⟨j, hj⟩
        simp only [Phase.active, Bool.and_eq_true, decide_eq_true_iff] at hj
        obtain rfl := heq j hj.1
        exact hself ▸ hj.2
    spent := fun _ _ => hspent
    stopping := by
      intro j hj
      obtain rfl := hpast j hj
      exact hstopping (hself ▸ hj)
    agrees := by
      intro j hj
      obtain rfl := heq j hj
      rwa [hself]
    called := by
      intro j hj
      obtain rfl := heq j hj
      rwa [hself]
    untouched := by
      intro hnone
      have hk := hnone k
      rw [hself, hadmitted] at hk
      cases hk
    ended := by
      intro j hj
      obtain rfl := hpast j hj
      exact hended (hself ▸ hj) }

/-- The other calls are not admitted. -/
theorem Inv.only {phase : Phase} (h : Inv hooks s) (hk : s.phases k = phase)
    (hphase : phase.admitted = true) : ∀ j, (s.phases j).admitted = true → j = k :=
  fun j hj => h.unique j k hj (by rw [hk]; exact hphase)

theorem inv_shutDown (honly : ∀ j, (s.phases j).admitted = true → j = k)
    (hrunning : s.running = true) (hstopping : s.stopping = true)
    (himplies : s.applicationStarted = true → s.dependenciesStarted = true)
    (hcalled : s.calls =
      callsOf hooks s.dependenciesStarted s.applicationStarted s.ctx .hookingDown)
    (hended : s.applicationStarted = true → L.ended s.listener = true) :
    Inv hooks (shutDown hooks s k) := by
  unfold shutDown
  split_ifs with hshutdown
  · refine Inv.move honly rfl rfl hrunning (Or.inl hrunning) (fun _ => hstopping) ?_ ?_
      fun _ => hended
    · exact (Bool.and_eq_true_iff.mp hshutdown).1
    · show s.calls ++ [.shutdown] = _
      rw [hcalled]
      exact callsOf_shutdown hshutdown
  · refine Inv.move honly rfl rfl rfl (Or.inr hstopping) (fun _ => hstopping) himplies ?_
      fun _ => hended
    show s.calls = _
    rw [hcalled]
    exact callsOf_no_shutdown (Bool.not_eq_true _ ▸ hshutdown)

theorem inv_leave {phase : Phase} (honly : ∀ j, (s.phases j).admitted = true → j = k)
    (hrunning : s.running = true)
    (himplies : s.applicationStarted = true → s.dependenciesStarted = true)
    (hphase : phase.pastListen = false)
    (hcalled : s.calls = callsOf hooks s.dependenciesStarted s.applicationStarted s.ctx phase)
    (hended : s.applicationStarted = true → L.ended s.listener = true) :
    Inv hooks (leave hooks s k) := by
  unfold leave
  simp only
  split_ifs with hhook
  · have happlication := (Bool.and_eq_true_iff.mp hhook).1
    refine Inv.move honly rfl rfl hrunning (Or.inl hrunning) (fun _ => rfl) ?_ ?_
      fun _ => hended
    · exact ⟨himplies happlication, happlication⟩
    · show s.calls ++ [.onShutdown s.ctx] = _
      rw [hcalled]
      exact callsOf_onShutdown hphase hhook
  · refine inv_shutDown honly hrunning rfl himplies ?_ hended
    show s.calls = _
    rw [hcalled]
    exact callsOf_no_onShutdown hphase (Bool.not_eq_true _ ▸ hhook)

theorem inv_listen (honly : ∀ j, (s.phases j).admitted = true → j = k)
    (hrunning : s.running = true) (hdependencies : s.dependenciesStarted = true)
    (hcalled : s.calls = callsOf hooks true false s.ctx .hooking) : Inv hooks (listen s k) := by
  refine Inv.move honly rfl rfl hrunning (Or.inl hrunning) nofun ⟨hdependencies, rfl⟩ ?_ nofun
  show s.calls ++ [.listen] = callsOf hooks s.dependenciesStarted true s.ctx .listening
  rw [hcalled, hdependencies]
  simp [callsOf, Phase.pastListen, Phase.pastHook]

theorem inv_hook (honly : ∀ j, (s.phases j).admitted = true → j = k)
    (hrunning : s.running = true) (happlication : s.applicationStarted = false)
    (hcalled : s.calls = if hooks.component then [.startup] else []) :
    Inv hooks (hook hooks s k) := by
  unfold hook
  simp only
  split_ifs with hhook
  · refine Inv.move honly rfl rfl hrunning (Or.inl hrunning) nofun ⟨rfl, happlication⟩ ?_ nofun
    show s.calls ++ [.onStartup] = callsOf hooks true s.applicationStarted s.ctx .hooking
    rw [hcalled, happlication]
    simp [callsOf, Phase.pastListen, Phase.pastHook, hhook]
  · refine inv_listen honly hrunning rfl ?_
    show s.calls = _
    rw [hcalled]
    simp [callsOf, Phase.pastListen, Phase.pastHook, hhook]

/-- A call that was made too late changes nothing. -/
theorem Inv.refuse (h : Inv hooks s) (hk : s.phases k = .absent) :
    Inv hooks (setPhase s k .refused) := by
  have hadmitted : ∀ j, ((setPhase s k .refused).phases j).admitted = (s.phases j).admitted := by
    intro j
    by_cases hj : j = k
    · subst hj
      have hrefused : (setPhase s j .refused).phases j = .refused := Function.update_self ..
      rw [hk, hrefused]
      rfl
    · exact congrArg Phase.admitted (Function.update_of_ne hj ..)
  have hsame : ∀ j, ((setPhase s k .refused).phases j).admitted = true →
      (setPhase s k .refused).phases j = s.phases j := by
    intro j hj
    refine Function.update_of_ne ?_ ..
    rintro rfl
    rw [hadmitted, hk] at hj
    cases hj
  have hpast : ∀ j, ((setPhase s k .refused).phases j).pastListen = true →
      (setPhase s k .refused).phases j = s.phases j := by
    intro j hj
    apply hsame
    cases hphase : (setPhase s k .refused).phases j <;>
      simp [hphase, Phase.pastListen] at hj <;> rfl
  exact {
    unique := fun i j hi hj => h.unique i j (hadmitted i ▸ hi) (hadmitted j ▸ hj)
    running_iff := by
      refine h.running_iff.trans (exists_congr fun j => ?_)
      by_cases hj : j = k
      · subst hj
        have hrefused : (setPhase s j .refused).phases j = .refused := Function.update_self ..
        rw [hk, hrefused]
        exact iff_of_false nofun nofun
      · have hother : (setPhase s k .refused).phases j = s.phases j :=
          Function.update_of_ne hj ..
        rw [hother]
    spent := fun j hj => h.spent j (hadmitted j ▸ hj)
    stopping := fun j hj => h.stopping j (hpast j hj ▸ hj)
    agrees := fun j hj => hsame j hj ▸ h.agrees j (hadmitted j ▸ hj)
    called := fun j hj => hsame j hj ▸ h.called j (hadmitted j ▸ hj)
    untouched := fun hnone => h.untouched fun j => hadmitted j ▸ hnone j
    ended := fun j hj => h.ended j (hpast j hj ▸ hj) }

theorem Inv.run (h : Inv hooks s) (hk : s.phases k = .absent) : Inv hooks (run hooks s k) := by
  unfold AppLifecycle.run
  split_ifs with hrefused
  · exact h.refuse hk
  · obtain ⟨hidle, hopen⟩ : s.running = false ∧ s.stopping = false := by simpa using hrefused
    have hnone : ∀ j, (s.phases j).admitted = false := by
      intro j
      by_contra hj
      obtain hrunning | hstopping := h.spent j (by simpa using hj)
      · simp [hidle] at hrunning
      · simp [hopen] at hstopping
    have honly : ∀ j, (s.phases j).admitted = true → j = k := by
      intro j hj
      rw [hnone j] at hj
      cases hj
    obtain ⟨hcalls, hdependencies, happlication⟩ := h.untouched hnone
    unfold begin
    split_ifs with hcomponent
    · refine Inv.move honly rfl rfl rfl (Or.inl rfl) nofun ⟨hdependencies, happlication⟩ ?_ nofun
      show s.calls ++ [.startup] =
        callsOf hooks s.dependenciesStarted s.applicationStarted s.ctx .starting
      rw [hcalls, hdependencies, happlication]
      simp [callsOf, hcomponent, Phase.pastListen, Phase.pastHook]
    · refine inv_hook honly rfl happlication ?_
      rw [if_neg hcomponent]
      exact hcalls

theorem Inv.step {e : Event Ctx L} (h : Inv hooks s) (hs : step hooks s e = some s') :
    Inv hooks s' := by
  have hactive : ∀ {k phase}, s.phases k = phase → phase.active = true → s.running = true := by
    intro k phase hk hphase
    exact h.running_iff.mpr ⟨k, hk ▸ hphase⟩
  cases e with
  | run k =>
    obtain ⟨hk, hs⟩ := Option.ite_none_right_eq_some.mp hs
    exact Option.some.inj hs ▸ h.run hk
  | startupEnded k returned =>
    obtain ⟨hk, hs⟩ := Option.ite_none_right_eq_some.mp hs
    obtain rfl := Option.some.inj hs
    have hagrees := h.agrees k (by rw [hk]; rfl)
    have hcalled := h.called k (by rw [hk]; rfl)
    rw [hk] at hagrees hcalled
    obtain ⟨hdependencies, happlication⟩ := hagrees
    have hrunning := hactive hk rfl
    cases returned with
    | true =>
      refine inv_hook (h.only hk rfl) hrunning happlication ?_
      rw [hcalled, hdependencies, happlication]
      simp [callsOf, Phase.pastListen, Phase.pastHook]
    | false =>
      refine inv_leave (h.only hk rfl) hrunning ?_ rfl hcalled ?_
      · simp [happlication]
      · simp [happlication]
  | hookEnded k result =>
    obtain ⟨hk, hs⟩ := Option.ite_none_right_eq_some.mp hs
    have hagrees := h.agrees k (by rw [hk]; rfl)
    have hcalled := h.called k (by rw [hk]; rfl)
    rw [hk] at hagrees hcalled
    obtain ⟨hdependencies, happlication⟩ := hagrees
    have hrunning := hactive hk rfl
    cases result with
    | some ctx =>
      obtain rfl := Option.some.inj hs
      refine inv_listen (h.only hk rfl) hrunning hdependencies ?_
      show s.calls = callsOf hooks true false ctx .hooking
      rw [hcalled, hdependencies, happlication]
      rfl
    | none =>
      obtain rfl := Option.some.inj hs
      refine inv_leave (h.only hk rfl) hrunning ?_ rfl hcalled ?_
      · simp [happlication]
      · simp [happlication]
  | listens e =>
    obtain ⟨-, hs⟩ := Option.ite_none_right_eq_some.mp hs
    obtain ⟨listener, hlistener, rfl⟩ := Option.map_eq_some_iff.mp hs
    exact {
      h with
      ended := fun k hk happlication =>
        L.ended_stays _ _ _ (h.ended k hk happlication) hlistener }
  | listenEnded k =>
    obtain ⟨⟨hk, hended⟩, hs⟩ := Option.ite_none_right_eq_some.mp hs
    obtain rfl := Option.some.inj hs
    have hagrees := h.agrees k (by rw [hk]; rfl)
    have hcalled := h.called k (by rw [hk]; rfl)
    rw [hk] at hagrees hcalled
    exact inv_leave (h.only hk rfl) (hactive hk rfl) (fun _ => hagrees.1) rfl hcalled
      fun _ => hended
  | onShutdownEnded k =>
    obtain ⟨hk, hs⟩ := Option.ite_none_right_eq_some.mp hs
    obtain rfl := Option.some.inj hs
    have hagrees := h.agrees k (by rw [hk]; rfl)
    have hcalled := h.called k (by rw [hk]; rfl)
    rw [hk] at hagrees hcalled
    exact inv_shutDown (h.only hk rfl) (hactive hk rfl) (h.stopping k (by rw [hk]; rfl))
      (fun _ => hagrees.1) hcalled (h.ended k (by rw [hk]; rfl))
  | shutdownEnded k =>
    obtain ⟨hk, hs⟩ := Option.ite_none_right_eq_some.mp hs
    obtain rfl := Option.some.inj hs
    have hagrees := h.agrees k (by rw [hk]; rfl)
    have hcalled := h.called k (by rw [hk]; rfl)
    have hstopping := h.stopping k (by rw [hk]; rfl)
    have hended := h.ended k (by rw [hk]; rfl)
    rw [hk] at hagrees hcalled
    exact Inv.move (h.only hk rfl) rfl rfl rfl (Or.inr hstopping) (fun _ => hstopping)
      (fun _ => hagrees) hcalled fun _ => hended
  | stop =>
    obtain rfl := Option.some.inj hs
    exact { h with spent := fun _ _ => Or.inr rfl, stopping := fun _ _ => rfl }

theorem inv_run {es : List (Event Ctx L)}
    (hrun : Machine.run (AppLifecycle.step hooks) ({} : State Ctx L) es = some s) : Inv hooks s :=
  Machine.invariant (fun _ _ _ hs hstep => hs.step hstep) inv_start hrun

/-- The listener stays as it is, and once it is started it stays so. -/
structure Beside (s s' : State Ctx L) : Prop where
  listener : s'.listener = s.listener
  application : s'.applicationStarted = false → s.applicationStarted = false

theorem beside_shutDown (s : State Ctx L) (k : ℕ) : Beside s (shutDown hooks s k) := by
  unfold shutDown
  split_ifs <;> exact ⟨rfl, id⟩

theorem beside_leave (s : State Ctx L) (k : ℕ) : Beside s (leave hooks s k) := by
  have hnext : Beside _ (shutDown hooks { s with stopping := true } k) := beside_shutDown _ k
  unfold leave
  simp only
  split_ifs
  · exact ⟨rfl, id⟩
  · exact ⟨hnext.listener, hnext.application⟩

theorem beside_hook (s : State Ctx L) (k : ℕ) : Beside s (hook hooks s k) := by
  unfold hook
  simp only
  split_ifs
  · exact ⟨rfl, id⟩
  · exact ⟨rfl, nofun⟩

theorem beside_run (s : State Ctx L) (k : ℕ) : Beside s (run hooks s k) := by
  have hnext : Beside _ (hook hooks { s with running := true } k) := beside_hook _ k
  unfold AppLifecycle.run begin
  split_ifs
  · exact ⟨rfl, id⟩
  · exact ⟨rfl, id⟩
  · exact ⟨hnext.listener, hnext.application⟩

theorem step_beside {e : Event Ctx L} (he : ∀ e', e ≠ .listens e')
    (hs : AppLifecycle.step hooks s e = some s') : Beside s s' := by
  cases e with
  | run k =>
    obtain ⟨-, hs⟩ := Option.ite_none_right_eq_some.mp hs
    exact Option.some.inj hs ▸ beside_run s k
  | startupEnded k returned =>
    obtain ⟨-, hs⟩ := Option.ite_none_right_eq_some.mp hs
    obtain rfl := Option.some.inj hs
    split_ifs
    · exact beside_hook s k
    · exact beside_leave s k
  | hookEnded k result =>
    obtain ⟨-, hs⟩ := Option.ite_none_right_eq_some.mp hs
    cases result with
    | some ctx => exact Option.some.inj hs ▸ ⟨rfl, nofun⟩
    | none => exact Option.some.inj hs ▸ beside_leave s k
  | listens e => exact absurd rfl (he e)
  | listenEnded k =>
    obtain ⟨-, hs⟩ := Option.ite_none_right_eq_some.mp hs
    exact Option.some.inj hs ▸ beside_leave s k
  | onShutdownEnded k =>
    obtain ⟨-, hs⟩ := Option.ite_none_right_eq_some.mp hs
    exact Option.some.inj hs ▸ beside_shutDown s k
  | shutdownEnded k =>
    obtain ⟨-, hs⟩ := Option.ite_none_right_eq_some.mp hs
    exact Option.some.inj hs ▸ ⟨rfl, id⟩
  | stop => exact Option.some.inj hs ▸ ⟨rfl, id⟩

/-- A step of the listener is one of the lifecycle, once the listener is started. -/
theorem step_listens {e : L.Event} (hs : AppLifecycle.step hooks s (.listens e) = some s') :
    s.applicationStarted = true ∧
      ∃ l, L.step s.listener e = some l ∧ s' = { s with listener := l } := by
  obtain ⟨hstarted, hs⟩ := Option.ite_none_right_eq_some.mp hs
  obtain ⟨l, hl, rfl⟩ := Option.map_eq_some_iff.mp hs
  exact ⟨hstarted, l, hl, rfl⟩

/-- Before it is started, the listener takes no step. -/
theorem unlistened_step {e : Event Ctx L}
    (h : s.applicationStarted = false → s.listener = L.start)
    (hs : AppLifecycle.step hooks s e = some s') (hnot : s'.applicationStarted = false) :
    s'.listener = L.start := by
  by_cases he : ∃ e', e = .listens e'
  · obtain ⟨e', rfl⟩ := he
    obtain ⟨hstarted, l, -, rfl⟩ := step_listens hs
    exact absurd hstarted (by simpa using hnot)
  · have hbeside := step_beside (fun e' h => he ⟨e', h⟩) hs
    rw [hbeside.listener]
    exact h (hbeside.application hnot)

/-- The listener has ended, or the one call that is admitted listens. -/
theorem Inv.listens (h : Inv hooks s) (hstarted : s.applicationStarted = true) :
    L.ended s.listener = true ∨ ∃ k, s.phases k = .listening := by
  obtain ⟨k, hk⟩ : ∃ k, (s.phases k).admitted = true := by
    by_contra hnone
    have hidle := (h.untouched fun k => by
      by_contra hk
      exact hnone ⟨k, by simpa using hk⟩).2.2
    rw [hidle] at hstarted
    cases hstarted
  have hagrees := h.agrees k hk
  rw [hstarted] at hagrees
  cases hphase : s.phases k with
  | absent | refused =>
    rw [hphase] at hk
    cases hk
  | starting | hooking =>
    rw [hphase] at hagrees
    exact absurd hagrees.2 nofun
  | listening => exact Or.inr ⟨k, hphase⟩
  | hookingDown | shuttingDown | ended =>
    exact Or.inl (h.ended k (by rw [hphase]; rfl) hstarted)

def order (ctx : Option Ctx) : List (Call Ctx) :=
  [.startup, .onStartup, .listen, .onShutdown ctx, .shutdown]

theorem ite_sublist {α : Type} (p : Prop) [Decidable p] (a : α) :
    (if p then [a] else []).Sublist [a] := by
  split_ifs
  · exact List.Sublist.refl [a]
  · exact List.nil_sublist [a]

theorem callsOf_sublist (hooks : Hooks) (dependencies application : Bool) (ctx : Option Ctx)
    (phase : Phase) : (callsOf hooks dependencies application ctx phase).Sublist (order ctx) :=
  ((((ite_sublist _ _).append (ite_sublist _ _)).append (ite_sublist _ _)).append
    (ite_sublist _ _)).append (ite_sublist _ _)

theorem mem_callsOf_onShutdown {dependencies application : Bool} {ctx ctx' : Option Ctx}
    {phase : Phase} : .onShutdown ctx' ∈ callsOf hooks dependencies application ctx phase ↔
      ctx' = ctx ∧ phase.pastListen = true ∧ application = true ∧ hooks.onShutdown = true := by
  simp [callsOf, and_comm, and_assoc]

theorem mem_callsOf_shutdown {dependencies application : Bool} {ctx : Option Ctx}
    {phase : Phase} : .shutdown ∈ callsOf hooks dependencies application ctx phase ↔
      phase.pastHook = true ∧ dependencies = true ∧ hooks.component = true := by
  simp [callsOf]

/-- Some call is admitted as soon as anything has been called. -/
theorem Inv.exists_admitted (h : Inv hooks s) (hcalls : s.calls ≠ []) :
    ∃ k, (s.phases k).admitted = true := by
  by_contra hnone
  refine hcalls (h.untouched fun k => ?_).1
  by_contra hk
  exact hnone ⟨k, by simpa using hk⟩

theorem Inv.refuses (h : Inv hooks s) {j : ℕ} (hk : (s.phases k).admitted = true)
    (hj : s.phases j = .absent) (hs : AppLifecycle.step hooks s (.run j) = some s') :
    s'.phases j = .refused ∧ s'.calls = s.calls := by
  have hspent : (s.running || s.stopping) = true := by simpa using h.spent k hk
  rw [AppLifecycle.step, if_pos hj] at hs
  obtain rfl := Option.some.inj hs
  rw [AppLifecycle.run, if_pos hspent]
  exact ⟨Function.update_self .., rfl⟩

end

/-- Whatever calls of `run` and `serve` overlap and whichever awaits fail, one call is admitted
at most and every other one is refused without a trace. Startup, the startup hook, listening,
the shutdown hook and shutdown are each called once at most, in this order. The shutdown hook
is called when the app got to listen, with the value of the startup hook and after `_listen`
has ended; the transport is shut down exactly when its startup returned, whatever failed since.
When the call is over, the app is no longer running and has stopped. -/
theorem lifecycle_ordered (hooks : Hooks) (es : List (Event Ctx L)) (s : State Ctx L)
    (h : Machine.run (step hooks) {} es = some s) :
    s.calls.Sublist (order s.ctx) ∧
      (s.running = true ↔ ∃ k, (s.phases k).active = true) ∧
      (∀ k, (s.phases k).admitted = true → ∀ j, j ≠ k →
        (s.phases j).admitted = false ∧ ∀ s', s.phases j = .absent →
          step hooks s (.run j) = some s' → s'.phases j = .refused ∧ s'.calls = s.calls) ∧
      (∀ ctx, .onShutdown ctx ∈ s.calls → ctx = s.ctx ∧ .listen ∈ s.calls ∧
        s.stopping = true ∧ L.ended s.listener = true) ∧
      (∀ k, s.phases k = .ended → s.running = false ∧ s.stopping = true ∧
        (.shutdown ∈ s.calls ↔ s.dependenciesStarted = true ∧ hooks.component = true) ∧
        (.onShutdown s.ctx ∈ s.calls ↔
          s.applicationStarted = true ∧ hooks.onShutdown = true)) := by
  have hinv := inv_run h
  refine ⟨?_, hinv.running_iff, ?_, ?_, ?_⟩
  · by_cases hcalls : s.calls = []
    · rw [hcalls]
      exact List.nil_sublist _
    · obtain ⟨k, hk⟩ := hinv.exists_admitted hcalls
      rw [hinv.called k hk]
      exact callsOf_sublist ..
  · intro k hk j hjk
    refine ⟨?_, fun s' hj hs => hinv.refuses hk hj hs⟩
    by_contra hj
    exact hjk (hinv.unique j k (by simpa using hj) hk)
  · intro ctx hmem
    obtain ⟨k, hk⟩ := hinv.exists_admitted (List.ne_nil_of_mem hmem)
    rw [hinv.called k hk] at hmem ⊢
    obtain ⟨hctx, hpast, happlication, -⟩ := mem_callsOf_onShutdown.mp hmem
    refine ⟨hctx, by simp [callsOf, happlication], hinv.stopping k hpast, ?_⟩
    exact hinv.ended k hpast happlication
  · intro k hk
    have hadmitted : (s.phases k).admitted = true := by rw [hk]; rfl
    refine ⟨?_, hinv.stopping k (by rw [hk]; rfl), ?_, ?_⟩
    · by_contra hrunning
      obtain ⟨j, hj⟩ := hinv.running_iff.mp (by simpa using hrunning)
      simp only [Phase.active, Bool.and_eq_true, decide_eq_true_iff] at hj
      obtain rfl := hinv.unique j k hj.1 hadmitted
      exact hj.2 hk
    · rw [hinv.called k hadmitted, mem_callsOf_shutdown, hk]
      exact and_iff_right rfl
    · rw [hinv.called k hadmitted, mem_callsOf_onShutdown, hk]
      exact (and_iff_right rfl).trans (and_iff_right rfl)

end

/-- `_listen` of `App`, with the messages it serves. -/
def unicast (W : Type) (app : Execution.ExecutionHost W) : Listener where
  State := App.State
  Event := App.Event W
  start := App.start
  step := App.step app
  ended l := decide (l.loop = .ended) || decide (l.loop = .crashed)
  ended_stays := by
    intro l e l' hended hstep
    have hloop : l.loop = .ended ∨ l.loop = .crashed := by simpa using hended
    obtain ⟨loop, stopping, closed⟩ := l
    have hkept : l'.loop = loop := by
      obtain rfl | rfl : loop = .ended ∨ loop = .crashed := hloop
      all_goals
        cases e with
        | stop => exact Option.some.inj hstep ▸ rfl
        | noticeStop =>
          obtain ⟨⟨-, hreceiving⟩, -⟩ := Option.ite_none_right_eq_some.mp hstep
          cases hreceiving
        | _ =>
          have hnone : none = some l' := hstep
          cases hnone
    rw [hkept]
    exact hended

/-- The startup hook fails when the transport has been started, and two more calls are made. -/
def failedRun : List (Event ℕ (unicast Unit (Execution.leastHost 1 Nat.one_pos))) :=
  [.run 0, .startupEnded 0 true, .run 1, .hookEnded 0 none, .shutdownEnded 0, .run 2]

theorem lifecycle_ordered_failed : ∃ s,
    Machine.run (step ⟨true, true, true⟩) {} failedRun = some s ∧
    s.calls = [.startup, .onStartup, .shutdown] ∧ s.phases 1 = .refused ∧
    s.phases 2 = .refused ∧ s.running = false := by
  refine ⟨_, rfl, rfl, rfl, rfl, ?_⟩
  exact ((lifecycle_ordered ⟨true, true, true⟩ failedRun _ rfl).2.2.2.2 0 rfl).1

end WireRpc.AppLifecycle
