import WireRpc.AppLifecycle
import WireRpc.PeerExclusion

/-!
# Draining the multicast app

`_listen` of `MulticastApp` from `async with` on: connect, serve, and in its `finally` block
wait for the tasks, cancel those that take too long and wait for all of them. Then the transport
is closed. It may be cancelled at each of its awaits. A cancellation of `gather` is delivered
when all tasks are over, one of `asyncio.wait` at once.
-/
namespace WireRpc.MulticastApp
open Library Execution

/-- Where `async with self._transport` stands. -/
inductive Stage where
  | connecting
  | serving
  | closing
  | ended
  deriving DecidableEq

/-- `expired` tells that the deadline of `asyncio.wait` has passed, so that `gather` waits. -/
structure Listening where
  stage : Stage
  expired : Bool
  core : State

inductive ListenEvent (W : Type) where
  | connected (returned : Bool)
  | core (e : Event W)
  | expire
  | cancel
  | closed

section
variable {W : Type}

/-- A task is cancelled after the deadline, or when `_listen` has left it alone. -/
def Listening.allows (l : Listening) : Event W → Bool
  | .drained => decide (l.stage = .serving)
  | .cancel _ => decide (l.stage ≠ .connecting) && (l.expired || decide (l.stage ≠ .serving))
  | _ => decide (l.stage ≠ .connecting)

/-- When the tasks are drained, the transport is closed. -/
def Stage.after (stage : Stage) : Event W → Stage
  | .drained => .closing
  | _ => stage

/-- A cancellation of `_listen`. -/
def Listening.cancel (l : Listening) : Option Listening :=
  match l.stage with
  | .connecting => some { l with stage := .ended, core := { l.core with loop := .ended } }
  | .serving =>
    if l.core.loop = .draining then
      if l.expired = true ∧ unfinished l.core ≠ ∅ then none else some { l with stage := .closing }
    else some { l with core := { l.core with loop := .draining } }
  | .closing => some { l with stage := .ended }
  | .ended => none

def listenStep (app : ExecutionHost W) (l : Listening) : ListenEvent W → Option Listening
  | .connected returned =>
    if l.stage = .connecting then
      some (if returned then { l with stage := .serving }
        else { l with stage := .ended, core := { l.core with loop := .ended } })
    else none
  | .core e =>
    if l.allows e then
      (step app l.core e).map fun core => { l with core := core, stage := l.stage.after e }
    else none
  | .expire =>
    if l.stage = .serving ∧ l.core.loop = .draining then some { l with expired := true } else none
  | .cancel => l.cancel
  | .closed => if l.stage = .closing then some { l with stage := .ended } else none

/-- `_listen` as the lifecycle of the app sees it. -/
def listener (app : ExecutionHost W) (maxConcurrency : ℕ) : AppLifecycle.Listener where
  State := Listening
  Event := ListenEvent W
  start := ⟨.connecting, false, start maxConcurrency⟩
  step := listenStep app
  ended l := decide (l.stage = .ended)
  ended_stays := by
    intro l e l' hended hstep
    have hstage : l.stage = .ended := by simpa using hended
    cases e with
    | core e =>
      obtain ⟨hallows, hstep⟩ := Option.ite_none_right_eq_some.mp hstep
      obtain ⟨core, -, rfl⟩ := Option.map_eq_some_iff.mp hstep
      cases e with
      | drained => simp [Listening.allows, hstage] at hallows
      | _ => exact decide_eq_true hstage
    | connected returned => simp [listenStep, hstage] at hstep
    | expire => simp [listenStep, hstage] at hstep
    | cancel => simp [listenStep, Listening.cancel, hstage] at hstep
    | closed => simp [listenStep, hstage] at hstep

/-- The loop takes no more messages. -/
def Loop.past : Loop → Bool
  | draining => true
  | ended => true
  | _ => false

section
variable {app : ExecutionHost W} {n : ℕ} {s s' : State} {e : Event W} {l l' : Listening}

theorem Loop.ne_receiving {loop : Loop} (h : loop.past = true) : loop ≠ receiving := by
  rintro rfl
  cases h

theorem settle_sameLoop (s : State) (t : ℕ) (outcome : Outcome (Option Bytes)) :
    (settle s t outcome).loop = s.loop := by
  cases outcome with
  | value response =>
    cases response with
    | none => exact (finish_sameLoop s t false).loop
    | some response => rfl
  | raised e => exact (finish_sameLoop s t true).loop
  | cancelled => exact (finish_sameLoop s t true).loop

/-- A loop that is past its messages stays so. -/
theorem past_step (h : s.loop.past = true) (hs : step app s e = some s') :
    s'.loop.past = true := by
  have hloop : ∀ {loop}, s.loop = loop → loop.past = true := fun hl => hl ▸ h
  cases step_way hs with
  | acquired noticed hacquiring => exact absurd (hloop hacquiring) nofun
  | received peer data hreceiving => exact absurd (hloop hreceiving) nofun
  | noticedAcquiring => rfl
  | noticedReceiving => rfl
  | transportClosed => rfl
  | transportFailed => rfl
  | drained => rfl
  | stopped => exact h
  | begun t =>
    unfold begin
    split_ifs
    · exact h
    · split <;> exact h
  | granted t => exact h
  | executed t =>
    rw [settle_sameLoop]
    exact h
  | rejected t =>
    rw [settle_sameLoop]
    exact h
  | sent t =>
    rw [(finish_sameLoop s t false).loop]
    exact h
  | cancelledExecuting t =>
    rw [(finish_sameLoop (unlock s t) t true).loop]
    exact h
  | cancelled t =>
    rw [(finish_sameLoop s t true).loop]
    exact h

/-- Only the loop starts tasks. -/
theorem unfinished_step (hinv : Inv n s) (hloop : s.loop ≠ .receiving)
    (hs : step app s e = some s') : unfinished s' ⊆ unfinished s := by
  cases step_moves hinv hs with
  | loop he hsame =>
    rw [unfinished_congr hsame.created fun k => by rw [hsame.phases]]
  | goes t phase holder he ht hphase =>
    have hsame : ∀ k,
        (Function.update s.phases t phase k).isFinished = (s.phases k).isFinished := by
      intro k
      by_cases hk : k = t
      · subst hk
        rw [Function.update_self, hphase, (mem_unfinished.mp ht).2]
      · rw [Function.update_of_ne hk]
    have hcongr : unfinished { setPhase s t phase with holder := holder } = unfinished s :=
      unfinished_congr rfl hsame
    exact hcongr.subset
  | ends t raised holder he ht =>
    obtain ⟨finished, hphases⟩ : ∃ r, (finish s t raised).phases =
        Function.update s.phases t (.finished r) := by
      cases hentry : s.peerLocks (s.tasks t).peer with
      | none => exact ⟨true, by rw [finish_none hentry]; rfl⟩
      | some entry => exact ⟨raised, by rw [finish_some hentry]; rfl⟩
    have herase : unfinished { finish s t raised with holder := holder } = (unfinished s).erase t :=
      unfinished_erase (finish_sameLoop s t raised).created hphases
    exact herase.subset.trans (Finset.erase_subset ..)
  | admits peer data hreceiving => exact absurd hreceiving hloop

/-- A request is in progress. -/
def Listening.Busy (l : Listening) : Prop := unfinished l.core ≠ ∅

/-- `asyncio.wait` is waiting for a request. -/
def Listening.Waits (l : Listening) : Prop :=
  l.stage = .serving ∧ l.core.loop = .draining ∧ l.expired = false ∧ l.Busy

/-- The transport is open while a request is in progress. -/
def Listening.Covered (l : Listening) : Prop := l.Busy → l.stage = .serving

structure Listening.Inv (n : ℕ) (l : Listening) : Prop where
  core : MulticastApp.Inv n l.core
  connecting : l.stage = .connecting → unfinished l.core = ∅
  left : l.stage = .closing ∨ l.stage = .ended → l.core.loop.past = true

theorem Listening.inv_start (n : ℕ) : Listening.Inv n ⟨.connecting, false, start n⟩ where
  core := MulticastApp.inv_start n
  connecting _ := unfinished_start n
  left := by rintro (h | h) <;> cases h

/-- The loop goes to its `finally` block, or never begins. -/
theorem Inv.leaves {s : State} {loop : Loop} (h : Inv n s) (hpast : loop.past = true) :
    Inv n { s with loop := loop } := by
  refine h.loop_moves {} rfl ?_ ?_
  · rintro rfl
    cases hpast
  · rintro rfl
    cases hpast

theorem Listening.Inv.step {e : ListenEvent W} (h : Listening.Inv n l)
    (hs : listenStep app l e = some l') : Listening.Inv n l' := by
  cases e with
  | connected returned =>
    obtain ⟨hstage, hs⟩ := Option.ite_none_right_eq_some.mp hs
    obtain rfl := Option.some.inj hs
    split_ifs
    · exact ⟨h.core, nofun, by rintro (h | h) <;> cases h⟩
    · exact ⟨h.core.leaves rfl, nofun, fun _ => rfl⟩
  | core e =>
    obtain ⟨hallows, hs⟩ := Option.ite_none_right_eq_some.mp hs
    obtain ⟨core, hcore, rfl⟩ := Option.map_eq_some_iff.mp hs
    have hconnected : l.stage ≠ .connecting := by
      intro hstage
      cases e <;> simp [Listening.allows, hstage] at hallows
    refine ⟨(step_moves h.core hcore).inv h.core, fun hstage => ?_, fun hstage => ?_⟩
    · cases e with
      | drained => cases hstage
      | _ => exact absurd hstage hconnected
    · cases e with
      | drained =>
        obtain ⟨-, hcore⟩ := Option.ite_none_right_eq_some.mp hcore
        exact Option.some.inj hcore ▸ rfl
      | _ => exact past_step (h.left hstage) hcore
  | expire =>
    obtain ⟨⟨hstage, -⟩, hs⟩ := Option.ite_none_right_eq_some.mp hs
    exact Option.some.inj hs ▸ ⟨h.core, h.connecting, h.left⟩
  | cancel =>
    simp only [listenStep, Listening.cancel] at hs
    split at hs
    case h_1 => exact Option.some.inj hs ▸ ⟨h.core.leaves rfl, nofun, fun _ => rfl⟩
    case h_2 hstage =>
      split_ifs at hs with hloop hwaits
      · refine Option.some.inj hs ▸ ⟨h.core, nofun, fun _ => ?_⟩
        show l.core.loop.past = true
        rw [hloop]
        rfl
      · exact Option.some.inj hs ▸ ⟨h.core.leaves rfl,
          fun hconnecting => absurd (hstage.symm.trans hconnecting) nofun, fun _ => rfl⟩
    case h_3 hstage => exact Option.some.inj hs ▸ ⟨h.core, nofun, fun _ => h.left (Or.inl hstage)⟩
    case h_4 => cases hs
  | closed =>
    obtain ⟨hstage, hs⟩ := Option.ite_none_right_eq_some.mp hs
    exact Option.some.inj hs ▸ ⟨h.core, nofun, fun _ => h.left (Or.inl hstage)⟩

/-- A step keeps every request within the time that the transport is open, unless it cancels
`asyncio.wait`. -/
theorem Listening.Inv.covered_iff {e : ListenEvent W} (h : Listening.Inv n l) (hcovered : l.Covered)
    (hs : listenStep app l e = some l') : l'.Covered ↔ (e = .cancel → ¬ l.Waits) := by
  cases e with
  | connected returned =>
    obtain ⟨hstage, hs⟩ := Option.ite_none_right_eq_some.mp hs
    obtain rfl := Option.some.inj hs
    have hidle : ¬ l.Busy := not_not.mpr (h.connecting hstage)
    refine iff_of_true ?_ nofun
    split_ifs
    · exact fun _ => rfl
    · exact fun hbusy => absurd hbusy hidle
  | core e =>
    obtain ⟨hallows, hs⟩ := Option.ite_none_right_eq_some.mp hs
    obtain ⟨core, hcore, rfl⟩ := Option.map_eq_some_iff.mp hs
    refine iff_of_true (fun hbusy => ?_) nofun
    by_cases hstage : l.stage = .serving
    · cases e with
      | drained =>
        obtain ⟨⟨-, hnone⟩, hcore⟩ := Option.ite_none_right_eq_some.mp hcore
        obtain rfl := Option.some.inj hcore
        exact absurd hnone hbusy
      | _ => exact hstage
    · have hleft : l.stage = .closing ∨ l.stage = .ended := by
        cases hphase : l.stage with
        | connecting => cases e <;> simp [Listening.allows, hphase] at hallows
        | serving => exact absurd hphase hstage
        | closing => exact Or.inl rfl
        | ended => exact Or.inr rfl
      have hsubset := unfinished_step h.core (Loop.ne_receiving (h.left hleft)) hcore
      refine absurd (hcovered fun hnone => hbusy ?_) hstage
      exact Finset.subset_empty.mp (hsubset.trans hnone.subset)
  | expire =>
    obtain ⟨-, hs⟩ := Option.ite_none_right_eq_some.mp hs
    obtain rfl := Option.some.inj hs
    exact iff_of_true hcovered nofun
  | cancel =>
    simp only [listenStep, Listening.cancel] at hs
    split at hs
    case h_1 hstage =>
      obtain rfl := Option.some.inj hs
      refine iff_of_true (fun hbusy => absurd (h.connecting hstage) hbusy) fun _ hwaits => ?_
      exact absurd (hstage.symm.trans hwaits.1) nofun
    case h_2 hstage =>
      split_ifs at hs with hloop hgathers
      · obtain rfl := Option.some.inj hs
        constructor
        · rintro hclosed - hwaits
          exact absurd (hclosed hwaits.2.2.2) nofun
        · intro hquiet hbusy
          refine absurd ⟨hstage, hloop, ?_, hbusy⟩ (hquiet rfl)
          by_contra hexpired
          exact hgathers ⟨by simpa using hexpired, hbusy⟩
      · obtain rfl := Option.some.inj hs
        refine iff_of_true (fun _ => hstage) fun _ hwaits => ?_
        exact hloop hwaits.2.1
    case h_3 hstage =>
      obtain rfl := Option.some.inj hs
      refine iff_of_true (fun hbusy => ?_) fun _ hwaits => ?_
      · exact absurd (hstage.symm.trans (hcovered hbusy)) nofun
      · exact absurd (hstage.symm.trans hwaits.1) nofun
    case h_4 => cases hs
  | closed =>
    obtain ⟨hstage, hs⟩ := Option.ite_none_right_eq_some.mp hs
    obtain rfl := Option.some.inj hs
    refine iff_of_true (fun hbusy => ?_) nofun
    exact absurd (hstage.symm.trans (hcovered hbusy)) nofun

end

section
variable {Ctx : Type} {hooks : AppLifecycle.Hooks} {app : ExecutionHost W} {n : ℕ}
  {s s' : AppLifecycle.State Ctx (listener app n)} {e : AppLifecycle.Event Ctx (listener app n)}

/-- `_listen` of the app that runs. -/
def listening (s : AppLifecycle.State Ctx (listener app n)) : Listening := s.listener

/-- While a request is in progress the transport is open, and the app listens: neither the
shutdown hook nor the shutdown of the transport has been called. -/
def Enclosed (s : AppLifecycle.State Ctx (listener app n)) : Prop :=
  (listening s).Busy → (listening s).stage = .serving ∧ ∃ k, s.phases k = .listening

/-- The step does not cancel `_listen` while `asyncio.wait` waits for a request. -/
def Undisturbed (s : AppLifecycle.State Ctx (listener app n))
    (e : AppLifecycle.Event Ctx (listener app n)) : Prop :=
  e = .listens .cancel → ¬ (listening s).Waits

/-- What every reachable state of the app keeps. -/
structure Ready (hooks : AppLifecycle.Hooks)
    (s : AppLifecycle.State Ctx (listener app n)) : Prop where
  lifecycle : AppLifecycle.Inv hooks s
  drains : (listening s).Inv n
  unlistened : s.applicationStarted = false → s.listener = (listener app n).start

theorem ready_start : Ready hooks ({} : AppLifecycle.State Ctx (listener app n)) where
  lifecycle := AppLifecycle.inv_start
  drains := Listening.inv_start n
  unlistened _ := rfl

theorem Ready.step (h : Ready hooks s) (hs : AppLifecycle.step hooks s e = some s') :
    Ready hooks s' where
  lifecycle := h.lifecycle.step hs
  drains := by
    by_cases he : ∃ e', e = .listens e'
    · obtain ⟨e', rfl⟩ := he
      obtain ⟨-, l, hl, rfl⟩ := AppLifecycle.step_listens hs
      exact h.drains.step hl
    · have hkept : listening s' = listening s :=
        (AppLifecycle.step_beside (fun e' h => he ⟨e', h⟩) hs).listener
      rw [hkept]
      exact h.drains
  unlistened := AppLifecycle.unlistened_step h.unlistened hs

/-- A request is enclosed as soon as the transport is open for it. -/
theorem Ready.enclosed_iff (h : Ready hooks s) : Enclosed s ↔ (listening s).Covered := by
  refine ⟨fun henclosed hbusy => (henclosed hbusy).1, fun hcovered hbusy => ?_⟩
  have hstage := hcovered hbusy
  refine ⟨hstage, ?_⟩
  have hstarted : s.applicationStarted = true := by
    by_contra hnot
    have hstart : listening s = ⟨.connecting, false, start n⟩ := h.unlistened (by simpa using hnot)
    rw [hstart] at hstage
    cases hstage
  refine (h.lifecycle.listens hstarted).resolve_left fun hended => ?_
  have hgone : (listening s).stage = .ended := of_decide_eq_true hended
  exact absurd (hstage.symm.trans hgone) nofun

theorem Ready.step_enclosed (h : Ready hooks s) (henclosed : Enclosed s)
    (hs : AppLifecycle.step hooks s e = some s') : Enclosed s' ↔ Undisturbed s e := by
  have hcovered := h.enclosed_iff.mp henclosed
  rw [(h.step hs).enclosed_iff]
  by_cases he : ∃ e', e = .listens e'
  · obtain ⟨e', rfl⟩ := he
    obtain ⟨-, l, hl, rfl⟩ := AppLifecycle.step_listens hs
    refine (h.drains.covered_iff hcovered hl).trans ?_
    constructor
    · exact fun hquiet hcancel => hquiet (AppLifecycle.Event.listens.inj hcancel)
    · rintro hquiet rfl
      exact hquiet rfl
  · have hkept : listening s' = listening s :=
      (AppLifecycle.step_beside (fun e' h => he ⟨e', h⟩) hs).listener
    rw [hkept]
    exact iff_of_true hcovered fun hcancel => absurd ⟨_, hcancel⟩ he

end

/-- All along a run of `MulticastApp`, however its calls of `run`, its hooks and its awaits end,
requests are in progress only while the transport is open and before the shutdown hook, exactly
if no step of the run cancels `_listen` while `asyncio.wait` waits for a request. -/
theorem requests_enclosed_iff {Ctx : Type} (hooks : AppLifecycle.Hooks) (app : ExecutionHost W)
    (maxConcurrency : ℕ) (es : List (AppLifecycle.Event Ctx (listener app maxConcurrency)))
    (s : AppLifecycle.State Ctx (listener app maxConcurrency))
    (h : Machine.run (AppLifecycle.step hooks) {} es = some s) :
    Machine.Throughout (AppLifecycle.step hooks) Enclosed {} es ↔
      Machine.Meets (AppLifecycle.step hooks) Undisturbed {} es :=
  Machine.throughout_iff_meets (fun _ _ _ hready hs => hready.step hs)
    (fun _ _ _ hready henclosed hs => hready.step_enclosed henclosed hs)
    ready_start (fun hbusy => absurd (unfinished_start maxConcurrency) hbusy) h

/-- The app is cancelled a second time, while it waits for the request of a peer. -/
def abandonedRun : List (AppLifecycle.Event ℕ (listener (leastHost 1 Nat.one_pos) 1)) :=
  [.run 0, .listens (.connected true), .listens (.core (.acquire false)),
    .listens (.core (.receive "a" [])), .listens .cancel, .listens .cancel]

theorem requests_enclosed_abandoned :
    ¬ Machine.Throughout (AppLifecycle.step ⟨false, false, true⟩) Enclosed {} abandonedRun := by
  rw [requests_enclosed_iff ⟨false, false, true⟩ (leastHost 1 Nat.one_pos) 1 abandonedRun _ rfl]
  intro h
  have hlast := ((((h.2 _ rfl).2 _ rfl).2 _ rfl).2 _ rfl).2 _ rfl
  refine hlast.1 rfl ⟨rfl, rfl, rfl, fun hnone => ?_⟩
  exact Finset.notMem_empty 0 (hnone ▸ mem_unfinished.mpr ⟨Nat.one_pos, rfl⟩)

end
end WireRpc.MulticastApp
