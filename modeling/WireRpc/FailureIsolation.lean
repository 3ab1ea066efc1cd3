import WireRpc.App
import WireRpc.BusyRejection
import WireRpc.Conformance

/-!
# Request failures stay with their request

Handlers and middleware that return or raise ordinary exceptions never end a
listen loop, of either app. One that ends with `CancelledError` does.
-/
namespace WireRpc
open Library Execution

namespace App
variable {W : Type} {app : ExecutionHost W} {s s' : State} {e : Event W}

/-- The handlers of a message return or raise ordinary exceptions. -/
def HandlersReturn (_ : State) : Event W → Prop
  | .processed dispatch _ => DispatchReturns dispatch
  | _ => True

/-- The loop takes the next message, or the one it has to its end. -/
structure Alive (s : State) : Prop where
  not_crashed : s.loop = .crashed → s.closed = true
  not_ended : s.loop = .ended → s.closed = true ∨ s.stopping = true

theorem alive_start : Alive start where
  not_crashed := by rintro ⟨⟩
  not_ended := by rintro ⟨⟩

theorem alive_step (hr : app.codec.RoundTrips) (he : app.codec.EncodesErrors)
    (hl : app.codec.EncodesLists) (hi : IdentityReturns app) (halive : Alive s)
    (hhandlers : HandlersReturn s e) (h : step app s e = some s') : Alive s' := by
  cases e with
  | receive data =>
    simp only [step] at h
    split_ifs at h
    exact Option.some.inj h ▸ ⟨nofun, nofun⟩
  | noticeStop =>
    simp only [step] at h
    split_ifs at h with hstop
    exact Option.some.inj h ▸ ⟨nofun, fun _ => .inr hstop.1⟩
  | closeTransport =>
    simp only [step] at h
    split_ifs at h
    exact Option.some.inj h ▸ ⟨fun _ => rfl, fun _ => .inl rfl⟩
  | failTransport =>
    simp only [step] at h
    split_ifs at h
    exact Option.some.inj h ▸ ⟨fun _ => rfl, fun _ => .inl rfl⟩
  | stop => exact Option.some.inj h ▸ ⟨halive.not_crashed, fun _ => .inr rfl⟩
  | processed dispatch host =>
    simp only [step] at h
    split at h
    · rename_i data _
      obtain ⟨response, hresponse⟩ :=
        process_returns hr he hl hhandlers hi none data host
      rw [hresponse] at h
      exact Option.some.inj h ▸ ⟨nofun, nofun⟩
    · cases h
  | expire =>
    simp only [step] at h
    split at h
    · exact Option.some.inj h ▸ ⟨nofun, fun _ => .inr ‹_›⟩
    · cases h
  | sent how =>
    simp only [step] at h
    split at h
    · obtain rfl := Option.some.inj h
      cases how with
      | done =>
        constructor
        · intro hcrashed
          change (if s.stopping then Loop.ended else Loop.receiving) = .crashed at hcrashed
          split_ifs at hcrashed
        · intro hended
          change (if s.stopping then Loop.ended else Loop.receiving) = .ended at hended
          split_ifs at hended with hstop
          exact .inr hstop
      | lost => exact ⟨fun _ => rfl, fun _ => .inl rfl⟩
      | failed => exact ⟨fun _ => rfl, fun _ => .inl rfl⟩
    · cases h

/-- What brings the message in hand to its end. -/
def Completes (dispatch : Dispatch W) (host : Execution.State W) : Event W → Prop
  | .processed dispatch' host' => dispatch' = dispatch ∧ host' = host
  | .sent .done => True
  | _ => False

/-- The next message is received when the one in hand is done, however its handlers
return or raise. -/
def ServesNext (app : ExecutionHost W) (s : State) : Prop :=
  ∀ data dispatch host, DispatchReturns dispatch → ∃ es s',
    (∀ e ∈ es, Completes dispatch host e) ∧
      Machine.run (step app) s (es ++ [.receive data]) = some s' ∧ s'.loop = .processing data

theorem servesNext (hr : app.codec.RoundTrips) (he : app.codec.EncodesErrors)
    (hl : app.codec.EncodesLists) (hi : IdentityReturns app) (halive : Alive s)
    (hstop : s.stopping = false) (hclosed : s.closed = false) : ServesNext app s := by
  intro data dispatch host hd
  have hreceive : ∀ r : State, r.loop = .receiving →
      step app r (.receive data) = some { r with loop := .processing data } := by
    intro r hloop
    simp only [step, hloop, if_true]
  have hsent : ∀ r : State, r.stopping = false → (∃ response, r.loop = .sending response) →
      step app r (.sent .done) = some { r with loop := .receiving } := by
    rintro r hgoes ⟨response, hloop⟩
    simp [step, hloop, proceed, hgoes]
  have hdone : ∀ e ∈ [Event.sent .done], Completes dispatch host e :=
    List.forall_mem_singleton.mpr trivial
  cases hloop : s.loop with
  | receiving =>
    refine ⟨[], { s with loop := .processing data }, by simp, ?_, rfl⟩
    exact Machine.run_cons_of (hreceive s hloop)
  | processing current =>
    obtain ⟨response, hresponse⟩ :=
      process_returns hr he hl hd hi none current host
    have hprocessed : step app s (.processed dispatch host) =
        some { s with loop := .sending response } := by
      simp only [step, hloop, hresponse, settle]
    refine ⟨[.processed dispatch host, .sent .done], { s with loop := .processing data },
      List.forall_mem_cons.mpr ⟨⟨rfl, rfl⟩, hdone⟩, ?_, rfl⟩
    calc Machine.run (step app) s _
        = Machine.run (step app) { s with loop := .sending response }
            [.sent .done, .receive data] :=
          Machine.run_cons_of hprocessed
      _ = Machine.run (step app) { s with loop := .receiving } [.receive data] :=
          Machine.run_cons_of (hsent _ hstop ⟨response, rfl⟩)
      _ = some { s with loop := .processing data } := Machine.run_cons_of (hreceive _ rfl)
  | sending response =>
    refine ⟨[.sent .done], { s with loop := .processing data }, hdone, ?_, rfl⟩
    calc Machine.run (step app) s _
        = Machine.run (step app) { s with loop := .receiving } [.receive data] :=
          Machine.run_cons_of (hsent s hstop ⟨response, hloop⟩)
      _ = some { s with loop := .processing data } := Machine.run_cons_of (hreceive _ rfl)
  | ended =>
    obtain hended | hended := halive.not_ended hloop
    · rw [hclosed] at hended
      cases hended
    · rw [hstop] at hended
      cases hended
  | crashed => rw [halive.not_crashed hloop] at hclosed; cases hclosed

/-- The loop ends only when a call of the transport fails, or with `stop`, and until then it
takes the next message. -/
structure Serving (app : ExecutionHost W) (s : State) : Prop where
  alive : Alive s
  serves_next : s.stopping = false → s.closed = false → ServesNext app s

theorem serving_run (hr : app.codec.RoundTrips) (he : app.codec.EncodesErrors)
    (hl : app.codec.EncodesLists) (hi : IdentityReturns app) {es : List (Event W)}
    (hc : Machine.Meets (step app) HandlersReturn start es)
    (hrun : Machine.run (step app) start es = some s) : Serving app s := by
  have halive : Alive s := Machine.invariant_of_meets
    (fun _ _ _ h hhandlers hstep => alive_step hr he hl hi h hhandlers hstep)
    alive_start hc hrun
  exact ⟨halive, servesNext hr he hl hi halive⟩

theorem run_served {data : Bytes} {dispatch : Dispatch W} {host : Execution.State W}
    {response : Option Bytes} (hp : (process app dispatch none data host).2 = .value response) :
    Machine.run (step app) start [.receive data, .processed dispatch host, .sent .done] =
      some ⟨.receiving, false, false⟩ := by
  have hprocessed : step app ⟨.processing data, false, false⟩ (.processed dispatch host) =
      some ⟨.sending response, false, false⟩ := by
    simp only [step, hp, settle]
  exact Machine.run_cons_of hprocessed

theorem run_cancelled {data : Bytes} {dispatch : Dispatch W} {host : Execution.State W}
    (hp : (process app dispatch none data host).2 = .cancelled) :
    Machine.run (step app) start [.receive data, .processed dispatch host] =
      some ⟨.crashed, false, false⟩ := by
  have hprocessed : step app ⟨.processing data, false, false⟩ (.processed dispatch host) =
      some ⟨.crashed, false, false⟩ := by
    simp only [step, hp, settle]
  exact Machine.run_cons_of hprocessed

end App

namespace MulticastApp
variable {W : Type} {app : ExecutionHost W} {n : ℕ} {s s' : State} {t : ℕ} {e : Event W}

/-- The handlers of a task return or raise ordinary exceptions. -/
def HandlersReturn (_ : State) : Event W → Prop
  | .processed _ dispatch _ => DispatchReturns dispatch
  | _ => True

/-- How many steps a task has before it at most. -/
def Phase.rank : Phase → ℕ
  | created | waiting => 3
  | executing | rejecting => 2
  | sending _ => 1
  | finished _ => 0

/-- A task comes closer to its end, and nothing else moves. -/
structure TaskStep (s : State) (t : ℕ) (phase : Phase) (s' : State) : Prop where
  loop : s'.loop = s.loop := by rfl
  stopping : s'.stopping = s.stopping := by rfl
  closed : s'.closed = s.closed := by rfl
  created : s'.created = s.created := by rfl
  unfinished : t ∈ unfinished s
  phases : s'.phases = Function.update s.phases t phase
  intact : phase.hasRaised = false
  closer : phase.rank < (s.phases t).rank

theorem Inv.finish_taskStep (h : Inv n s) (ht : t ∈ unfinished s) (holder : ℕ → Option ℕ) :
    TaskStep s t (.finished false) { finish s t false with holder := holder } := by
  obtain ⟨lock, hentry⟩ := h.entry ht
  have hphase := (mem_unfinished.mp ht).2
  rw [finish_some hentry]
  have hcloser : 0 < (s.phases t).rank := by
    cases hcase : s.phases t with
    | finished raised =>
      rw [hcase] at hphase
      cases hphase
    | _ => exact Nat.succ_pos _
  exact { unfinished := ht, phases := rfl, intact := rfl, closer := hcloser }

theorem Inv.settle_taskStep (h : Inv n s) (ht : t ∈ unfinished s) {response : Option Bytes}
    (hrank : 1 < (s.phases t).rank) :
    ∃ phase, TaskStep s t phase (settle s t (.value response)) := by
  cases response with
  | none =>
    have hstep := h.finish_taskStep ht s.holder
    rw [← (finish_sameLoop s t false).holder] at hstep
    exact ⟨.finished false, hstep⟩
  | some b =>
    exact ⟨.sending b, { unfinished := ht, phases := rfl, intact := rfl, closer := hrank }⟩

theorem Inv.settle_unlock_taskStep (h : Inv n s) (ht : t ∈ unfinished s)
    {response : Option Bytes} (hrank : 1 < (s.phases t).rank) :
    ∃ phase, TaskStep s t phase (settle (unlock s t) t (.value response)) := by
  cases response with
  | none =>
    have hstep := h.finish_taskStep ht (unlock s t).holder
    rw [← finish_unlock s t false] at hstep
    exact ⟨.finished false, hstep⟩
  | some b =>
    exact ⟨.sending b, { unfinished := ht, phases := rfl, intact := rfl, closer := hrank }⟩

theorem reject_returns : DispatchReturns (reject (W := W)) := fun _ _ _ _ => nofun

/-- The steps that a task takes by itself. -/
def Event.OfTask : Event W → Prop
  | .begin _ | .grant _ | .processed _ _ _ | .sent _ => True
  | _ => False

/-- When its handlers return or raise, every step of a task takes it closer to its end,
without an exception. -/
theorem task_step (hr : app.codec.RoundTrips) (he : app.codec.EncodesErrors)
    (hl : app.codec.EncodesLists) (hi : IdentityReturns app) (hinv : Inv n s)
    (hhandlers : HandlersReturn s e) (htask : e.OfTask) (h : step app s e = some s') :
    ∃ t phase, TaskStep s t phase s' := by
  cases step_way h with
  | begun t hlt hphase =>
    have ht : t ∈ unfinished s := mem_unfinished.mpr ⟨hlt, by rw [hphase]; rfl⟩
    rw [hinv.begins hlt hphase]
    have hrank : 2 < (s.phases t).rank := by
      rw [hphase]
      decide
    split_ifs
    · exact ⟨t, .rejecting, { unfinished := ht, phases := rfl, intact := rfl, closer := hrank }⟩
    · exact ⟨t, .executing, { unfinished := ht, phases := rfl, intact := rfl, closer := hrank }⟩
  | granted t hphase => exact absurd hphase (hinv.never_waits t)
  | executed t dispatch host hphase =>
    have ht := hinv.unfinished_of (t := t) (by simp [hphase]) (by rw [hphase]; rfl)
    obtain ⟨response, hresponse⟩ :=
      process_returns hr he hl hhandlers hi (some (s.tasks t).peer) (s.tasks t).data host
    rw [hresponse]
    exact ⟨t, hinv.settle_unlock_taskStep ht (by rw [hphase]; decide)⟩
  | rejected t dispatch host hphase =>
    have ht := hinv.unfinished_of (t := t) (by simp [hphase]) (by rw [hphase]; rfl)
    obtain ⟨response, hresponse⟩ :=
      process_returns hr he hl reject_returns hi (some (s.tasks t).peer) (s.tasks t).data host
    rw [hresponse]
    exact ⟨t, hinv.settle_taskStep ht (by rw [hphase]; decide)⟩
  | sent t response hphase =>
    have ht := hinv.unfinished_of (t := t) (by simp [hphase]) (by rw [hphase]; rfl)
    have hstep := hinv.finish_taskStep ht s.holder
    rw [← (finish_sameLoop s t false).holder] at hstep
    exact ⟨t, .finished false, hstep⟩
  | _ => exact htask.elim

/-- The loop goes on unless the app stops or `recv` raises, and no task has ended with an
exception. -/
structure Listens (s : State) : Prop where
  loop : s.stopping = false → s.closed = false → s.loop = .acquiring ∨ s.loop = .receiving
  intact : s.stopping = false → s.closed = false → ∀ t, (s.phases t).hasRaised = false

theorem listens_of_over (h : s.stopping = false → s.closed = false → False) : Listens s :=
  ⟨fun hstop hclosed => (h hstop hclosed).elim, fun hstop hclosed => (h hstop hclosed).elim⟩

theorem TaskStep.listens {phase : Phase} (hstep : TaskStep s t phase s') (h : Listens s) :
    Listens s' := by
  constructor
  · rw [hstep.stopping, hstep.closed, hstep.loop]
    exact h.loop
  · rw [hstep.stopping, hstep.closed, hstep.phases]
    intro hstop hclosed
    exact (Function.forall_update_iff s.phases fun _ phase => phase.hasRaised = false).mpr
      ⟨hstep.intact, fun k _ => h.intact hstop hclosed k⟩

/-- A message is admitted and the loop goes on. -/
theorem Listens.admits (h : Listens s) (peer : String) (data : Bytes) :
    Listens (reap (startTask s peer data)) := by
  have hintact : s.stopping = false → s.closed = false →
      ∀ k, ((startTask s peer data).phases k).hasRaised = false := by
    intro hstop hclosed
    exact (Function.forall_update_iff s.phases fun _ phase => phase.hasRaised = false).mpr
      ⟨rfl, fun k _ => h.intact hstop hclosed k⟩
  obtain ⟨owned, loop, hreap, -⟩ := reap_eq (startTask s peer data)
  constructor
  · intro hstop hclosed
    have hstop' : s.stopping = false := by rwa [hreap] at hstop
    have hclosed' : s.closed = false := by rwa [hreap] at hclosed
    have hnone : ¬ ∃ t ∈ (startTask s peer data).owned.filter fun t =>
        ((startTask s peer data).phases t).isFinished,
          ((startTask s peer data).phases t).hasRaised := by
      rintro ⟨t, -, hraised⟩
      rw [hintact hstop' hclosed' t] at hraised
      cases hraised
    left
    simp only [reap, if_neg hnone]
    simp [startTask, hstop']
  · rw [hreap]
    exact hintact

theorem listens_step (hr : app.codec.RoundTrips) (he : app.codec.EncodesErrors)
    (hl : app.codec.EncodesLists) (hi : IdentityReturns app) (hinv : Inv n s)
    (hhandlers : HandlersReturn s e) (hs : Listens s) (h : step app s e = some s') :
    Listens s' := by
  by_cases htask : e.OfTask
  · obtain ⟨t, phase, hstep⟩ := task_step hr he hl hi hinv hhandlers htask h
    exact hstep.listens hs
  have hdrains : s.loop = .draining → s'.stopping = s.stopping → s'.closed = s.closed →
      Listens s' := by
    intro hloop hstopping hclosing
    apply listens_of_over
    intro hstop hclosed
    rw [hstopping] at hstop
    rw [hclosing] at hclosed
    obtain hloop' | hloop' := hs.loop hstop hclosed <;> cases hloop.symm.trans hloop'
  cases step_way h with
  | acquired noticed hloop hfree hnoticed =>
    constructor
    · intro hstop _
      right
      have hnot : noticed ≠ true := fun hnow =>
        absurd (hnoticed hnow) (Bool.eq_false_iff.mp hstop)
      exact if_neg hnot
    · exact hs.intact
  | received peer data => exact hs.admits peer data
  | noticedAcquiring hstopping | noticedReceiving hstopping =>
    exact ⟨fun hstop => absurd hstopping (Bool.eq_false_iff.mp hstop), hs.intact⟩
  | transportClosed | transportFailed =>
    exact listens_of_over fun _ hclosed => Bool.noConfusion hclosed
  | stopped => exact listens_of_over fun hstop _ => Bool.noConfusion hstop
  | cancelledExecuting t hloop =>
    have hsame := finish_sameLoop (unlock s t) t true
    exact hdrains hloop hsame.stopping hsame.closed
  | cancelled t hloop =>
    have hsame := finish_sameLoop s t true
    exact hdrains hloop hsame.stopping hsame.closed
  | drained hloop => exact hdrains hloop rfl rfl
  | _ => exact absurd trivial htask

/-- What brings the tasks to their ends. -/
def Completes (dispatch : Dispatch W) (host : Execution.State W) : Event W → Prop
  | .begin _ | .sent _ => True
  | .processed _ dispatch' host' => dispatch' = dispatch ∧ host' = host
  | _ => False

/-- How many steps the tasks have before them at most. -/
def remaining (s : State) : ℕ := ∑ t ∈ Finset.range s.created, (s.phases t).rank

theorem TaskStep.remaining_lt {phase : Phase} (h : TaskStep s t phase s') :
    remaining s' < remaining s := by
  unfold remaining
  rw [h.created, h.phases]
  refine Finset.sum_lt_sum (fun k _ => ?_) ⟨t, ?_, ?_⟩
  · by_cases hk : k = t
    · rw [hk, Function.update_self]
      exact h.closer.le
    · rw [Function.update_of_ne hk]
  · exact Finset.mem_range.mpr (mem_unfinished.mp h.unfinished).1
  · rw [Function.update_self]
    exact h.closer

/-- A task that is not over can go on, whatever its handlers do. -/
theorem Inv.enabled (h : Inv n s) (app : ExecutionHost W) (ht : t ∈ unfinished s)
    (dispatch : Dispatch W) (host : Execution.State W) :
    ∃ e s', Completes dispatch host e ∧ step app s e = some s' := by
  obtain ⟨hlt, hunfinished⟩ := mem_unfinished.mp ht
  cases hphase : s.phases t with
  | created => exact ⟨.begin t, _, trivial, by simp only [step, if_pos hlt, hphase]; rfl⟩
  | waiting => exact absurd hphase (h.never_waits t)
  | executing => exact ⟨.processed t dispatch host, _, ⟨rfl, rfl⟩, by simp only [step, hphase]; rfl⟩
  | rejecting => exact ⟨.processed t dispatch host, _, ⟨rfl, rfl⟩, by simp only [step, hphase]; rfl⟩
  | sending response => exact ⟨.sent t, _, trivial, by simp only [step, hphase]; rfl⟩
  | finished raised =>
    rw [hphase] at hunfinished
    cases hunfinished

theorem Completes.ofTask {dispatch : Dispatch W} {host : Execution.State W}
    (h : Completes dispatch host e) : e.OfTask := by
  cases e <;> trivial

theorem Completes.handlersReturn {dispatch : Dispatch W} {host : Execution.State W}
    (hd : DispatchReturns dispatch) (h : Completes dispatch host e) : HandlersReturn s e := by
  cases e with
  | processed t dispatch' host' => exact h.1 ▸ hd
  | _ => trivial

/-- The tasks that are not over can all be brought to their ends. -/
theorem drains (hr : app.codec.RoundTrips) (he : app.codec.EncodesErrors)
    (hl : app.codec.EncodesLists) (hi : IdentityReturns app) {dispatch : Dispatch W}
    (hd : DispatchReturns dispatch) (host : Execution.State W) (hinv : Inv n s) :
    ∃ es s', (∀ e ∈ es, Completes dispatch host e) ∧ Machine.run (step app) s es = some s' ∧
      Inv n s' ∧ unfinished s' = ∅ ∧ s'.loop = s.loop ∧ s'.created = s.created := by
  induction hk : remaining s using Nat.strong_induction_on generalizing s with
  | h k ih =>
    by_cases hnone : unfinished s = ∅
    · exact ⟨[], s, by simp, rfl, hinv, hnone, rfl, rfl⟩
    · obtain ⟨t, ht⟩ := Finset.nonempty_iff_ne_empty.mpr hnone
      obtain ⟨e, r, hcompletes, hstep⟩ := hinv.enabled app ht dispatch host
      have hmoves := step_moves hinv hstep
      obtain ⟨t', phase, htask⟩ := task_step hr he hl hi hinv
        (hcompletes.handlersReturn hd) hcompletes.ofTask hstep
      obtain ⟨es, s', hes, hrun, hinv', hnone', hloop, hcreated⟩ :=
        ih (remaining r) (hk ▸ htask.remaining_lt) (hmoves.inv hinv) rfl
      refine ⟨e :: es, s', ?_, ?_, hinv', hnone', hloop.trans htask.loop,
        hcreated.trans htask.created⟩
      · intro e' he'
        obtain rfl | he' := List.mem_cons.mp he'
        · exact hcompletes
        · exact hes e' he'
      · rw [Machine.run_cons_of hstep, hrun]

/-- The turn of the loop that admits the next message, up to its handlers. -/
def turn (s : State) (peer : String) (data : Bytes) : List (Event W) :=
  (if s.loop = .acquiring then [.acquire false] else []) ++ [.receive peer data, .begin s.created]

/-- The next message of any peer is admitted and executed when the tasks before it are
over, however their handlers return or raise. -/
def ServesNext (app : ExecutionHost W) (s : State) : Prop :=
  ∀ peer data dispatch host, DispatchReturns dispatch → ∃ es s',
    (∀ e ∈ es, Completes dispatch host e) ∧
      Machine.run (step app) s (es ++ turn s peer data) = some s' ∧
      s'.phases s.created = .executing ∧ (s'.tasks s.created).peer = peer ∧
      (s'.tasks s.created).data = data

/-- With no task unfinished a message of any peer is executed. -/
theorem Inv.executes (h : Inv n s) (hloop : s.loop = .receiving) (hnone : unfinished s = ∅)
    (app : ExecutionHost W) (peer : String) (data : Bytes) : ∃ s',
    Machine.run (step app) s [.receive peer data, .begin s.created] = some s' ∧
      s'.phases s.created = .executing ∧ (s'.tasks s.created).peer = peer ∧
      (s'.tasks s.created).data = data := by
  have hreceive : step app s (.receive peer data) = some (reap (startTask s peer data)) := by
    simp only [step, hloop, if_true]
  have hinv := h.admits hloop peer data
  obtain ⟨hcreated, htasks⟩ := admitted_tasks s peer data
  set r := reap (startTask s peer data) with hr
  have htask : r.tasks s.created = (startTask s peer data).tasks s.created := by
    rw [htasks, Function.update_self]
  have hphase : r.phases s.created = .created := by
    obtain ⟨owned, loop, hreap, -⟩ := reap_eq (startTask s peer data)
    rw [hr, hreap]
    exact Function.update_self ..
  have hfree : (r.tasks s.created).busy ≠ true := by
    rw [htask, Ne, h.busy_iff peer data, unfinishedOf, hnone]
    simp
  have hlt : s.created < r.created := by omega
  have hbegin : step app r (.begin s.created) = some (begin r s.created) := by
    simp only [step, if_pos hlt, hphase]
  refine Machine.exists_run_cons hreceive (Machine.exists_run_cons hbegin ⟨_, rfl, ?_⟩)
  rw [hinv.begins hlt hphase, if_neg hfree]
  refine ⟨Function.update_self .., ?_⟩
  show (r.tasks s.created).peer = peer ∧ (r.tasks s.created).data = data
  rw [htask]
  show (Function.update s.tasks s.created _ s.created).peer = peer ∧
    (Function.update s.tasks s.created _ s.created).data = data
  rw [Function.update_self]
  exact ⟨rfl, rfl⟩

theorem servesNext (hr : app.codec.RoundTrips) (he : app.codec.EncodesErrors)
    (hl : app.codec.EncodesLists) (hi : IdentityReturns app) (hn : 0 < n) (hinv : Inv n s)
    (hloop : s.loop = .acquiring ∨ s.loop = .receiving) : ServesNext app s := by
  intro peer data dispatch host hd
  obtain ⟨es, r, hes, hrun, hinv', hnone, hsame, hcreated⟩ := drains hr he hl hi hd host hinv
  obtain hacquiring | hreceiving := hloop
  · have hslots := hinv'.slots
    rw [hnone, Finset.card_empty, hinv'.acquiring (hsame.trans hacquiring), Bool.toNat_false]
      at hslots
    set u : State := { r with free := r.free - 1, holding := true, loop := .receiving } with hu
    have hacquire : step app r (.acquire false) = some u := by
      have hfree : 0 < r.free := by omega
      simp only [step, hsame.trans hacquiring, hfree]
      rfl
    have hinvu : Inv n u := (step_moves hinv' hacquire).inv hinv'
    obtain ⟨s', hturn, hphase, hpeer, hdata⟩ := hinvu.executes rfl hnone app peer data
    rw [show u.created = s.created from hcreated] at hturn hphase hpeer hdata
    refine ⟨es, s', hes, ?_, hphase, hpeer, hdata⟩
    rw [Machine.run_append, hrun, turn, if_pos hacquiring]
    exact (Machine.run_cons_of hacquire).trans hturn
  · obtain ⟨s', hturn, hphase, hpeer, hdata⟩ :=
      hinv'.executes (hsame.trans hreceiving) hnone app peer data
    rw [hcreated] at hturn hphase hpeer hdata
    refine ⟨es, s', hes, ?_, hphase, hpeer, hdata⟩
    have hnot : s.loop ≠ .acquiring := by simp [hreceiving]
    rw [Machine.run_append, hrun, turn, if_neg hnot]
    exact hturn

/-- The loop ends only when `recv` raises, or with `stop`. Until then it takes the next message,
and every step of a task brings it closer to its end. -/
structure Serving (app : ExecutionHost W) (s : State) : Prop where
  listens : Listens s
  closer : ∀ e s', HandlersReturn s e → e.OfTask → step app s e = some s' →
    remaining s' < remaining s
  serves_next : s.stopping = false → s.closed = false → ServesNext app s

theorem serving_run (hr : app.codec.RoundTrips) (he : app.codec.EncodesErrors)
    (hl : app.codec.EncodesLists) (hi : IdentityReturns app) (hn : 0 < n) {es : List (Event W)}
    (hc : Machine.Meets (step app) HandlersReturn (start n) es)
    (hrun : Machine.run (step app) (start n) es = some s) : Serving app s := by
  have hstep : ∀ u (e : Event W) u', (Inv n u ∧ Listens u) → HandlersReturn u e →
      step app u e = some u' → Inv n u' ∧ Listens u' := by
    intro u e u' hu hhandlers hstep
    exact ⟨(step_moves hu.1 hstep).inv hu.1, listens_step hr he hl hi hu.1 hhandlers hu.2 hstep⟩
  have hstart : Listens (start n) := ⟨fun _ _ => .inl rfl, fun _ _ _ => rfl⟩
  obtain ⟨hinv, hlistens⟩ := Machine.invariant_of_meets hstep ⟨inv_start n, hstart⟩ hc hrun
  exact {
    listens := hlistens
    closer := by
      intro e s' hhandlers htask h
      obtain ⟨t, phase, hcloser⟩ := task_step hr he hl hi hinv hhandlers htask h
      exact hcloser.remaining_lt
    serves_next := fun hstop hclosed =>
      servesNext hr he hl hi hn hinv (hlistens.loop hstop hclosed) }

/-- A task that ended with an exception ends the loop at the next message. -/
theorem reap_raised {peer : String} {data : Bytes} (ht : t ∈ s.owned) (hlt : t < s.created)
    (hphase : s.phases t = .finished true) : (reap (startTask s peer data)).loop = .draining := by
  have hkept : (startTask s peer data).phases t = .finished true := by
    show Function.update s.phases s.created .created t = .finished true
    rw [Function.update_of_ne hlt.ne, hphase]
  have hraised : ∃ k ∈ (startTask s peer data).owned.filter fun k =>
      ((startTask s peer data).phases k).isFinished,
        ((startTask s peer data).phases k).hasRaised := by
    refine ⟨t, Finset.mem_filter.mpr ⟨Finset.mem_insert_of_mem ht, ?_⟩, ?_⟩ <;> rw [hkept] <;> rfl
  simp only [reap, if_pos hraised]

/-- A handler of one peer ends with `CancelledError`, and then the loop waits for the
next message. -/
def cancelledOnce (data : Bytes) (dispatch : Dispatch W) (host : Execution.State W) :
    List (Event W) :=
  [.acquire false, .receive "a" data, .begin 0, .processed 0 dispatch host, .acquire false]

/-- The message of another peer comes. -/
theorem run_cancelled {data : Bytes} {dispatch : Dispatch W} {host : Execution.State W}
    (hp : (process app dispatch (some "a") data host).2 = .cancelled) :
    ∃ s, Machine.run (step app) (start 2)
        (cancelledOnce data dispatch host ++ [.receive "b" data]) = some s ∧
      s.loop = .draining ∧ s.stopping = false ∧ s.closed = false := by
  refine Machine.exists_run_cons rfl ?_
  refine Machine.exists_run_cons (step_receive rfl rfl (by nofun)) ?_
  refine Machine.exists_run_cons rfl ?_
  refine Machine.exists_run_cons (step_processed rfl hp) ?_
  refine Machine.exists_run_cons rfl (Machine.exists_run_cons rfl ⟨_, rfl, ?_⟩)
  refine ⟨reap_raised (t := 0) (Finset.mem_singleton_self 0) (Nat.zero_lt_one) rfl, ?_⟩
  obtain ⟨owned, loop, hreap, -⟩ := reap_eq (startTask _ "b" data)
  rw [hreap]
  exact ⟨rfl, rfl⟩

end MulticastApp

/-- Every handler ends with `CancelledError`. -/
def cancelling : Dispatch Unit := fun _ _ _ w => (w, .cancelled)

theorem process_cancelling (clientId : Option String) :
    (process (leastHost 1) cancelling clientId callData initial).2 = .cancelled := by
  rw [callData, process_of_decode (msgSpecJsonCodec_roundTrips _ _ rfl)]
  rfl

/-- A handler that ends with `CancelledError` ends either loop, with the transport open
and no `stop`. -/
theorem cancelled_handler_ends_loops :
    (∃ s, Machine.run (App.step (leastHost 1)) App.start
        [.receive callData, .processed cancelling initial] = some s ∧
      s.loop = .crashed ∧ s.stopping = false ∧ s.closed = false) ∧
    ∃ s, Machine.run (MulticastApp.step (leastHost 1)) (MulticastApp.start 2)
        (MulticastApp.cancelledOnce callData cancelling initial ++
          [.receive "b" callData]) = some s ∧
      s.loop = .draining ∧ s.stopping = false ∧ s.closed = false :=
  ⟨⟨_, App.run_cancelled (process_cancelling none), rfl, rfl, rfl⟩,
    MulticastApp.run_cancelled (process_cancelling (some "a"))⟩

/-- When handlers, middleware and the identity check return or raise ordinary exceptions,
both loops serve every message until the transport closes or `stop` is called. -/
theorem failures_stay_local {W : Type} (app : ExecutionHost W) (hr : app.codec.RoundTrips)
    (he : app.codec.EncodesErrors) (hl : app.codec.EncodesLists) (hi : IdentityReturns app) :
    (∀ es s, Machine.run (App.step app) App.start es = some s →
      Machine.Meets (App.step app) App.HandlersReturn App.start es → App.Serving app s) ∧
    ∀ maxConcurrency es s, 0 < maxConcurrency →
      Machine.run (MulticastApp.step app) (MulticastApp.start maxConcurrency) es = some s →
      Machine.Meets (MulticastApp.step app) MulticastApp.HandlersReturn
        (MulticastApp.start maxConcurrency) es → MulticastApp.Serving app s :=
  ⟨fun _ _ hrun hc => App.serving_run hr he hl hi hc hrun,
    fun _ _ _ hn hrun hc => MulticastApp.serving_run hr he hl hi hn hc hrun⟩

theorem failing_returns : DispatchReturns failing := failing_answersWithId.returns

/-- Both loops go on after a handler that raises. -/
theorem failures_stay_local_failing :
    (∃ s, Machine.run (App.step (leastHost 1)) App.start
        [.receive noteData, .processed failing Execution.initial, .sent .done] = some s ∧
      App.Serving (leastHost 1) s) ∧
      ∃ s, Machine.run (MulticastApp.step (leastHost 1)) (MulticastApp.start 1)
          (MulticastApp.servedOne noteData failing Execution.initial) = some s ∧
        s.created = 1 ∧ MulticastApp.Serving (leastHost 1) s := by
  obtain ⟨happ, hmulticast⟩ := failures_stay_local (leastHost 1) msgSpecJsonCodec_roundTrips
    msgSpecJsonCodec_encodesErrors msgSpecJsonCodec_encodesLists
    (leastHost_identityReturns Nat.one_pos)
  constructor
  · refine ⟨_, App.run_served (process_noteData none), ?_⟩
    refine happ _ _ (App.run_served (process_noteData none)) ?_
    exact ⟨trivial, fun _ _ => ⟨failing_returns, fun _ _ => ⟨trivial, fun _ _ => trivial⟩⟩⟩
  · obtain ⟨s, hrun, hcreated, -, -⟩ := MulticastApp.run_servedOne (process_noteData (some "a"))
    refine ⟨s, hrun, hcreated, hmulticast 1 _ s Nat.one_pos hrun ?_⟩
    exact ⟨trivial, fun _ _ => ⟨trivial, fun _ _ => ⟨trivial, fun _ _ => ⟨failing_returns,
      fun _ _ => ⟨trivial, fun _ _ => trivial⟩⟩⟩⟩⟩

end WireRpc
