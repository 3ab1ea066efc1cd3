import WireRpc.Execution
import WireRpc.Library.Machine

/-!
# The multicast app

`_listen` takes a slot, receives a message and starts a task for it. A task of a
peer that has another one unfinished is busy and only rejects. The events are the
stretches between two awaits of the loop and of the tasks, in any order. What a
task answers is what `process` makes of its message, for any handlers and any
state of the app they run in.
-/
namespace WireRpc.MulticastApp
open Library Execution

/-- Where `_serve_request` stands: not started, waiting for the lock of its peer,
in `process`, awaiting `send`, or over. `raised` tells that it ended with an
exception. -/
inductive Phase where
  | created
  | waiting
  | executing
  | rejecting
  | sending (response : Bytes)
  | finished (raised : Bool)

def Phase.isFinished : Phase → Bool
  | finished _ => true
  | _ => false

/-- `result()` raises. -/
def Phase.hasRaised : Phase → Bool
  | finished raised => raised
  | _ => false

/-- What a task is started with. -/
structure Task where
  peer : String
  data : Bytes
  lock : ℕ
  busy : Bool

/-- Where `_listen` stands: awaiting a slot, awaiting a message, in its `finally`
block, or over. -/
inductive Loop where
  | acquiring
  | receiving
  | draining
  | ended
  deriving DecidableEq

/-- Tasks and locks are numbered as they are made, and a lock is held by at most one
task. `free` is the value of the semaphore, `holding` a slot that the loop itself has
taken, and `owned` the tasks not yet reaped. `closed`, that `recv` has raised because the
transport closed or failed, and `released`, how often a task gave its slot back, belong to
the history. -/
structure State where
  loop : Loop
  stopping : Bool
  closed : Bool
  free : ℕ
  holding : Bool
  peerLocks : String → Option (ℕ × ℕ)
  locks : ℕ
  holder : ℕ → Option ℕ
  created : ℕ
  tasks : ℕ → Task
  phases : ℕ → Phase
  owned : Finset ℕ
  released : ℕ → ℕ

def start (maxConcurrency : ℕ) : State where
  loop := .acquiring
  stopping := false
  closed := false
  free := maxConcurrency
  holding := false
  peerLocks := fun _ => none
  locks := 0
  holder := fun _ => none
  created := 0
  tasks := fun _ => ⟨"", [], 0, false⟩
  phases := fun _ => .created
  owned := ∅
  released := fun _ => 0

/-- The tasks that are not over. -/
def unfinished (s : State) : Finset ℕ :=
  (Finset.range s.created).filter fun t => (s.phases t).isFinished = false

/-- The unfinished tasks of a peer. -/
def unfinishedOf (s : State) (peer : String) : Finset ℕ :=
  (unfinished s).filter fun t => (s.tasks t).peer = peer

/-- `acquire` with `noticed` is a slot that comes in the same moment as `stop`.
`processed` carries the handlers of the task and the state they find. `cancel` is the
end of the shutdown deadline, when every task has started. -/
inductive Event (W : Type) where
  | acquire (noticed : Bool)
  | receive (peer : String) (data : Bytes)
  | noticeStop
  | closeTransport
  | failTransport
  | stop
  | begin (t : ℕ)
  | grant (t : ℕ)
  | processed (t : ℕ) (dispatch : Dispatch W) (host : Execution.State W)
  | sent (t : ℕ)
  | cancel (t : ℕ)
  | drained

def setPhase (s : State) (t : ℕ) (phase : Phase) : State :=
  { s with phases := Function.update s.phases t phase }

/-- The `finally` block of `_serve_request`. -/
def finish (s : State) (t : ℕ) (raised : Bool) : State :=
  let task := s.tasks t
  match s.peerLocks task.peer with
  | none => setPhase s t (.finished true) -- `KeyError`
  | some (_, count) =>
    { setPhase s t (.finished raised) with
      peerLocks := Function.update s.peerLocks task.peer
        (if count = 1 then none else some (task.lock, count - 1))
      free := s.free + 1
      released := Function.update s.released t (s.released t + 1) }

/-- The end of `async with lock`. -/
def unlock (s : State) (t : ℕ) : State :=
  { s with holder := Function.update s.holder (s.tasks t).lock none }

/-- After `process`: the response is sent, or nothing is to be sent. -/
def settle (s : State) (t : ℕ) : Outcome (Option Bytes) → State
  | .value none => finish s t false
  | .value (some response) => setPhase s t (.sending response)
  | .raised _ => finish s t true
  | .cancelled => finish s t true

/-- The dispatch function of a busy task. -/
def reject {W : Type} : Dispatch W := fun _ _ _ w => (w, .raised .peerBusy)

/-- The task asks for the lock of its peer, or rejects. -/
def begin (s : State) (t : ℕ) : State :=
  if (s.tasks t).busy then setPhase s t .rejecting
  else
    match s.holder (s.tasks t).lock with
    | none =>
      { setPhase s t .executing with
        holder := Function.update s.holder (s.tasks t).lock (some t) }
    | some _ => setPhase s t .waiting

/-- Finished tasks are dropped. The first one that ended with an exception raises it
again, and the loop is over. -/
def reap (s : State) : State :=
  let done := s.owned.filter fun t => (s.phases t).isFinished
  if ∃ t ∈ done, (s.phases t).hasRaised = true then { s with loop := .draining }
  else
    { s with
      owned := s.owned \ done
      loop := if s.stopping then .draining else .acquiring }

/-- A message is admitted: its task takes over the slot of the loop. -/
def startTask (s : State) (peer : String) (data : Bytes) : State :=
  let entry := (s.peerLocks peer).getD (s.locks, 0)
  let task : Task :=
    { peer := peer
      data := data
      lock := entry.1
      busy := decide (0 < entry.2) }
  { s with
    locks := s.locks + 1
    peerLocks := Function.update s.peerLocks peer (some (entry.1, entry.2 + 1))
    created := s.created + 1
    tasks := Function.update s.tasks s.created task
    phases := Function.update s.phases s.created .created
    owned := insert s.created s.owned
    holding := false }

variable {W : Type}

def step (app : ExecutionHost W) (s : State) : Event W → Option State
  | .acquire noticed =>
    if s.loop = .acquiring ∧ 0 < s.free ∧ (noticed = true → s.stopping = true) then
      some { s with
        free := s.free - 1
        holding := true
        loop := if noticed then .draining else .receiving }
    else none
  | .receive peer data => if s.loop = .receiving then some (reap (startTask s peer data)) else none
  | .noticeStop =>
    if s.stopping = true ∧ s.loop = .acquiring then some { s with loop := .draining }
    else if s.stopping = true ∧ s.loop = .receiving then
      some { s with loop := .draining, free := s.free + 1, holding := false }
    else none
  | .closeTransport =>
    if s.loop = .receiving then
      some { s with loop := .draining, closed := true, free := s.free + 1, holding := false }
    else none
  -- any other exception of `recv` leaves the loop with its slot
  | .failTransport =>
    if s.loop = .receiving then some { s with loop := .draining, closed := true } else none
  | .stop => some { s with stopping := true }
  | .begin t =>
    if t < s.created then
      match s.phases t with
      | .created => some (begin s t)
      | _ => none
    else none
  | .grant t =>
    match s.phases t, s.holder (s.tasks t).lock with
    | .waiting, none =>
      some { setPhase s t .executing with
        holder := Function.update s.holder (s.tasks t).lock (some t) }
    | _, _ => none
  | .processed t dispatch host =>
    match s.phases t with
    | .executing => some (settle (unlock s t) t
        (process app dispatch (some (s.tasks t).peer) (s.tasks t).data host).2)
    | .rejecting => some (settle s t
        (process app reject (some (s.tasks t).peer) (s.tasks t).data host).2)
    | _ => none
  -- a `send` that raises is counted as a failure
  | .sent t =>
    match s.phases t with
    | .sending _ => some (finish s t false)
    | _ => none
  | .cancel t =>
    if s.loop = .draining then
      match s.phases t with
      | .created | .finished _ => none
      | .executing => some (finish (unlock s t) t true)
      | _ => some (finish s t true)
    else none
  | .drained =>
    if s.loop = .draining ∧ unfinished s = ∅ then some { s with loop := .ended, owned := ∅ }
    else none

/-- The ways through `step`. -/
inductive Way (app : ExecutionHost W) (s : State) : Event W → State → Prop where
  | acquired (noticed : Bool) (h : s.loop = .acquiring) (hfree : 0 < s.free)
      (hnoticed : noticed = true → s.stopping = true) : Way app s (.acquire noticed) { s with
        free := s.free - 1
        holding := true
        loop := if noticed then .draining else .receiving }
  | received (peer : String) (data : Bytes) (h : s.loop = .receiving) :
      Way app s (.receive peer data) (reap (startTask s peer data))
  | noticedAcquiring (hstop : s.stopping = true) (h : s.loop = .acquiring) :
      Way app s .noticeStop { s with loop := .draining }
  | noticedReceiving (hstop : s.stopping = true) (h : s.loop = .receiving) :
      Way app s .noticeStop { s with loop := .draining, free := s.free + 1, holding := false }
  | transportClosed (h : s.loop = .receiving) : Way app s .closeTransport { s with
      loop := .draining, closed := true, free := s.free + 1, holding := false }
  | transportFailed (h : s.loop = .receiving) :
      Way app s .failTransport { s with loop := .draining, closed := true }
  | stopped : Way app s .stop { s with stopping := true }
  | begun (t : ℕ) (hlt : t < s.created) (h : s.phases t = .created) :
      Way app s (.begin t) (begin s t)
  | granted (t : ℕ) (h : s.phases t = .waiting) (hfree : s.holder (s.tasks t).lock = none) :
      Way app s (.grant t) { setPhase s t .executing with
        holder := Function.update s.holder (s.tasks t).lock (some t) }
  | executed (t : ℕ) (dispatch : Dispatch W) (host : Execution.State W)
      (h : s.phases t = .executing) :
      Way app s (.processed t dispatch host) (settle (unlock s t) t
        (process app dispatch (some (s.tasks t).peer) (s.tasks t).data host).2)
  | rejected (t : ℕ) (dispatch : Dispatch W) (host : Execution.State W)
      (h : s.phases t = .rejecting) :
      Way app s (.processed t dispatch host) (settle s t
        (process app reject (some (s.tasks t).peer) (s.tasks t).data host).2)
  | sent (t : ℕ) (response : Bytes) (h : s.phases t = .sending response) :
      Way app s (.sent t) (finish s t false)
  | cancelledExecuting (t : ℕ) (hloop : s.loop = .draining) (h : s.phases t = .executing) :
      Way app s (.cancel t) (finish (unlock s t) t true)
  | cancelled (t : ℕ) (hloop : s.loop = .draining) (hcreated : s.phases t ≠ .created)
      (hfinished : (s.phases t).isFinished = false) (hexecuting : s.phases t ≠ .executing) :
      Way app s (.cancel t) (finish s t true)
  | drained (h : s.loop = .draining) (hnone : unfinished s = ∅) :
      Way app s .drained { s with loop := .ended, owned := ∅ }

theorem step_way {app : ExecutionHost W} {s s' : State} {e : Event W}
    (h : step app s e = some s') : Way app s e s' := by
  cases e with
  | acquire noticed =>
    obtain ⟨⟨hloop, hfree, hnoticed⟩, h⟩ := Option.ite_none_right_eq_some.mp h
    exact Option.some.inj h ▸ .acquired noticed hloop hfree hnoticed
  | receive peer data =>
    obtain ⟨hloop, h⟩ := Option.ite_none_right_eq_some.mp h
    exact Option.some.inj h ▸ .received peer data hloop
  | noticeStop =>
    simp only [step] at h
    split_ifs at h with hacquiring hreceiving
    · exact Option.some.inj h ▸ .noticedAcquiring hacquiring.1 hacquiring.2
    · exact Option.some.inj h ▸ .noticedReceiving hreceiving.1 hreceiving.2
  | closeTransport =>
    obtain ⟨hloop, h⟩ := Option.ite_none_right_eq_some.mp h
    exact Option.some.inj h ▸ .transportClosed hloop
  | failTransport =>
    obtain ⟨hloop, h⟩ := Option.ite_none_right_eq_some.mp h
    exact Option.some.inj h ▸ .transportFailed hloop
  | stop => exact Option.some.inj h ▸ .stopped
  | begin t =>
    obtain ⟨hlt, h⟩ := Option.ite_none_right_eq_some.mp h
    split at h
    case h_1 hphase => exact Option.some.inj h ▸ .begun t hlt hphase
    case h_2 => cases h
  | grant t =>
    simp only [step] at h
    split at h
    case h_1 hphase hholder => exact Option.some.inj h ▸ .granted t hphase hholder
    case h_2 => cases h
  | processed t dispatch host =>
    simp only [step] at h
    split at h
    case h_1 hphase => exact Option.some.inj h ▸ .executed t dispatch host hphase
    case h_2 hphase => exact Option.some.inj h ▸ .rejected t dispatch host hphase
    case h_3 => cases h
  | sent t =>
    simp only [step] at h
    split at h
    case h_1 response hphase => exact Option.some.inj h ▸ .sent t response hphase
    case h_2 => cases h
  | cancel t =>
    obtain ⟨hloop, h⟩ := Option.ite_none_right_eq_some.mp h
    cases hphase : s.phases t with
    | created | finished raised => simp [hphase] at h
    | executing =>
      simp only [hphase] at h
      exact Option.some.inj h ▸ .cancelledExecuting t hloop hphase
    | waiting | rejecting | sending response =>
      simp only [hphase] at h
      refine Option.some.inj h ▸ .cancelled t hloop ?_ ?_ ?_ <;> simp [hphase, Phase.isFinished]
  | drained =>
    obtain ⟨⟨hloop, hnone⟩, h⟩ := Option.ite_none_right_eq_some.mp h
    exact Option.some.inj h ▸ .drained hloop hnone

end WireRpc.MulticastApp
