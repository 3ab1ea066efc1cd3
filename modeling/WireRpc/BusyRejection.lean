import WireRpc.AccessLog
import WireRpc.PeerExclusion

/-!
# Busy rejections

A request is rejected when its peer has an unfinished one, and that may itself be
a rejected one. A call that finds a rejected request of its peer without the one that
is executed is answered with -32002 although nothing executes. In a run without such
calls every -32002 is for an execution.
-/
namespace WireRpc.MulticastApp
open Library Execution

section
variable {W : Type}

/-- A call whose reply has the code -32002 came while a request of its peer that had been
admitted for execution was unfinished. -/
def RejectsOverlapping (app : ExecutionHost W) (maxConcurrency : ℕ) (es : List (Event W)) : Prop :=
  ∀ before peer data during after, es = before ++ .receive peer data :: (during ++ after) →
    ∀ s₀ s, Machine.run (step app) (start maxConcurrency) before = some s₀ →
      Machine.run (step app) s₀ (.receive peer data :: during) = some s →
        ∀ reply, s.phases s₀.created = .sending reply → AnswersWith app.codec (-32002) reply →
          ∃ t ∈ unfinishedOf s₀ peer, (s₀.tasks t).busy = false

/-- The message holds a call. -/
def HasCall (c : Codec) (data : Bytes) : Prop :=
  ∃ envelope, c.decode data = some envelope ∧ ∃ item ∈ itemsOf envelope,
    ∃ request, validate item = some request ∧ request.id.isNone = false

/-- Neither the identity check nor a handler answers that the peer is busy. -/
structure NeverBusy (app : ExecutionHost W) (dispatch : Dispatch W) : Prop where
  identity : ∀ getPrincipal, app.getPrincipal = some getPrincipal → ∀ clientId deadline w,
    (getPrincipal clientId deadline w).2 ≠ .raised .peerBusy
  handlers : ∀ context request deadline w, responseOutcome
    (answered app request (dispatch context request deadline w).2) ≠ .code (-32002)

/-- No call comes while a rejected request of its peer is unfinished and none that was
admitted for execution is; and what is executed does not itself answer that the peer is
busy. -/
def Attended (app : ExecutionHost W) (s : State) : Event W → Prop
  | .receive peer data => HasCall app.codec data → ∀ t ∈ unfinishedOf s peer,
      (s.tasks t).busy = true → ∃ t' ∈ unfinishedOf s peer, (s.tasks t').busy = false
  | .processed t dispatch _ => (s.tasks t).busy = false → NeverBusy app dispatch
  | _ => True

/-- A reply on its way is what `process` made of the message of the task. -/
def Answering (app : ExecutionHost W) (task : Task) : Phase → Prop
  | .rejecting => task.busy = true
  | .sending reply => ∃ dispatch host,
      (process app dispatch (some task.peer) task.data host).2 = .value (some reply) ∧
        (task.busy = false → NeverBusy app dispatch)
  | _ => True

end

section
variable {W : Type} {app : ExecutionHost W} {n : ℕ} {s s' : State} {e : Event W}

theorem NeverBusy.scope {dispatch : Dispatch W} (h : NeverBusy app dispatch) (deadline : ℕ)
    (clientId : Option String) (request : RawWireRequest) (s : Execution.State W) :
    responseOutcome (answered app request
      (Execution.scope app dispatch deadline clientId request s).2) ≠ .code (-32002) := by
  unfold Execution.scope
  cases hp : principalOf app deadline clientId s with
  | mk t outcome =>
    cases outcome with
    | value principal => exact h.handlers _ _ _ _
    | cancelled =>
      simp [andThen, answered, responseOutcome, errorFor, WireError.code, ErrorKind.code]
    | raised e =>
      have hne : e ≠ .peerBusy := by
        rintro rfl
        unfold principalOf at hp
        split at hp
        · cases (Prod.mk.inj hp).2
        · exact h.identity _ ‹_› _ _ _ (Prod.mk.inj hp).2
      cases e with
      | peerBusy => exact absurd rfl hne
      | _ => simp [andThen, answered, responseOutcome, errorFor, WireError.code, ErrorKind.code]

/-- An answer -32002 comes from a call, and from a handler if the request was executed. -/
theorem Answering.busy (hr : app.codec.RoundTrips) {task : Task} {reply : Bytes}
    (h : Answering app task (.sending reply)) (hreply : AnswersWith app.codec (-32002) reply) :
    HasCall app.codec task.data ∧ task.busy = true := by
  obtain ⟨dispatch, host, hprocess, hnever⟩ := h
  have hcourse : Course app dispatch (some task.peer) task.data host
    (messageTurns app dispatch (some task.peer) task.data host)
    (process app dispatch (some task.peer) task.data host) := process_course task.data host
  obtain ⟨t, ht, request, hvalid, hcall, hcode⟩ :=
    hcourse.answersWith hr hprocess hreply (by decide)
  constructor
  · cases hdec : app.codec.decode task.data with
    | none => simp [messageTurns, hdec] at ht
    | some envelope =>
      have hitems := (hcourse.reached hdec).1.subset (List.mem_map_of_mem ht)
      exact ⟨envelope, hdec, t.item, hitems, request, hvalid, hcall⟩
  · by_contra hbusy
    exact (hnever (Bool.eq_false_iff.mpr hbusy)).scope _ _ _ _ hcode

/-- No step but a message makes a task, and none changes what a task was started with. -/
theorem Moves.tasks (hm : Moves s e s') (he : ∀ peer data, e ≠ .receive peer data) :
    s'.created = s.created ∧ s'.tasks = s.tasks := by
  cases hm with
  | loop _ hsame _ _ _ => exact ⟨hsame.created, hsame.tasks⟩
  | goes t phase holder => exact ⟨rfl, rfl⟩
  | ends t raised holder =>
    exact ⟨(finish_sameLoop s t raised).created, (finish_sameLoop s t raised).tasks⟩
  | admits peer data _ => exact absurd rfl (he peer data)

theorem Moves.task_kept (hm : Moves s e s') {t : ℕ} (ht : t < s.created) :
    t < s'.created ∧ s'.tasks t = s.tasks t := by
  by_cases he : ∀ peer data, e ≠ .receive peer data
  · obtain ⟨hcreated, htasks⟩ := hm.tasks he
    rw [hcreated, htasks]
    exact ⟨ht, rfl⟩
  · cases hm with
    | admits peer data _ =>
      obtain ⟨hcreated, htasks⟩ := admitted_tasks s peer data
      rw [hcreated, htasks, Function.update_of_ne ht.ne]
      exact ⟨ht.trans (Nat.lt_succ_self _), rfl⟩
    | loop he' => exact absurd he' he
    | goes _ _ _ he' => exact absurd he' he
    | ends _ _ _ he' => exact absurd he' he

/-- What a task was started with stays for the rest of the run. -/
theorem run_task_kept {es : List (Event W)} {t : ℕ} (h : Inv n s) (ht : t < s.created)
    (hrun : Machine.run (step app) s es = some s') : s'.tasks t = s.tasks t := by
  have hkept : Inv n s' ∧ t < s'.created ∧ s'.tasks t = s.tasks t := by
    refine Machine.invariant (P := fun u => Inv n u ∧ t < u.created ∧ u.tasks t = s.tasks t)
      ?_ ⟨h, ht, rfl⟩ hrun
    rintro u e u' ⟨hu, hlt, htask⟩ hstep
    have hm := step_moves hu hstep
    obtain ⟨hlt', htask'⟩ := hm.task_kept hlt
    exact ⟨hm.inv hu, hlt', htask'.trans htask⟩
  exact hkept.2.2

/-- Every reply on its way is what `process` made of a message. -/
def Answers (app : ExecutionHost W) (s : State) : Prop :=
  ∀ t, Answering app (s.tasks t) (s.phases t)

theorem Answers.setPhase (h : Answers app s) {t : ℕ} {phase : Phase}
    (hphase : Answering app (s.tasks t) phase) : Answers app (MulticastApp.setPhase s t phase) :=
  (Function.forall_update_iff s.phases fun k phase => Answering app (s.tasks k) phase).mpr
    ⟨hphase, fun k _ => h k⟩

theorem Answers.finish (h : Answers app s) (t : ℕ) (raised : Bool) :
    Answers app (MulticastApp.finish s t raised) := by
  cases hentry : s.peerLocks (s.tasks t).peer with
  | none =>
    rw [finish_none hentry]
    exact h.setPhase trivial
  | some entry =>
    rw [finish_some hentry]
    exact h.setPhase trivial

theorem Answers.settle (h : Answers app s) {t : ℕ} {outcome : Outcome (Option Bytes)}
    (hreply : ∀ reply, outcome = .value (some reply) →
      Answering app (s.tasks t) (.sending reply)) :
    Answers app (MulticastApp.settle s t outcome) := by
  cases outcome with
  | value response =>
    cases response with
    | none => exact h.finish t false
    | some reply => exact h.setPhase (hreply reply rfl)
  | raised e => exact h.finish t true
  | cancelled => exact h.finish t true

theorem Answers.admits (h : Answers app s) (peer : String) (data : Bytes) :
    Answers app (reap (startTask s peer data)) := by
  obtain ⟨owned, loop, hreap, -⟩ := reap_eq (startTask s peer data)
  rw [hreap]
  intro k
  show Answering app (Function.update s.tasks s.created _ k)
    (Function.update s.phases s.created .created k)
  by_cases hk : k = s.created
  · rw [hk, Function.update_self (f := s.phases)]
    trivial
  · rw [Function.update_of_ne hk, Function.update_of_ne hk]
    exact h k

theorem Answers.step (h : Answers app s) (hinv : Inv n s) (hattended : Attended app s e)
    (hstep : MulticastApp.step app s e = some s') : Answers app s' := by
  cases step_way hstep with
  | received peer data hloop => exact h.admits peer data
  | begun t hlt hphase =>
    rw [hinv.begins hlt hphase]
    split_ifs with hbusy
    · exact h.setPhase hbusy
    · exact h.setPhase trivial
  | granted t hphase hfree => exact h.setPhase trivial
  | executed t dispatch host hphase =>
    refine Answers.settle (s := unlock s t) h fun reply hreply => ?_
    exact ⟨dispatch, host, hreply, hattended⟩
  | rejected t dispatch host hphase =>
    have hbusy : Answering app (s.tasks t) (s.phases t) := h t
    rw [hphase] at hbusy
    refine h.settle fun reply hreply => ⟨reject, host, hreply, fun hfree => ?_⟩
    exact absurd (hfree.symm.trans hbusy) (by decide)
  | sent t response hphase => exact h.finish t false
  | cancelledExecuting t hloop hphase => exact Answers.finish (s := unlock s t) h t true
  | cancelled t hloop hcreated hfinished hexecuting => exact h.finish t true
  | _ => exact h

theorem answers_run {es : List (Event W)}
    (hmeets : Machine.Meets (step app) (Attended app) (start n) es)
    (hrun : Machine.run (step app) (start n) es = some s) : Answers app s := by
  have h : Inv n s ∧ Answers app s := by
    refine Machine.invariant_of_meets (P := fun u => Inv n u ∧ Answers app u) ?_
      ⟨inv_start n, fun _ => trivial⟩ hmeets hrun
    rintro u e u' ⟨hu, hanswers⟩ hattended hstep
    exact ⟨(step_moves hu hstep).inv hu, hanswers.step hu hattended hstep⟩
  exact h.2

end

/-- In a run in which no call finds a rejected request of its peer alone, every -32002 answers
a call that overlaps an execution. -/
theorem rejections_overlap {W : Type} (app : ExecutionHost W) (hr : app.codec.RoundTrips)
    (maxConcurrency : ℕ) (es : List (Event W))
    (hmeets : Machine.Meets (step app) (Attended app) (start maxConcurrency) es) :
    RejectsOverlapping app maxConcurrency es := by
  rintro before peer data during after rfl s₀ s hbefore hrun reply hphase hreply
  have hinv : Inv maxConcurrency s₀ := inv_run hbefore
  -- the condition at the arrival of the call
  have harrives : Attended app s₀ (.receive peer data) := (hmeets.right hbefore).1
  -- the task of the call, then and when it is answered
  obtain ⟨s₁, hstep, hduring⟩ := Option.bind_eq_some_iff.mp hrun
  have hadmits : s₁ = reap (startTask s₀ peer data) := by
    cases step_way hstep
    rfl
  obtain ⟨hcreated, htasks⟩ := admitted_tasks s₀ peer data
  have htask : s.tasks s₀.created = (startTask s₀ peer data).tasks s₀.created := by
    have hkept := run_task_kept ((step_moves hinv hstep).inv hinv)
      (by rw [hadmits, hcreated]; exact Nat.lt_succ_self _) hduring
    rw [hkept, hadmits, htasks, Function.update_self]
  have hprefix : Machine.Meets (step app) (Attended app) (start maxConcurrency)
      (before ++ .receive peer data :: during) := by
    rw [← List.cons_append, ← List.append_assoc] at hmeets
    exact hmeets.left
  have hwhole : Machine.run (step app) (start maxConcurrency)
      (before ++ .receive peer data :: during) = some s := by
    rw [Machine.run_append, hbefore, Option.bind_some, hrun]
  have hanswer : Answering app (s.tasks s₀.created) (s.phases s₀.created) :=
    answers_run hprefix hwhole s₀.created
  rw [hphase] at hanswer
  obtain ⟨hcall, hbusy⟩ := hanswer.busy hr hreply
  rw [htask] at hcall hbusy
  have hdata : ((startTask s₀ peer data).tasks s₀.created).data = data := by
    show (Function.update s₀.tasks s₀.created _ s₀.created).data = data
    rw [Function.update_self]
  rw [hdata] at hcall
  obtain ⟨t, ht⟩ := (hinv.busy_iff peer data).mp hbusy
  cases hrejected : (s₀.tasks t).busy with
  | false => exact ⟨t, ht, hrejected⟩
  | true => exact harrives hcall t ht hrejected

theorem step_rejected {W : Type} {app : ExecutionHost W} {s : State} {t : ℕ}
    {dispatch : Dispatch W} {host : Execution.State W} {outcome : Outcome (Option Bytes)}
    (hphase : s.phases t = .rejecting)
    (hp : (process app reject (some (s.tasks t).peer) (s.tasks t).data host).2 = outcome) :
    step app s (.processed t dispatch host) = some (settle s t outcome) := by
  simp only [step, hphase, hp]

section
variable {W : Type} {app : ExecutionHost W} {s : State} {note call reply : Bytes}
  {dispatch : Dispatch W} {host : Execution.State W}

/-- The task of a request is served as far as its rejection. -/
def rejection (t : ℕ) (dispatch : Dispatch W) (host : Execution.State W) : List (Event W) :=
  [.begin t, .processed t dispatch host]

/-- As long as the lock table counts a request of its peer, a call is rejected. -/
theorem run_rejection (dispatch : Dispatch W) {peer : String} (hloop : s.loop = .receiving)
    (hentry : ∃ lock count, s.peerLocks peer = some (lock, count + 1))
    (hcall : (process app reject (some peer) call host).2 = .value (some reply)) :
    ∃ s', Machine.run (step app) s (.receive peer call :: rejection s.created dispatch host) =
        some s' ∧ s'.phases s.created = .sending reply := by
  obtain ⟨lock, count, hentry⟩ := hentry
  have hreceive : step app s (.receive peer call) = some (reap (startTask s peer call)) := by
    simp only [step, hloop, if_true]
  have htask : (startTask s peer call).tasks s.created = ⟨peer, call, lock, true⟩ := by
    show Function.update s.tasks s.created _ s.created = _
    rw [Function.update_self]
    simp [hentry]
  obtain ⟨owned, loop, hreap, -⟩ := reap_eq (startTask s peer call)
  set u : State := { startTask s peer call with owned := owned, loop := loop } with hu
  rw [hreap] at hreceive
  have hphase : u.phases s.created = .created := Function.update_self ..
  have htasks : u.tasks s.created = ⟨peer, call, lock, true⟩ := htask
  have hbegin : step app u (.begin s.created) = some (setPhase u s.created .rejecting) := by
    have hlt : s.created < u.created := Nat.lt_succ_self s.created
    simp only [step, hlt, if_true, hphase, MulticastApp.begin, htasks]
  have hprocessed : step app (setPhase u s.created .rejecting)
      (.processed s.created dispatch host) = some
        (settle (setPhase u s.created .rejecting) s.created (.value (some reply))) := by
    apply step_rejected (Function.update_self ..)
    rw [show (setPhase u s.created .rejecting).tasks s.created = _ from htask]
    exact hcall
  refine Machine.exists_run_cons hreceive (Machine.exists_run_cons hbegin ?_)
  exact Machine.exists_run_cons hprocessed ⟨_, rfl, Function.update_self ..⟩

theorem step_acquire (hloop : s.loop = .acquiring) (hfree : 0 < s.free) :
    step app s (.acquire false) =
      some { s with free := s.free - 1, holding := true, loop := .receiving } := by
  simp only [step, hloop, hfree]
  rfl

/-- A message is admitted while no task is over. -/
theorem step_receive {peer : String} {data : Bytes} (hloop : s.loop = .receiving)
    (hstop : s.stopping = false) (hquiet : ∀ t ∈ s.owned, (s.phases t).isFinished = false) :
    step app s (.receive peer data) = some { startTask s peer data with loop := .acquiring } := by
  have hnone : ((startTask s peer data).owned.filter fun t =>
      ((startTask s peer data).phases t).isFinished) = ∅ := by
    refine Finset.filter_eq_empty_iff.mpr fun t ht => ?_
    show ¬ (Function.update s.phases s.created .created t).isFinished = true
    by_cases hk : t = s.created
    · rw [hk, Function.update_self]
      nofun
    · rw [Function.update_of_ne hk, hquiet t (Finset.mem_of_mem_insert_of_ne ht hk)]
      nofun
  have hreap : reap (startTask s peer data) =
      { startTask s peer data with loop := .acquiring } := by
    simp only [reap, hnone]
    simp [startTask, hstop]
  simp only [step, hloop, if_true, hreap]

/-- The execution of task 0 ends in silence while task 1 sends its rejection. -/
theorem run_executed {peer : String} {lock : ℕ} (hphase : s.phases 0 = .executing)
    (hphase' : s.phases 1 = .rejecting) (htask : s.tasks 0 = ⟨peer, note, lock, false⟩)
    (htask' : s.tasks 1 = ⟨peer, call, lock, true⟩)
    (hentry : s.peerLocks peer = some (lock, 2))
    (hnote : (process app dispatch (some peer) note host).2 = .value none)
    (hcall : (process app reject (some peer) call host).2 = .value (some reply)) :
    ∃ s', Machine.run (step app) s [.processed 1 dispatch host, .processed 0 dispatch host] =
        some s' ∧
      s'.loop = s.loop ∧ s'.free = s.free + 1 ∧ s'.created = s.created ∧
      s'.peerLocks peer = some (lock, 1) ∧ s'.tasks = s.tasks ∧
      s'.phases = Function.update (Function.update s.phases 1 (.sending reply)) 0
        (.finished false) := by
  have hrejected : step app s (.processed 1 dispatch host) =
      some (settle s 1 (.value (some reply))) := by
    apply step_rejected hphase'
    rw [htask']
    exact hcall
  refine Machine.exists_run_cons hrejected ?_
  set r := setPhase s 1 (.sending reply) with hr
  have hphase₀ : r.phases 0 = .executing := by
    show Function.update s.phases 1 (.sending reply) 0 = .executing
    rw [Function.update_of_ne zero_ne_one, hphase]
  have hpeer : ((unlock r 0).tasks 0).peer = peer := congrArg Task.peer htask
  have hentry₀ : (unlock r 0).peerLocks ((unlock r 0).tasks 0).peer = some (lock, 2) := by
    rw [hpeer]
    exact hentry
  have hprocessed : step app r (.processed 0 dispatch host) =
      some (settle (unlock r 0) 0 (.value none)) := by
    apply step_processed hphase₀
    rw [show r.tasks 0 = _ from htask]
    exact hnote
  refine Machine.exists_run_cons hprocessed ⟨_, rfl, ?_⟩
  have hsettle : settle (unlock r 0) 0 (.value none) = finish (unlock r 0) 0 false := rfl
  rw [hsettle, finish_some hentry₀, hpeer]
  refine ⟨rfl, rfl, rfl, ?_, rfl, rfl⟩
  show Function.update s.peerLocks peer (some ((s.tasks 0).lock, 2 - 1)) peer = some (lock, 1)
  rw [Function.update_self, htask]

/-- Task 0 executes while task 1 is about to be rejected. -/
def overlapping (note call : Bytes) : List (Event W) :=
  [.acquire false, .receive "a" note, .begin 0, .acquire false, .receive "a" call, .begin 1]

theorem run_overlapping (app : ExecutionHost W) (note call : Bytes) : ∃ s,
    Machine.run (step app) (start 2) (overlapping note call) = some s ∧
    s.loop = .acquiring ∧ s.free = 0 ∧ s.created = 2 ∧ s.peerLocks "a" = some (0, 2) ∧
    s.tasks 0 = ⟨"a", note, 0, false⟩ ∧ s.tasks 1 = ⟨"a", call, 0, true⟩ ∧
    s.phases 0 = .executing ∧ s.phases 1 = .rejecting := by
  refine Machine.exists_run_cons rfl ?_
  refine Machine.exists_run_cons (step_receive rfl rfl (by nofun)) ?_
  refine Machine.exists_run_cons rfl (Machine.exists_run_cons rfl ?_)
  refine Machine.exists_run_cons (step_receive rfl rfl fun t ht => ?_) ?_
  · obtain rfl := Finset.mem_singleton.mp ht
    rfl
  exact Machine.exists_run_cons rfl ⟨_, rfl, rfl, rfl, rfl, rfl, rfl, rfl, rfl, rfl⟩

end

/-- The error of a busy peer, with the id of the call. -/
def busyReply : Bytes :=
  Json.encode (WireResponse.errorJson
    ⟨.server (-32002), "Peer already has an active request", .null⟩ (.int 1))

theorem process_call_reject (peer : String) :
    (process (leastHost 1) reject (some peer) callData Execution.initial).2 =
      .value (some busyReply) := by
  rw [callData, process_of_decode (msgSpecJsonCodec_roundTrips _ _ rfl)]
  rfl

theorem answersWith_busyReply : AnswersWith (leastHost 1).codec (-32002) busyReply :=
  ⟨_, msgSpecJsonCodec_roundTrips _ _ rfl, _, List.mem_singleton_self _, rfl⟩

/-- The execution ends before the rejection is sent, and the loop waits for a message. -/
def orphaning : List (Event Unit) :=
  overlapping noteData callData ++ ([.processed 1 failing Execution.initial,
    .processed 0 failing Execution.initial] ++ [.acquire false])

/-- A call is rejected although no request of its peer that was admitted for execution is
unfinished: the only unfinished one is rejected itself. -/
theorem rejected_without_execution : ¬ RejectsOverlapping (leastHost 1) 2
    (orphaning ++ .receive "a" callData :: rejection 2 failing Execution.initial) := by
  intro h
  obtain ⟨s, hrun, hloop, hfree, hcreated, hentry, htask, htask', hphase, hphase'⟩ :=
    run_overlapping (leastHost 1) noteData callData
  obtain ⟨u, hover, hloop', hfree', hcreated', hentry', htasks, hphases⟩ :=
    run_executed hphase hphase' htask htask' hentry (process_noteData (some "a"))
      (process_call_reject "a")
  set r : State := { u with free := u.free - 1, holding := true, loop := .receiving } with hr
  have hacquire : step (leastHost 1) u (.acquire false) = some r :=
    step_acquire (hloop'.trans hloop) (by omega)
  have hbefore : Machine.run (step (leastHost 1)) (start 2) orphaning = some r := by
    rw [orphaning, Machine.run_append, hrun, Option.bind_some, Machine.run_append, hover,
      Option.bind_some, Machine.run_cons_of hacquire, Machine.run_nil]
  obtain ⟨s', hrun', hsending⟩ := run_rejection (s := r) failing rfl ⟨0, 0, hentry'⟩
    (process_call_reject "a")
  have htwo : r.created = 2 := hcreated'.trans hcreated
  rw [htwo] at hrun' hsending
  obtain ⟨t, ht, hfree⟩ := h _ "a" callData (rejection 2 failing Execution.initial) []
    (by rw [List.append_nil]) r s' hbefore hrun' busyReply (by rw [htwo]; exact hsending)
    answersWith_busyReply
  obtain ⟨hlt, hunfinished⟩ := mem_unfinished.mp (mem_unfinishedOf.mp ht).1
  rw [htwo] at hlt
  obtain rfl | rfl : t = 0 ∨ t = 1 := by omega
  · rw [show r.phases = _ from hphases, Function.update_self] at hunfinished
    cases hunfinished
  · rw [show r.tasks = _ from htasks, htask'] at hfree
    cases hfree

/-- The rejected request comes while the other one executes. -/
theorem attended_overlapping (app : ExecutionHost Unit) (note call : Bytes) :
    Machine.Meets (step app) (Attended app) (start 2) (overlapping note call) := by
  have hnone : ∀ t, t ∉ unfinishedOf (start 2) "a" := fun t ht =>
    absurd (mem_unfinished.mp (mem_unfinishedOf.mp ht).1).1 (Nat.not_lt_zero t)
  refine Machine.meets_cons_of trivial rfl ?_
  refine Machine.meets_cons_of (fun _ t ht => absurd ht (hnone t))
    (step_receive rfl rfl (by nofun)) ?_
  refine Machine.meets_cons_of trivial rfl (Machine.meets_cons_of trivial rfl ?_)
  refine Machine.meets_cons_of (fun _ t ht hbusy => ?_) (step_receive rfl rfl fun t ht => ?_) ?_
  · obtain rfl : t = 0 := Nat.lt_one_iff.mp (mem_unfinished.mp (mem_unfinishedOf.mp ht).1).1
    cases hbusy
  · obtain rfl := Finset.mem_singleton.mp ht
    rfl
  exact Machine.meets_cons_of trivial rfl trivial

/-- A call is rejected while another request of its peer executes. -/
theorem rejections_overlap_executing : ∃ s, Machine.run (step (leastHost 1)) (start 2)
      (overlapping noteData callData ++ [.processed 1 failing Execution.initial]) = some s ∧
    s.phases 1 = .sending busyReply ∧ RejectsOverlapping (leastHost 1) 2
      (overlapping noteData callData ++ [.processed 1 failing Execution.initial]) := by
  obtain ⟨s, hrun, -, -, -, -, -, htask', -, hphase'⟩ :=
    run_overlapping (leastHost 1) noteData callData
  have hrejected : step (leastHost 1) s (.processed 1 failing Execution.initial) =
      some (settle s 1 (.value (some busyReply))) := by
    apply step_rejected hphase'
    rw [htask']
    exact process_call_reject "a"
  have hsending : (settle s 1 (.value (some busyReply))).phases 1 = .sending busyReply := by
    show Function.update s.phases 1 (.sending busyReply) 1 = .sending busyReply
    rw [Function.update_self]
  refine ⟨settle s 1 (.value (some busyReply)), ?_, hsending, ?_⟩
  · rw [Machine.run_append, hrun, Option.bind_some]
    exact (Machine.run_cons_of hrejected).trans rfl
  · refine rejections_overlap (leastHost 1) msgSpecJsonCodec_roundTrips 2 _ ?_
    refine (attended_overlapping (leastHost 1) noteData callData).append fun u hu => ?_
    obtain rfl := Option.some.inj (hrun.symm.trans hu)
    refine ⟨fun hfree => ?_, fun _ _ => trivial⟩
    rw [htask'] at hfree
    cases hfree

end WireRpc.MulticastApp
