import WireRpc.Sessions
import WireRpc.Library.Machine

/-!
# Slots of worker threads

`SQLiteSessionStore._execute` and `PasswordCredentialValidator.validate` run a job on a worker
thread and admit a bounded number of calls. A call that is cancelled while its worker has not
finished leaves its slot to the worker's completion callback. The events are the stretches of
code between two awaits and the steps of the threads, so a run is one interleaving.
-/
namespace WireRpc.WorkerSlots
open Library Sessions

/-- What differs between the two: the request `Q` of a call and what is left of it when it has
been checked, `P`, the answer `L` to a lookup, the job `J` of a worker, what the worker ends
with, `R`, and how the call ends, `O`. -/
structure Pool (Q P L J R O : Type) where
  limit : ℕ
  check : Q → Except O P
  full : O
  prepare : P → Option J
  looked : P → L → Except O J
  result : J → R → O
  cancelled : O

/-- A call waits for its lookup or for the shielded worker. It is `deferred` when it has ended
with a cancellation and the callback of its worker owns the slot. -/
inductive Caller (P J O : Type) where
  | lookup (p : P)
  | waiting (job : J)
  | deferred
  | ended (o : O)

/-- The task of a worker. Its thread has `returned` before the task is done. -/
inductive Worker (R : Type) where
  | absent
  | created
  | running
  | returned (r : R)
  | done (r : R)

/-- A call is `cancelled` while the cancellation is yet to be thrown into it. -/
structure Call (P J R O : Type) where
  caller : Caller P J O
  worker : Worker R
  cancelled : Bool

structure State (P J R O : Type) where
  active : ℤ
  calls : List (Call P J R O)

/-- What happens to a call and its worker. A cancellation that strikes in the lookup is part of
what the lookup comes to. A worker is `refused` by an executor that takes no job, and `finished`
is its completion callback, which the loop runs after the task is done. -/
inductive Happening (L R : Type) where
  | looked (answer : L)
  | started
  | returned (r : R)
  | refused (r : R)
  | completed
  | cancel
  | wake
  | finished

inductive Event (Q L R : Type) where
  | call (request : Q)
  | on (i : ℕ) (what : Happening L R)

variable {Q P L J R O : Type}

def start : State P J R O := ⟨0, []⟩

/-- The call up to its first await. -/
def enter (pool : Pool Q P L J R O) (s : State P J R O) (request : Q) : State P J R O :=
  match pool.check request with
  | .error o => { s with calls := s.calls ++ [⟨.ended o, .absent, false⟩] }
  | .ok p =>
    if pool.limit ≤ s.active then
      { s with calls := s.calls ++ [⟨.ended pool.full, .absent, false⟩] }
    else
      match pool.prepare p with
      | none => ⟨s.active + 1, s.calls ++ [⟨.lookup p, .absent, false⟩]⟩
      | some job => ⟨s.active + 1, s.calls ++ [⟨.waiting job, .created, false⟩]⟩

/-- The waiting call goes on: `CancelledError` is thrown into it, or the worker's task is done.
The second component is what it adds to the counter. -/
def wake (pool : Pool Q P L J R O) (call : Call P J R O) (job : J) :
    Option (Call P J R O × ℤ) :=
  match call.worker with
  | .done r =>
    let o := if call.cancelled then pool.cancelled else pool.result job r
    some ({ call with caller := .ended o }, -1)
  | _ => if call.cancelled then some ({ call with caller := .deferred }, 0) else none

def advance (pool : Pool Q P L J R O) (call : Call P J R O) :
    Happening L R → Option (Call P J R O × ℤ)
  | .looked answer =>
    match call.caller with
    | .lookup p =>
      match pool.looked p answer with
      | .error o => some ({ call with caller := .ended o }, -1)
      | .ok job => some ({ call with caller := .waiting job, worker := .created }, 0)
    | _ => none
  | .started =>
    match call.worker with
    | .created => some ({ call with worker := .running }, 0)
    | _ => none
  | .returned r =>
    match call.worker with
    | .running => some ({ call with worker := .returned r }, 0)
    | _ => none
  | .refused r =>
    match call.worker with
    | .created => some ({ call with worker := .done r }, 0)
    | _ => none
  | .completed =>
    match call.worker with
    | .returned r => some ({ call with worker := .done r }, 0)
    | _ => none
  | .cancel =>
    match call.caller with
    | .waiting _ => some ({ call with cancelled := true }, 0)
    | _ => none
  | .wake =>
    match call.caller with
    | .waiting job => wake pool call job
    | _ => none
  | .finished =>
    match call.caller, call.worker with
    | .deferred, .done _ => some ({ call with caller := .ended pool.cancelled }, -1)
    | _, _ => none

def step (pool : Pool Q P L J R O) (s : State P J R O) : Event Q L R → Option (State P J R O)
  | .call request => some (enter pool s request)
  | .on i what =>
    s.calls[i]?.bind fun call =>
      (advance pool call what).map fun next => ⟨s.active + next.2, s.calls.set i next.1⟩

/-- How a call ends; `unavailable` is `AuthUnavailableError`. -/
inductive End (α ε : Type) where
  | returns (a : α)
  | raises (e : ε)
  | unavailable (message : String)
  | cancelled

/-- The arguments of `_execute`. -/
structure Statement where
  operation : String
  key : String
  value : String
  newKey : String

/-- `SQLiteSessionStore._execute`, which comes with what `_ready` is when it is called. The
thread runs `_transaction`, which returns or raises. -/
def execute (α ε : Type) (maxConcurrency : ℕ) :
    Pool (Bool × Statement) Statement Empty Statement (Except ε α) (End α ε) where
  limit := maxConcurrency
  check request :=
    if request.1 then .ok request.2 else .error (.unavailable "Session store not started")
  full := .unavailable "SQLite session capacity unavailable"
  prepare statement := some statement
  looked _ answer := nomatch answer
  result _ r :=
    match r with
    | .ok a => .returns a
    | .error e => .raises e
  cancelled := .cancelled

structure PasswordAccount where
  principal : String
  passwordHash : String
  enabled : Bool

/-- The credentials are a dict with a username and a password of bounded length. A Lean string
always has an encoding. -/
def checkCredentials : Json → Option (String × String)
  | .obj fields =>
    match Json.get? fields "username", Json.get? fields "password" with
    | some (.str username), some (.str password) =>
      if 1 ≤ username.length ∧ username.length ≤ 255 ∧ 1 ≤ password.length ∧
          password.length ≤ 1024 ∧ password.utf8ByteSize ≤ 4096 then some (username, password)
      else none
    | _, _ => none
  | _ => none

/-- What the application's lookup comes to. -/
inductive Lookup where
  | found (account : Option PasswordAccount)
  | unavailable (message : String)
  | failed
  | cancelled

structure PasswordJob where
  account : Option PasswordAccount
  encoded : String
  password : String

/-- How `PasswordHasher.verify` ends. -/
inductive Verification where
  | verified (valid : Bool)
  | mismatch
  | invalid
  | failed

/-- The principal of an account whose password has been verified. -/
def verifiedPrincipal (job : PasswordJob) (valid : Bool) : End (Option String) Empty :=
  match job.account with
  | none => .returns none
  | some account =>
    if !valid || !account.enabled then .returns none
    else if identity account.principal then .returns (some account.principal)
    else .unavailable "Credential backend unavailable"

/-- `PasswordCredentialValidator.validate`. An unknown username is checked against the dummy
hash. -/
def validate (dummy : String) (maxConcurrency : ℕ) :
    Pool Json (String × String) Lookup PasswordJob Verification (End (Option String) Empty) where
  limit := maxConcurrency
  check credentials :=
    match checkCredentials credentials with
    | none => .error (.returns none)
    | some checked => .ok checked
  full := .unavailable "Password verification capacity unavailable"
  prepare _ := none
  looked checked answer :=
    match answer with
    | .found account =>
      .ok ⟨account, account.elim dummy PasswordAccount.passwordHash, checked.2⟩
    | .unavailable message => .error (.unavailable message)
    | .failed => .error (.unavailable "Credential backend unavailable")
    | .cancelled => .error .cancelled
  result job r :=
    match r with
    | .verified valid => verifiedPrincipal job valid
    | .mismatch => .returns none
    | .invalid => .unavailable "Invalid password record"
    | .failed => .unavailable "Credential backend unavailable"
  cancelled := .cancelled

/-- Admitted and not over, or given up while the worker's callback has not run. -/
def Caller.holds : Caller P J O → Bool
  | ended _ => false
  | _ => true

/-- The worker has been created and its task is not done: the thread runs, or may run yet. -/
def Worker.unfinished : Worker R → Bool
  | absent => false
  | done _ => false
  | _ => true

/-- How many slots a call holds. -/
def Call.slots (call : Call P J R O) : ℕ := if call.caller.holds then 1 else 0

theorem slots_of_holds {call : Call P J R O} (h : call.caller.holds = true) : call.slots = 1 :=
  if_pos h

theorem slots_of_not_holds {call : Call P J R O} (h : call.caller.holds = false) :
    call.slots = 0 := if_neg (ne_true_of_eq_false h)

/-- A call that waits for its worker, or has left it its slot, has one; before and after that no
worker is unfinished. -/
structure Call.Consistent (call : Call P J R O) : Prop where
  lookup : ∀ p, call.caller = .lookup p → call.worker.unfinished = false
  waiting : ∀ job, call.caller = .waiting job → call.worker ≠ .absent
  deferred : call.caller = .deferred → call.worker ≠ .absent
  ended : ∀ o, call.caller = .ended o → call.worker.unfinished = false

/-- A step of a call: the counter follows its slot, and it gets no slot that it did not have. -/
structure Moves (call next : Call P J R O) (change : ℤ) : Prop where
  slots : (next.slots : ℤ) = call.slots + change
  fewer : next.slots ≤ call.slots
  consistent : call.Consistent → next.Consistent

section
variable {pool : Pool Q P L J R O} {call next : Call P J R O} {change : ℤ}

/-- A call ends and gives its slot back. -/
theorem moves_end (o : O) (hholds : call.caller.holds = true)
    (hworker : call.worker.unfinished = false) :
    Moves call { call with caller := .ended o } (-1) where
  slots := by
    rw [slots_of_holds hholds, slots_of_not_holds rfl]
    rfl
  fewer := by
    rw [slots_of_not_holds rfl]
    exact Nat.zero_le _
  consistent _ := ⟨nofun, nofun, nofun, fun _ _ => hworker⟩

/-- A call goes on and keeps its slot. -/
theorem moves_on (hholds : call.caller.holds = true) (hnext : next.caller.holds = true)
    (hconsistent : call.Consistent → next.Consistent) : Moves call next 0 where
  slots := by rw [slots_of_holds hholds, slots_of_holds hnext, add_zero]
  fewer := by rw [slots_of_holds hholds, slots_of_holds hnext]
  consistent := hconsistent

/-- The worker of a call goes on, and is there still. -/
theorem moves_worker {worker : Worker R} (hold : call.worker.unfinished = true)
    (hnew : worker ≠ .absent) : Moves call { call with worker := worker } 0 where
  slots := (add_zero _).symm
  fewer := le_rfl
  consistent h := by
    constructor
    · intro p hp
      rw [h.lookup p hp] at hold
      cases hold
    · exact fun _ _ => hnew
    · exact fun _ => hnew
    · intro o ho
      rw [h.ended o ho] at hold
      cases hold

theorem moves_wake {job : J} (hcaller : call.caller = .waiting job)
    (h : wake pool call job = some (next, change)) : Moves call next change := by
  have hholds : call.caller.holds = true := by
    rw [hcaller]
    rfl
  unfold wake at h
  split at h
  case h_1 r hworker =>
    obtain ⟨rfl, rfl⟩ := Prod.mk.inj (Option.some.inj h)
    apply moves_end _ hholds
    rw [hworker]
    rfl
  case h_2 hworker =>
    split_ifs at h
    obtain ⟨rfl, rfl⟩ := Prod.mk.inj (Option.some.inj h)
    exact moves_on hholds rfl fun hc => ⟨nofun, nofun, fun _ => hc.waiting job hcaller, nofun⟩

theorem moves_advance (what : Happening L R) (hcall : call.Consistent)
    (h : advance pool call what = some (next, change)) : Moves call next change := by
  cases what with
  | looked answer =>
    simp only [advance] at h
    split at h
    case h_2 => cases h
    case h_1 p hcaller =>
      have hholds : call.caller.holds = true := by
        rw [hcaller]
        rfl
      split at h
      · obtain ⟨rfl, rfl⟩ := Prod.mk.inj (Option.some.inj h)
        exact moves_end _ hholds (hcall.lookup p hcaller)
      · obtain ⟨rfl, rfl⟩ := Prod.mk.inj (Option.some.inj h)
        exact moves_on hholds rfl fun _ => ⟨nofun, nofun, nofun, nofun⟩
  | started | returned r | refused r | completed =>
    simp only [advance] at h
    split at h
    case h_2 => cases h
    case h_1 hworker =>
      obtain ⟨rfl, rfl⟩ := Prod.mk.inj (Option.some.inj h)
      exact moves_worker (congrArg Worker.unfinished hworker) nofun
  | cancel =>
    simp only [advance] at h
    split at h
    case h_2 => cases h
    case h_1 job hcaller =>
      obtain ⟨rfl, rfl⟩ := Prod.mk.inj (Option.some.inj h)
      have hholds : call.caller.holds = true := by
        rw [hcaller]
        rfl
      exact moves_on hholds hholds fun hc => ⟨hc.lookup, hc.waiting, hc.deferred, hc.ended⟩
  | wake =>
    simp only [advance] at h
    split at h
    case h_2 => cases h
    case h_1 job hcaller => exact moves_wake hcaller h
  | finished =>
    simp only [advance] at h
    split at h
    case h_2 => cases h
    case h_1 r hcaller hworker =>
      obtain ⟨rfl, rfl⟩ := Prod.mk.inj (Option.some.inj h)
      apply moves_end
      · rw [hcaller]
        rfl
      · rw [hworker]
        rfl

end

/-- The calls that hold a slot. -/
def holding (s : State P J R O) : ℕ := s.calls.countP fun call => call.caller.holds

/-- The workers that are not done. -/
def unfinished (s : State P J R O) : ℕ := s.calls.countP fun call => call.worker.unfinished

structure Inv (pool : Pool Q P L J R O) (s : State P J R O) : Prop where
  counted : s.active = holding s
  within : s.active ≤ pool.limit
  consistent : ∀ call ∈ s.calls, call.Consistent

section
variable {pool : Pool Q P L J R O} {s s' : State P J R O}

theorem inv_start : Inv pool (start : State P J R O) where
  counted := rfl
  within := Int.natCast_nonneg _
  consistent := by simp [start]

/-- A call that is refused takes no slot. -/
theorem Inv.refuse (h : Inv pool s) (o : O) :
    Inv pool { s with calls := s.calls ++ [⟨.ended o, .absent, false⟩] } where
  counted := by
    rw [h.counted]
    simp [holding, Caller.holds]
  within := h.within
  consistent := by
    intro call hcall
    obtain hold | hnew := List.mem_append.mp hcall
    · exact h.consistent call hold
    · obtain rfl := List.mem_singleton.mp hnew
      exact ⟨nofun, nofun, nofun, fun _ _ => rfl⟩

theorem Inv.admitted (h : Inv pool s) (hroom : s.active < pool.limit) {call : Call P J R O}
    (hholds : call.caller.holds = true) (hcall : call.Consistent) :
    Inv pool ⟨s.active + 1, s.calls ++ [call]⟩ where
  counted := by
    rw [h.counted]
    simp [holding, hholds]
  within := by
    show s.active + 1 ≤ pool.limit
    omega
  consistent := by
    intro other hother
    obtain hold | hnew := List.mem_append.mp hother
    · exact h.consistent other hold
    · obtain rfl := List.mem_singleton.mp hnew
      exact hcall

theorem Inv.enter (h : Inv pool s) (request : Q) : Inv pool (enter pool s request) := by
  unfold WorkerSlots.enter
  split
  · exact h.refuse _
  · split_ifs with hfull
    · exact h.refuse _
    · split
      · exact h.admitted (not_le.mp hfull) rfl ⟨fun _ _ => rfl, nofun, nofun, nofun⟩
      · exact h.admitted (not_le.mp hfull) rfl ⟨nofun, fun _ _ => nofun, nofun, nofun⟩

theorem Inv.move (h : Inv pool s) {i : ℕ} {call next : Call P J R O} {change : ℤ}
    (hcall : s.calls[i]? = some call) (hmoves : Moves call next change) :
    Inv pool ⟨s.active + change, s.calls.set i next⟩ := by
  obtain ⟨hi, hat⟩ := List.getElem?_eq_some_iff.mp hcall
  have hcount := List.countP_set (p := fun call => call.caller.holds) (a := next) hi
  have hholds := List.boole_getElem_le_countP (p := fun call => call.caller.holds) hi
  rw [hat] at hcount hholds
  have hslots : (next.slots : ℤ) = call.slots + change := hmoves.slots
  have hfewer := hmoves.fewer
  have hcounted := h.counted
  have hwithin := h.within
  constructor
  case counted =>
    show s.active + change = ((s.calls.set i next).countP fun call => call.caller.holds : ℕ)
    unfold holding at hcounted
    unfold Call.slots at hslots
    omega
  case within =>
    show s.active + change ≤ pool.limit
    omega
  case consistent =>
    intro other hother
    obtain hold | rfl := List.mem_or_eq_of_mem_set hother
    · exact h.consistent other hold
    · exact hmoves.consistent (h.consistent call (List.mem_of_getElem? hcall))

theorem inv_step (h : Inv pool s) {e : Event Q L R} (hstep : step pool s e = some s') :
    Inv pool s' := by
  cases e with
  | call request =>
    obtain rfl := Option.some.inj hstep
    exact h.enter request
  | on i what =>
    obtain ⟨call, hcall, hadvance⟩ := Option.bind_eq_some_iff.mp hstep
    obtain ⟨⟨next, change⟩, hnext, rfl⟩ := Option.map_eq_some_iff.mp hadvance
    exact h.move hcall
      (moves_advance what (h.consistent call (List.mem_of_getElem? hcall)) hnext)

theorem inv_run {es : List (Event Q L R)} (hrun : Machine.run (step pool) start es = some s) :
    Inv pool s :=
  Machine.invariant (fun _ _ _ h hstep => inv_step h hstep) inv_start hrun

/-- An unfinished worker belongs to a call that holds a slot. -/
theorem Inv.unfinished_le (h : Inv pool s) : (unfinished s : ℤ) ≤ s.active := by
  rw [h.counted]
  apply Int.ofNat_le.mpr
  apply List.countP_mono_left
  intro call hcall hunfinished
  have hconsistent := h.consistent call hcall
  cases hcaller : call.caller with
  | ended o =>
    rw [hconsistent.ended o hcaller] at hunfinished
    cases hunfinished
  | _ => rfl

/-- A slot is given back at the latest by the callback of a worker that is done. -/
theorem exists_finished (hinv : Inv pool s) {call : Call P J R O} (hcall : call ∈ s.calls)
    (hcaller : call.caller = .deferred) (hworker : call.worker.unfinished = false) :
    ∃ i s', step pool s (.on i .finished) = some s' ∧ s'.active = s.active - 1 ∧
      s'.calls = s.calls.set i { call with caller := .ended pool.cancelled } := by
  obtain ⟨i, hi⟩ := List.mem_iff_getElem?.mp hcall
  obtain ⟨r, hdone⟩ : ∃ r, call.worker = .done r := by
    cases hw : call.worker with
    | absent => exact absurd hw ((hinv.consistent call hcall).deferred hcaller)
    | done r => exact ⟨r, rfl⟩
    | _ => simp [hw, Worker.unfinished] at hworker
  refine ⟨i, ⟨s.active - 1, s.calls.set i { call with caller := .ended pool.cancelled }⟩,
    ?_, rfl, rfl⟩
  show s.calls[i]?.bind _ = _
  rw [hi, Option.bind_some]
  simp only [advance, hcaller, hdone]
  rfl

/-- Where every call and every worker is over, the callbacks that are due give back every
slot. -/
theorem exists_finished_run (hinv : Inv pool s)
    (hcallers : ∀ call ∈ s.calls, call.caller = .deferred ∨ ∃ o, call.caller = .ended o)
    (hworkers : ∀ call ∈ s.calls, call.worker.unfinished = false) :
    ∃ is : List ℕ, ∃ s', Machine.run (step pool) s (is.map fun i => .on i .finished) = some s' ∧
      s'.active = 0 := by
  induction hn : holding s generalizing s with
  | zero =>
    refine ⟨[], s, rfl, ?_⟩
    rw [hinv.counted, hn]
    rfl
  | succ n ih =>
    obtain ⟨call, hcall, hholds⟩ :=
      List.countP_pos_iff.mp (show 0 < holding s by omega)
    have hcaller : call.caller = .deferred := by
      obtain hdeferred | ⟨o, ho⟩ := hcallers call hcall
      · exact hdeferred
      · rw [ho] at hholds
        cases hholds
    obtain ⟨i, t, hstep, hactive, hcalls⟩ :=
      exists_finished hinv hcall hcaller (hworkers call hcall)
    have hinvt := inv_step hinv hstep
    have hcount : holding t = n := by
      have hs := hinv.counted
      have ht := hinvt.counted
      omega
    obtain ⟨is, s', hrun, hzero⟩ := ih hinvt (by
      intro other hother
      rw [hcalls] at hother
      obtain hold | rfl := List.mem_or_eq_of_mem_set hother
      · exact hcallers other hold
      · exact .inr ⟨_, rfl⟩) (by
      intro other hother
      rw [hcalls] at hother
      obtain hold | rfl := List.mem_or_eq_of_mem_set hother
      · exact hworkers other hold
      · exact hworkers call hcall) hcount
    refine ⟨i :: is, s', ?_, hzero⟩
    rw [List.map_cons, Machine.run_cons_of hstep]
    exact hrun

end

/-- The counter of a pool in a state: it counts the calls that hold a slot, keeps within its
bounds, covers the workers that are not done, and falls to zero at the end, when the callbacks
that are due have run. -/
structure Balanced (pool : Pool Q P L J R O) (s : State P J R O) : Prop where
  counted : s.active = holding s
  nonneg : 0 ≤ s.active
  within : s.active ≤ pool.limit
  covers : (unfinished s : ℤ) ≤ s.active
  zero : (∀ call ∈ s.calls, ∃ o, call.caller = .ended o) → s.active = 0
  returns : (∀ call ∈ s.calls, call.caller = .deferred ∨ ∃ o, call.caller = .ended o) →
    (∀ call ∈ s.calls, call.worker.unfinished = false) →
    ∃ is : List ℕ, ∃ s', Machine.run (step pool) s (is.map fun i => .on i .finished) = some s' ∧
      s'.active = 0

theorem Inv.balanced {pool : Pool Q P L J R O} {s : State P J R O} (h : Inv pool s) :
    Balanced pool s where
  counted := h.counted
  nonneg := by
    rw [h.counted]
    exact Int.natCast_nonneg _
  within := h.within
  covers := h.unfinished_le
  zero hended := by
    rw [h.counted, holding, Int.natCast_eq_zero, List.countP_eq_zero]
    intro call hcall
    obtain ⟨o, ho⟩ := hended call hcall
    rw [ho]
    exact Bool.false_ne_true
  returns := exists_finished_run h

/-- In every interleaving of calls, worker threads and cancellations the slots of the session
store and of the password validator are released once. -/
theorem slots_released_once (α ε : Type) (dummy : String) (limit : ℕ) :
    (∀ es s, Machine.run (step (execute α ε limit)) start es = some s →
      Balanced (execute α ε limit) s) ∧
    (∀ es s, Machine.run (step (validate dummy limit)) start es = some s →
      Balanced (validate dummy limit) s) := by
  constructor
  · exact fun es s hrun => (inv_run hrun).balanced
  · exact fun es s hrun => (inv_run hrun).balanced

/-- The first call is given up while its thread runs. It keeps its slot, and the next call finds
no capacity until the callback has run. -/
def abandoned : List (Event (Bool × Statement) Empty (Except Unit Bool)) :=
  [.call (true, ⟨"get", "a", "", ""⟩), .on 0 .started, .on 0 .cancel, .on 0 .wake,
    .call (true, ⟨"get", "b", "", ""⟩), .on 0 (.returned (.ok true)), .on 0 .completed,
    .on 0 .finished]

/-- A login is cancelled before it has a worker, and the next one is refused by the worker. -/
def logins : List (Event Json Lookup Verification) :=
  let credentials := Json.obj [("username", .str "a"), ("password", .str "b")]
  [.call credentials, .on 0 (.looked .cancelled), .call credentials,
    .on 1 (.looked (.found none)), .on 1 .started, .on 1 (.returned .mismatch), .on 1 .completed,
    .on 1 .wake]

theorem slots_released_once_abandoned :
    (∃ s, Machine.run (step (execute Bool Unit 1)) start abandoned = some s ∧ s.active = 0 ∧
      Balanced (execute Bool Unit 1) s) ∧
    ∃ s, Machine.run (step (validate "dummy" 1)) start logins = some s ∧ s.active = 0 ∧
      Balanced (validate "dummy" 1) s := by
  obtain ⟨hexecute, hvalidate⟩ := slots_released_once Bool Unit "dummy" 1
  exact ⟨⟨_, rfl, rfl, hexecute abandoned _ rfl⟩, ⟨_, rfl, rfl, hvalidate logins _ rfl⟩⟩

end WireRpc.WorkerSlots
