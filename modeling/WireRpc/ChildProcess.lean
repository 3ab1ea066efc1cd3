import WireRpc.Library.Machine

/-!
# The child process of a stdio client

`StdIoTransport` launches a child and exchanges frames over its pipes. `close()` cancels the
pending reads and writes, then stops the child: it closes stdin, terminates, kills. An event
is a stretch between two awaits of one of the tasks that call `connect`, `recv`, `send` and
`close`, or the exit of a child.
-/
namespace WireRpc.ChildProcess
open Library

inductive Operation where
  | read
  | write
  deriving DecidableEq

/-- Where a task stands that calls `recv` and `send`: in neither, waiting for the lock, with
the pipes of a child, or over. -/
inductive Task where
  | idle
  | waiting (op : Operation)
  | exchanging (op : Operation) (pipes : Option ℕ)
  | done
  deriving DecidableEq

def Task.operates : Task → Bool
  | waiting _ => true
  | exchanging _ _ => true
  | _ => false

/-- Where a call of `connect` stands. -/
inductive Connector where
  | absent
  | launching
  | returned
  | raised
  deriving DecidableEq

/-- The four awaits of `proc.wait()`: after stdin was closed, after `terminate`, after `kill`,
and the one of the `finally` block. -/
inductive Stage where
  | eof
  | terminate
  | kill
  | last
  deriving DecidableEq

/-- Where a call of `close` stands: waiting for `_close_lock`, for the cancelled tasks, for
the child, or for the tasks that drain its output. `raises` tells that an exception is on its
way. -/
inductive Closer where
  | absent
  | locking
  | gathering (child : ℕ) (tracked : Finset ℕ)
  | stopping (child : ℕ) (stage : Stage)
  | releasing (child : ℕ) (raises : Bool)
  | ended (child : Option ℕ) (raised : Bool)
  deriving DecidableEq

/-- The call is past the lock. -/
def Closer.active : Closer → Bool
  | gathering _ _ => true
  | stopping _ _ => true
  | releasing _ _ => true
  | _ => false

/-- What was done to a child, and whether it has exited. -/
structure Child where
  stdinClosed : Bool := false
  terminated : Bool := false
  killed : Bool := false
  exited : Bool := false

/-- Children are numbered as they are launched. `stdin`, `stdout`, `stderr` and `_stderr_task`
are always those of `proc`. `stderrs` are the children whose stderr is being read and dropped,
`drains` the calls of `close` that do so with stdout. `lost`, the children whose `proc` was
overwritten, belongs to the history. -/
structure State where
  proc : Option ℕ := none
  closing : Bool := false
  operations : Finset ℕ := ∅
  holder : Operation → Option ℕ := fun _ => none
  lock : Option ℕ := none
  launched : ℕ := 0
  children : ℕ → Child := fun _ => {}
  stderrs : Finset ℕ := ∅
  drains : Finset ℕ := ∅
  tasks : ℕ → Task := fun _ => .idle
  connectors : ℕ → Connector := fun _ => .absent
  closers : ℕ → Closer := fun _ => .absent
  lost : Finset ℕ := ∅

/-- Calls of `connect` and `close` are named by a number, and so is a task that reads and
writes. `leave` is the end of an exchange, which closes stdin when it `failed` in the middle;
`abandon` is a cancellation while waiting for the lock. `stderrEnds` and `stdoutEnds` are an
end of file. -/
inductive Event where
  | connect (k : ℕ)
  | launch (k : ℕ)
  | failLaunch (k : ℕ)
  | ask (t : ℕ) (op : Operation)
  | enter (t : ℕ)
  | leave (t : ℕ) (failed : Bool)
  | abandon (t : ℕ)
  | finish (t : ℕ)
  | exit (n : ℕ)
  | stderrEnds (n : ℕ)
  | stdoutEnds (c : ℕ)
  | close (c : ℕ)
  | locked (c : ℕ)
  | gathered (c : ℕ)
  | seeExit (c : ℕ)
  | expire (c : ℕ)
  | cancel (c : ℕ)
  | released (c : ℕ)
  deriving DecidableEq

section
variable (s : State)

def setTask (t : ℕ) (task : Task) : State := { s with tasks := Function.update s.tasks t task }

def setConnector (k : ℕ) (phase : Connector) : State :=
  { s with connectors := Function.update s.connectors k phase }

def setCloser (c : ℕ) (phase : Closer) : State :=
  { s with closers := Function.update s.closers c phase }

def setChild (n : ℕ) (child : Child) : State :=
  { s with children := Function.update s.children n child }

/-- The child is given up by the field that held it. -/
def drop (except : Option ℕ) : Finset ℕ :=
  match s.proc with
  | some n => if except = some n then s.lost else insert n s.lost
  | none => s.lost

def connect (k : ℕ) : State :=
  if s.proc ≠ none ∨ s.closing = true then setConnector s k .raised
  else setConnector s k .launching

/-- `connect` after `create_subprocess_exec`. -/
def launch (k : ℕ) : State :=
  { setConnector s k .returned with
    proc := some s.launched
    launched := s.launched + 1
    stderrs := insert s.launched s.stderrs
    lost := drop s none }

/-- `recv` and `send` up to the lock. -/
def ask (t : ℕ) (op : Operation) : State :=
  if s.proc = none then s
  else if s.closing then s
  else { setTask s t (.waiting op) with operations := insert t s.operations }

def enter (t : ℕ) (op : Operation) : State :=
  { setTask s t (.exchanging op s.proc) with holder := Function.update s.holder op (some t) }

def closeStdin (n : ℕ) : State := setChild s n { s.children n with stdinClosed := true }

/-- The end of an exchange, with the `finally` block of `recv` and `send`. -/
def leave (t : ℕ) (op : Operation) (pipes : Option ℕ) (failed : Bool) : State :=
  let s :=
    match pipes, failed with
    | some n, true => closeStdin s n
    | _, _ => s
  { setTask s t .idle with
    holder := Function.update s.holder op none
    operations := s.operations.erase t }

def abandon (t : ℕ) : State := { setTask s t .idle with operations := s.operations.erase t }

/-- `close` once it has the lock. -/
def enterClose (c : ℕ) : State :=
  match s.proc with
  | none => { setCloser s c (.ended none false) with closing := true }
  | some n => { setCloser s c (.gathering n s.operations) with closing := true, lock := some c }

def close (c : ℕ) : State :=
  match s.lock with
  | none => enterClose s c
  | some _ => setCloser s c .locking

/-- `close` reads the field `stdin` again after `gather`, when it may be that of another
child. -/
def closeCurrent : State :=
  match s.proc with
  | some m => closeStdin s m
  | none => s

/-- After `gather`. -/
def gathered (c n : ℕ) : State :=
  { setCloser (closeCurrent s) c (.stopping n .eof) with drains := insert c s.drains }

def terminate (n : ℕ) : State :=
  if (s.children n).exited then s else setChild s n { s.children n with terminated := true }

def kill (n : ℕ) : State :=
  if (s.children n).exited then s else setChild s n { s.children n with killed := true }

/-- An exception comes to the `finally` block. -/
def interrupt (c n : ℕ) : State :=
  if (s.children n).exited then setCloser s c (.releasing n true)
  else setCloser (kill s n) c (.stopping n .last)

def unlock (c : ℕ) (child : Option ℕ) (raised : Bool) : State :=
  { setCloser s c (.ended child raised) with lock := none }

/-- The end of a timeout around `proc.wait()`. -/
def expire (c n : ℕ) : Stage → State
  | .eof => setCloser (terminate s n) c (.stopping n .terminate)
  | .terminate => setCloser (kill s n) c (.stopping n .kill)
  | .kill => interrupt s c n
  | .last => unlock s c (some n) true

def cancelStop (c n : ℕ) : Stage → State
  | .last => unlock s c (some n) true
  | _ => interrupt s c n

/-- The end of the `finally` block. -/
def release (c n : ℕ) (raises : Bool) : State :=
  { unlock s c (some n) raises with
    proc := none
    drains := s.drains.erase c
    stderrs := s.stderrs.filter (some · ≠ s.proc)
    lost := drop s (some n) }

def step : Event → Option State
  | .connect k => if s.connectors k = .absent then some (connect s k) else none
  | .launch k => if s.connectors k = .launching then some (launch s k) else none
  | .failLaunch k => if s.connectors k = .launching then some (setConnector s k .raised) else none
  | .ask t op => if s.tasks t = .idle then some (ask s t op) else none
  | .enter t =>
    match s.tasks t with
    | .waiting op => if s.holder op = none then some (enter s t op) else none
    | _ => none
  | .leave t failed =>
    match s.tasks t with
    | .exchanging op pipes => some (leave s t op pipes failed)
    | _ => none
  | .abandon t =>
    match s.tasks t with
    | .waiting _ => some (abandon s t)
    | _ => none
  | .finish t => if s.tasks t = .idle then some (setTask s t .done) else none
  | .exit n =>
    if n < s.launched then some (setChild s n { s.children n with exited := true }) else none
  | .stderrEnds n => some { s with stderrs := s.stderrs.erase n }
  | .stdoutEnds c => some { s with drains := s.drains.erase c }
  | .close c => if s.closers c = .absent then some (close s c) else none
  | .locked c => if s.closers c = .locking ∧ s.lock = none then some (enterClose s c) else none
  | .gathered c =>
    match s.closers c with
    | .gathering n tracked =>
      if ∀ t ∈ tracked, s.tasks t = .done then some (gathered s c n) else none
    | _ => none
  | .seeExit c =>
    match s.closers c with
    | .stopping n stage =>
      if (s.children n).exited then some (setCloser s c (.releasing n (stage = .last))) else none
    | _ => none
  | .expire c =>
    match s.closers c with
    | .stopping n stage => some (expire s c n stage)
    | _ => none
  | .cancel c =>
    match s.closers c with
    | .locking => some (setCloser s c (.ended none true))
    | .gathering _ _ => some (unlock s c none true)
    | .stopping n stage => some (cancelStop s c n stage)
    -- the cancelled `gather` leaves the fields as they are
    | .releasing n _ => some (unlock s c (some n) true)
    | _ => none
  | .released c =>
    match s.closers c with
    | .releasing n raises => some (release s c n raises)
    | _ => none

end

/-- The ways through `step`. -/
inductive Way (s : State) : Event → State → Prop where
  | connected (k : ℕ) (h : s.connectors k = .absent) : Way s (.connect k) (connect s k)
  | launched (k : ℕ) (h : s.connectors k = .launching) : Way s (.launch k) (launch s k)
  | launchFailed (k : ℕ) (h : s.connectors k = .launching) :
      Way s (.failLaunch k) (setConnector s k .raised)
  | refused (t : ℕ) (op : Operation) (h : s.tasks t = .idle)
      (hno : s.proc = none ∨ s.closing = true) : Way s (.ask t op) s
  | asked (t : ℕ) (op : Operation) (n : ℕ) (h : s.tasks t = .idle) (hproc : s.proc = some n)
      (hopen : s.closing = false) : Way s (.ask t op)
        { setTask s t (.waiting op) with operations := insert t s.operations }
  | entered (t : ℕ) (op : Operation) (h : s.tasks t = .waiting op) (hfree : s.holder op = none) :
      Way s (.enter t) (enter s t op)
  | left (t : ℕ) (failed : Bool) (op : Operation) (pipes : Option ℕ)
      (h : s.tasks t = .exchanging op pipes) : Way s (.leave t failed) (leave s t op pipes failed)
  | abandoned (t : ℕ) (op : Operation) (h : s.tasks t = .waiting op) :
      Way s (.abandon t) (abandon s t)
  | finished (t : ℕ) (h : s.tasks t = .idle) : Way s (.finish t) (setTask s t .done)
  | exited (n : ℕ) (h : n < s.launched) :
      Way s (.exit n) (setChild s n { s.children n with exited := true })
  | stderrEnded (n : ℕ) : Way s (.stderrEnds n) { s with stderrs := s.stderrs.erase n }
  | stdoutEnded (c : ℕ) : Way s (.stdoutEnds c) { s with drains := s.drains.erase c }
  | closed (c : ℕ) (h : s.closers c = .absent) : Way s (.close c) (close s c)
  | locked (c : ℕ) (h : s.closers c = .locking) (hfree : s.lock = none) :
      Way s (.locked c) (enterClose s c)
  | gathered (c n : ℕ) (tracked : Finset ℕ) (h : s.closers c = .gathering n tracked)
      (hdone : ∀ t ∈ tracked, s.tasks t = .done) : Way s (.gathered c) (gathered s c n)
  | exitSeen (c n : ℕ) (stage : Stage) (h : s.closers c = .stopping n stage)
      (hexit : (s.children n).exited = true) :
      Way s (.seeExit c) (setCloser s c (.releasing n (stage = .last)))
  | expired (c n : ℕ) (stage : Stage) (h : s.closers c = .stopping n stage) :
      Way s (.expire c) (expire s c n stage)
  | cancelledLocking (c : ℕ) (h : s.closers c = .locking) :
      Way s (.cancel c) (setCloser s c (.ended none true))
  | cancelledGathering (c n : ℕ) (tracked : Finset ℕ) (h : s.closers c = .gathering n tracked) :
      Way s (.cancel c) (unlock s c none true)
  | cancelledStopping (c n : ℕ) (stage : Stage) (h : s.closers c = .stopping n stage) :
      Way s (.cancel c) (cancelStop s c n stage)
  | cancelledReleasing (c n : ℕ) (raises : Bool) (h : s.closers c = .releasing n raises) :
      Way s (.cancel c) (unlock s c (some n) true)
  | released (c n : ℕ) (raises : Bool) (h : s.closers c = .releasing n raises) :
      Way s (.released c) (release s c n raises)

theorem step_way {s s' : State} {e : Event} (hs : step s e = some s') : Way s e s' := by
  cases e with
  | connect k =>
    obtain ⟨hk, hs⟩ := Option.ite_none_right_eq_some.mp hs
    exact Option.some.inj hs ▸ .connected k hk
  | launch k =>
    obtain ⟨hk, hs⟩ := Option.ite_none_right_eq_some.mp hs
    exact Option.some.inj hs ▸ .launched k hk
  | failLaunch k =>
    obtain ⟨hk, hs⟩ := Option.ite_none_right_eq_some.mp hs
    exact Option.some.inj hs ▸ .launchFailed k hk
  | ask t op =>
    obtain ⟨ht, hs⟩ := Option.ite_none_right_eq_some.mp hs
    obtain rfl := Option.some.inj hs
    unfold ask
    split_ifs with hproc hclosing
    · exact .refused t op ht (Or.inl hproc)
    · exact .refused t op ht (Or.inr hclosing)
    · obtain ⟨n, hn⟩ := Option.ne_none_iff_exists'.mp hproc
      exact .asked t op n ht hn (Bool.not_eq_true _ ▸ hclosing)
  | enter t =>
    simp only [step] at hs
    split at hs
    case h_1 op ht =>
      obtain ⟨hfree, hs⟩ := Option.ite_none_right_eq_some.mp hs
      exact Option.some.inj hs ▸ .entered t op ht hfree
    case h_2 => cases hs
  | leave t failed =>
    simp only [step] at hs
    split at hs
    case h_1 op pipes ht => exact Option.some.inj hs ▸ .left t failed op pipes ht
    case h_2 => cases hs
  | abandon t =>
    simp only [step] at hs
    split at hs
    case h_1 op ht => exact Option.some.inj hs ▸ .abandoned t op ht
    case h_2 => cases hs
  | finish t =>
    obtain ⟨ht, hs⟩ := Option.ite_none_right_eq_some.mp hs
    exact Option.some.inj hs ▸ .finished t ht
  | exit n =>
    obtain ⟨hn, hs⟩ := Option.ite_none_right_eq_some.mp hs
    exact Option.some.inj hs ▸ .exited n hn
  | stderrEnds n => exact Option.some.inj hs ▸ .stderrEnded n
  | stdoutEnds c => exact Option.some.inj hs ▸ .stdoutEnded c
  | close c =>
    obtain ⟨hc, hs⟩ := Option.ite_none_right_eq_some.mp hs
    exact Option.some.inj hs ▸ .closed c hc
  | locked c =>
    obtain ⟨⟨hc, hfree⟩, hs⟩ := Option.ite_none_right_eq_some.mp hs
    exact Option.some.inj hs ▸ .locked c hc hfree
  | gathered c =>
    simp only [step] at hs
    split at hs
    case h_1 n tracked hc =>
      obtain ⟨hdone, hs⟩ := Option.ite_none_right_eq_some.mp hs
      exact Option.some.inj hs ▸ .gathered c n tracked hc hdone
    case h_2 => cases hs
  | seeExit c =>
    simp only [step] at hs
    split at hs
    case h_1 n stage hc =>
      obtain ⟨hexit, hs⟩ := Option.ite_none_right_eq_some.mp hs
      exact Option.some.inj hs ▸ .exitSeen c n stage hc hexit
    case h_2 => cases hs
  | expire c =>
    simp only [step] at hs
    split at hs
    case h_1 n stage hc => exact Option.some.inj hs ▸ .expired c n stage hc
    case h_2 => cases hs
  | cancel c =>
    simp only [step] at hs
    split at hs
    case h_1 hc => exact Option.some.inj hs ▸ .cancelledLocking c hc
    case h_2 n tracked hc => exact Option.some.inj hs ▸ .cancelledGathering c n tracked hc
    case h_3 n stage hc => exact Option.some.inj hs ▸ .cancelledStopping c n stage hc
    case h_4 n raises hc => exact Option.some.inj hs ▸ .cancelledReleasing c n raises hc
    case h_5 => cases hs
  | released c =>
    simp only [step] at hs
    split at hs
    case h_1 n raises hc => exact Option.some.inj hs ▸ .released c n raises hc
    case h_2 => cases hs

/-- Whatever was done to a child stays done. -/
structure Child.Before (a b : Child) : Prop where
  stdinClosed : a.stdinClosed = true → b.stdinClosed = true
  killed : a.killed = true → b.killed = true
  exited : a.exited = true → b.exited = true

/-- What the phase of a call says about the child it stops. -/
def Closer.Holds (launched : ℕ) (children : ℕ → Child) : Closer → Prop
  | gathering n _ => n < launched
  | stopping n stage => n < launched ∧ (stage = .last → (children n).killed = true)
  | releasing n _ => n < launched ∧ (children n).exited = true
  | ended (some n) raised =>
    n < launched ∧ ((children n).exited = true ∨ (children n).killed = true) ∧
      (raised = false → (children n).exited = true)
  | _ => True

theorem Closer.Holds.mono {launched launched' : ℕ} {children children' : ℕ → Child}
    {phase : Closer} (h : phase.Holds launched children) (hle : launched ≤ launched')
    (hbefore : ∀ n, (children n).Before (children' n)) : phase.Holds launched' children' := by
  cases phase with
  | absent => trivial
  | locking => trivial
  | gathering n tracked => exact lt_of_lt_of_le h hle
  | stopping n stage =>
    obtain ⟨hn, hlast⟩ := h
    exact ⟨lt_of_lt_of_le hn hle, fun hstage => (hbefore n).killed (hlast hstage)⟩
  | releasing n raises =>
    obtain ⟨hn, hexited⟩ := h
    exact ⟨lt_of_lt_of_le hn hle, (hbefore n).exited hexited⟩
  | ended child raised =>
    cases child with
    | none => trivial
    | some n =>
      obtain ⟨hn, hgone, hreturned⟩ := h
      exact ⟨lt_of_lt_of_le hn hle, hgone.imp (hbefore n).exited (hbefore n).killed,
        fun hraised => (hbefore n).exited (hreturned hraised)⟩

/-- A call past the lock stops the child of `proc`, or one that was lost since. Once it is past
`gather`, stdin was closed of a child that was not lost. -/
def Closer.Follows (proc : Option ℕ) (lost : Finset ℕ) (children : ℕ → Child) : Closer → Prop
  | gathering n _ => proc = some n ∨ n ∈ lost
  | stopping n _ => (children n).stdinClosed = true ∨ n ∈ lost
  | _ => True

theorem Closer.Follows.mono {proc proc' : Option ℕ} {lost lost' : Finset ℕ}
    {children children' : ℕ → Child} {phase : Closer} (h : phase.Follows proc lost children)
    (hproc : ∀ n, proc = some n → proc' = some n ∨ n ∈ lost') (hle : lost ⊆ lost')
    (hbefore : ∀ n, (children n).Before (children' n)) : phase.Follows proc' lost' children' := by
  cases phase with
  | gathering n tracked => exact Or.elim h (hproc n) fun hlost => Or.inr (hle hlost)
  | stopping n stage => exact Or.imp (hbefore n).stdinClosed (fun hlost => hle hlost) h
  | _ => trivial

theorem Closer.follows_of_inactive {proc : Option ℕ} {lost : Finset ℕ} {children : ℕ → Child}
    {phase : Closer} (h : phase.active = false) : phase.Follows proc lost children := by
  cases phase with
  | gathering n tracked | stopping n stage => cases h
  | _ => trivial

/-- The operations that a call past the lock still has to reckon with. -/
def Closer.Admits (operations : Finset ℕ) : Closer → Prop
  | gathering _ tracked => operations ⊆ tracked
  | stopping _ _ => operations = ∅
  | releasing _ _ => operations = ∅
  | _ => True

theorem Closer.Admits.mono {operations operations' : Finset ℕ} {phase : Closer}
    (h : phase.Admits operations) (hle : operations' ⊆ operations) : phase.Admits operations' := by
  cases phase with
  | gathering n tracked => exact hle.trans h
  | stopping n stage => exact Finset.subset_empty.mp (hle.trans h.subset)
  | releasing n raises => exact Finset.subset_empty.mp (hle.trans h.subset)
  | _ => trivial

/-- The call may have left the task behind that drains stdout. -/
def Closer.mayDrain : Closer → Bool
  | stopping _ _ => true
  | releasing _ _ => true
  | ended (some _) raised => raised
  | _ => false

/-- What every reachable state keeps. A child that still runs is in `proc` or was lost, and
while a call of `close` stops it nobody uses its pipes. -/
structure Inv (s : State) : Prop where
  operation_iff : ∀ t, t ∈ s.operations ↔ (s.tasks t).operates = true
  holder_iff : ∀ t op, (∃ pipes, s.tasks t = .exchanging op pipes) ↔ s.holder op = some t
  connected : ∀ t ∈ s.operations, s.proc ≠ none
  piped : ∀ t op, s.tasks t ≠ .exchanging op none
  active_iff : ∀ c, (s.closers c).active = true ↔ s.lock = some c
  closing : ∀ c, s.closers c ≠ .absent → s.closing = true
  holds : ∀ c, (s.closers c).Holds s.launched s.children
  follows : ∀ c, (s.closers c).Follows s.proc s.lost s.children
  admits : ∀ c, (s.closers c).Admits s.operations
  escalates : ∀ n, (s.children n).terminated = true ∨ (s.children n).killed = true →
    (s.children n).stdinClosed = true ∨ n ∈ s.lost
  proc_lt : ∀ n, s.proc = some n → n < s.launched
  accounted : ∀ n < s.launched,
    (s.children n).exited = true ∨ s.proc = some n ∨ n ∈ s.lost
  drained : ∀ c ∈ s.drains, (s.closers c).mayDrain = true
  stderrs : ∀ n ∈ s.stderrs, s.proc = some n ∨ n ∈ s.lost

theorem inv_start : Inv {} where
  operation_iff _ := by simp [Task.operates]
  holder_iff _ _ := by simp
  connected := by simp
  piped _ _ := by simp
  active_iff _ := by simp [Closer.active]
  closing _ h := absurd rfl h
  holds _ := trivial
  follows _ := trivial
  admits _ := trivial
  escalates _ := by simp
  proc_lt := by simp
  accounted := by simp
  drained := by simp
  stderrs := by simp

section
variable {s s' : State} {e : Event}

theorem Child.Before.refl (a : Child) : a.Before a := ⟨id, id, id⟩

theorem before_update {n : ℕ} {child : Child} (h : (s.children n).Before child) (m : ℕ) :
    (s.children m).Before (Function.update s.children n child m) := by
  by_cases hm : m = n
  · subst hm
    rwa [Function.update_self]
  · rw [Function.update_of_ne hm]
    exact .refl _

theorem mem_drop {except : Option ℕ} {m : ℕ} :
    m ∈ drop s except ↔ m ∈ s.lost ∨ (s.proc = some m ∧ except ≠ some m) := by
  unfold drop
  cases hproc : s.proc with
  | none => simp
  | some n =>
    by_cases hexcept : except = some n
    · simp only [hexcept, if_true]
      refine (or_iff_left ?_).symm
      rintro ⟨hm, hne⟩
      exact hne hm
    · simp only [hexcept, if_false, Finset.mem_insert, Option.some.injEq]
      constructor
      · rintro (rfl | hm)
        · exact Or.inr ⟨rfl, hexcept⟩
        · exact Or.inl hm
      · rintro (hm | ⟨rfl, -⟩)
        · exact Or.inr hm
        · exact Or.inl rfl

theorem lost_subset_drop (except : Option ℕ) : s.lost ⊆ drop s except :=
  fun _ hn => mem_drop.mpr (Or.inl hn)

theorem Inv.setChild {n : ℕ} {child : Child} (h : Inv s) (hbefore : (s.children n).Before child)
    (hescalates : child.terminated = true ∨ child.killed = true →
      child.stdinClosed = true ∨ n ∈ s.lost) : Inv (setChild s n child) where
  __ := h
  holds c := (h.holds c).mono le_rfl (before_update hbefore)
  follows c := (h.follows c).mono (fun _ => Or.inl) subset_rfl (before_update hbefore)
  escalates m := by
    show (Function.update s.children n child m).terminated = true ∨
      (Function.update s.children n child m).killed = true →
        (Function.update s.children n child m).stdinClosed = true ∨ m ∈ s.lost
    by_cases hm : m = n
    · subst hm
      rwa [Function.update_self]
    · rw [Function.update_of_ne hm]
      exact h.escalates m
  accounted m hm := (h.accounted m hm).imp_left (before_update hbefore m).exited

theorem Inv.closeStdin (h : Inv s) (n : ℕ) : Inv (closeStdin s n) :=
  h.setChild ⟨fun _ => rfl, id, id⟩ fun _ => Or.inl rfl

theorem Inv.closeCurrent (h : Inv s) : Inv (closeCurrent s) := by
  unfold ChildProcess.closeCurrent
  split
  next m hproc => exact h.closeStdin m
  next => exact h

theorem Inv.exit (h : Inv s) (n : ℕ) :
    Inv (ChildProcess.setChild s n { s.children n with exited := true }) :=
  h.setChild ⟨id, id, fun _ => rfl⟩ (h.escalates n)

theorem Inv.terminate {n : ℕ} (h : Inv s)
    (hclosed : (s.children n).stdinClosed = true ∨ n ∈ s.lost) :
    Inv (terminate s n) := by
  unfold ChildProcess.terminate
  split_ifs
  · exact h
  · exact h.setChild ⟨id, id, id⟩ fun _ => hclosed

theorem Inv.kill {n : ℕ} (h : Inv s)
    (hclosed : (s.children n).stdinClosed = true ∨ n ∈ s.lost) :
    Inv (kill s n) := by
  unfold ChildProcess.kill
  split_ifs
  · exact h
  · exact h.setChild ⟨id, fun _ => rfl, id⟩ fun _ => hclosed

/-- A task that is not in an exchange gets another phase. -/
theorem holder_setTask {t : ℕ} {task : Task} (h : Inv s)
    (hold : ∀ op pipes, s.tasks t ≠ .exchanging op pipes)
    (hnew : ∀ op pipes, task ≠ .exchanging op pipes) (u : ℕ) (op : Operation) :
    (∃ pipes, Function.update s.tasks t task u = .exchanging op pipes) ↔
      s.holder op = some u := by
  rw [← h.holder_iff]
  by_cases hu : u = t
  · subst hu
    simp [hold, hnew]
  · rw [Function.update_of_ne hu]

theorem Inv.ask {t n : ℕ} {op : Operation} (h : Inv s) (ht : s.tasks t = .idle)
    (hproc : s.proc = some n) (hopen : s.closing = false) :
    Inv { setTask s t (.waiting op) with operations := insert t s.operations } where
  __ := h
  operation_iff u := by
    show u ∈ insert t s.operations ↔ (Function.update s.tasks t (.waiting op) u).operates = true
    by_cases hu : u = t
    · subst hu
      simp [Task.operates]
    · simp [hu, h.operation_iff]
  holder_iff := holder_setTask h (by simp [ht]) (by simp)
  connected _ _ := by
    show s.proc ≠ none
    simp [hproc]
  piped u op' := by
    show Function.update s.tasks t (.waiting op) u ≠ .exchanging op' none
    by_cases hu : u = t
    · subst hu
      simp
    · rw [Function.update_of_ne hu]
      exact h.piped u op'
  admits c := by
    have habsent : s.closers c = .absent := by
      by_contra hc
      exact absurd (h.closing c hc) (by simp [hopen])
    show (s.closers c).Admits _
    rw [habsent]
    trivial

theorem Inv.enter {t : ℕ} {op : Operation} (h : Inv s) (ht : s.tasks t = .waiting op)
    (hfree : s.holder op = none) : Inv (enter s t op) where
  __ := h
  operation_iff u := by
    show u ∈ s.operations ↔
      (Function.update s.tasks t (.exchanging op s.proc) u).operates = true
    by_cases hu : u = t
    · subst hu
      simp [Task.operates, h.operation_iff, ht]
    · rw [Function.update_of_ne hu, h.operation_iff]
  holder_iff u op' := by
    show (∃ pipes, Function.update s.tasks t (.exchanging op s.proc) u = .exchanging op' pipes) ↔
      Function.update s.holder op (some t) op' = some u
    by_cases hop : op' = op
    · subst hop
      rw [Function.update_self, Option.some.injEq]
      by_cases hu : u = t
      · subst hu
        simp
      · rw [Function.update_of_ne hu, h.holder_iff, hfree]
        simp [Ne.symm hu]
    · rw [Function.update_of_ne hop, ← h.holder_iff]
      by_cases hu : u = t
      · subst hu
        simp [ht, Ne.symm hop]
      · rw [Function.update_of_ne hu]
  piped u op' := by
    show Function.update s.tasks t (.exchanging op s.proc) u ≠ .exchanging op' none
    by_cases hu : u = t
    · subst hu
      have hproc := h.connected u ((h.operation_iff u).mpr (by simp [ht, Task.operates]))
      simp [hproc]
    · rw [Function.update_of_ne hu]
      exact h.piped u op'

/-- An operation is over, and so is its hold of the lock. -/
theorem Inv.endOperation {t : ℕ} {holder : Operation → Option ℕ} (h : Inv s)
    (hholder : ∀ u op, (u ≠ t ∧ s.holder op = some u) ↔ holder op = some u) :
    Inv { setTask s t .idle with holder := holder, operations := s.operations.erase t } where
  __ := h
  operation_iff u := by
    show u ∈ s.operations.erase t ↔ (Function.update s.tasks t .idle u).operates = true
    by_cases hu : u = t
    · subst hu
      simp [Task.operates]
    · rw [Function.update_of_ne hu, Finset.mem_erase, h.operation_iff]
      exact and_iff_right hu
  holder_iff u op := by
    show (∃ pipes, Function.update s.tasks t .idle u = .exchanging op pipes) ↔ holder op = some u
    rw [← hholder, ← h.holder_iff]
    by_cases hu : u = t
    · subst hu
      simp
    · simp [hu]
  connected u hu := h.connected u (Finset.mem_of_mem_erase hu)
  piped u op := by
    show Function.update s.tasks t .idle u ≠ .exchanging op none
    by_cases hu : u = t
    · subst hu
      simp
    · rw [Function.update_of_ne hu]
      exact h.piped u op
  admits c := (h.admits c).mono (Finset.erase_subset t s.operations)

theorem Inv.leave {t : ℕ} {op : Operation} {pipes : Option ℕ} (h : Inv s)
    (ht : s.tasks t = .exchanging op pipes) (failed : Bool) :
    Inv (leave s t op pipes failed) := by
  have hheld : s.holder op = some t := (h.holder_iff t op).mp ⟨pipes, ht⟩
  have hholder : ∀ u op', (u ≠ t ∧ s.holder op' = some u) ↔
      Function.update s.holder op none op' = some u := by
    intro u op'
    by_cases hop : op' = op
    · subst hop
      simp [hheld, eq_comm]
    · rw [Function.update_of_ne hop]
      refine and_iff_right_of_imp fun hu hut => hop ?_
      subst hut
      obtain ⟨pipes', hexchanging⟩ := (h.holder_iff u op').mpr hu
      cases ht.symm.trans hexchanging
      rfl
  unfold ChildProcess.leave
  split
  next n => exact (h.closeStdin n).endOperation hholder
  next => exact h.endOperation hholder

theorem Inv.abandon {t : ℕ} {op : Operation} (h : Inv s) (ht : s.tasks t = .waiting op) :
    Inv (abandon s t) := by
  refine h.endOperation fun u op' => and_iff_right_of_imp fun hu hut => ?_
  subst hut
  obtain ⟨pipes, hexchanging⟩ := (h.holder_iff u op').mpr hu
  cases ht.symm.trans hexchanging

theorem Inv.finish {t : ℕ} (h : Inv s) (ht : s.tasks t = .idle) : Inv (setTask s t .done) where
  __ := h
  operation_iff u := by
    show u ∈ s.operations ↔ (Function.update s.tasks t .done u).operates = true
    by_cases hu : u = t
    · subst hu
      simp [Task.operates, h.operation_iff, ht]
    · rw [Function.update_of_ne hu, h.operation_iff]
  holder_iff := holder_setTask h (by simp [ht]) (by simp)
  piped u op := by
    show Function.update s.tasks t .done u ≠ .exchanging op none
    by_cases hu : u = t
    · subst hu
      simp
    · rw [Function.update_of_ne hu]
      exact h.piped u op

theorem Inv.setConnector (h : Inv s) (k : ℕ) (phase : Connector) :
    Inv (setConnector s k phase) where
  __ := h

theorem Inv.launch (h : Inv s) (k : ℕ) : Inv (launch s k) where
  __ := h
  connected _ _ := Option.some_ne_none _
  holds c := (h.holds c).mono (Nat.le_succ _) fun _ => .refl _
  follows c := (h.follows c).mono (fun _ hn => Or.inr (mem_drop.mpr (Or.inr ⟨hn, nofun⟩)))
    (lost_subset_drop none) fun _ => .refl _
  escalates n hn := (h.escalates n hn).imp_right fun hlost => lost_subset_drop none hlost
  proc_lt n hn := by
    obtain rfl := Option.some.inj hn
    exact Nat.lt_succ_self _
  accounted n hn := by
    show _ ∨ some s.launched = some n ∨ n ∈ drop s none
    rw [mem_drop]
    obtain hn | rfl := Nat.lt_succ_iff_lt_or_eq.mp hn
    · obtain hexited | hproc | hlost := h.accounted n hn
      · exact Or.inl hexited
      · exact Or.inr (Or.inr (Or.inr ⟨hproc, nofun⟩))
      · exact Or.inr (Or.inr (Or.inl hlost))
    · exact Or.inr (Or.inl rfl)
  stderrs n hn := by
    show some s.launched = some n ∨ n ∈ drop s none
    rw [mem_drop]
    obtain rfl | hn := Finset.mem_insert.mp hn
    · exact Or.inl rfl
    · obtain hproc | hlost := h.stderrs n hn
      · exact Or.inr (Or.inr ⟨hproc, nofun⟩)
      · exact Or.inr (Or.inl hlost)

/-- A call of `close` goes on. -/
theorem Inv.moveCloser {c : ℕ} {phase : Closer} {lock : Option ℕ} (h : Inv s)
    (hpresent : s.closing = true)
    (hlock : ∀ d, (Function.update s.closers c phase d).active = true ↔ lock = some d)
    (hholds : phase.Holds s.launched s.children)
    (hfollows : phase.Follows s.proc s.lost s.children) (hadmits : phase.Admits s.operations)
    (hdrains : c ∈ s.drains → phase.mayDrain = true) :
    Inv { setCloser s c phase with lock := lock } where
  __ := h
  active_iff := hlock
  closing _ _ := hpresent
  follows d := by
    show (Function.update s.closers c phase d).Follows s.proc s.lost s.children
    by_cases hd : d = c
    · subst hd
      rwa [Function.update_self]
    · rw [Function.update_of_ne hd]
      exact h.follows d
  holds d := by
    show (Function.update s.closers c phase d).Holds s.launched s.children
    by_cases hd : d = c
    · subst hd
      rwa [Function.update_self]
    · rw [Function.update_of_ne hd]
      exact h.holds d
  admits d := by
    show (Function.update s.closers c phase d).Admits s.operations
    by_cases hd : d = c
    · subst hd
      rwa [Function.update_self]
    · rw [Function.update_of_ne hd]
      exact h.admits d
  drained d hd := by
    show (Function.update s.closers c phase d).mayDrain = true
    by_cases hdc : d = c
    · subst hdc
      rw [Function.update_self]
      exact hdrains hd
    · rw [Function.update_of_ne hdc]
      exact h.drained d hd

/-- The lock is held as before. -/
theorem active_setCloser {c : ℕ} {phase : Closer} (h : Inv s)
    (hactive : phase.active = (s.closers c).active) (d : ℕ) :
    (Function.update s.closers c phase d).active = true ↔ s.lock = some d := by
  by_cases hd : d = c
  · subst hd
    rw [Function.update_self, hactive, h.active_iff]
  · rw [Function.update_of_ne hd, h.active_iff]

theorem active_unlock {c : ℕ} {phase : Closer} (h : Inv s) (hactive : (s.closers c).active = true)
    (hphase : phase.active = false) (d : ℕ) :
    (Function.update s.closers c phase d).active = true ↔ none = some d := by
  by_cases hd : d = c
  · subst hd
    simp [hphase]
  · rw [Function.update_of_ne hd, h.active_iff, (h.active_iff c).mp hactive]
    simp [Ne.symm hd]

theorem Inv.present {c : ℕ} {phase : Closer} (h : Inv s) (hc : s.closers c = phase)
    (hphase : phase ≠ .absent) : s.closing = true :=
  h.closing c (hc ▸ hphase)

theorem Inv.setCloser {c : ℕ} {phase : Closer} (h : Inv s) (hpresent : s.closing = true)
    (hactive : phase.active = (s.closers c).active) (hholds : phase.Holds s.launched s.children)
    (hfollows : phase.Follows s.proc s.lost s.children) (hadmits : phase.Admits s.operations)
    (hdrains : c ∈ s.drains → phase.mayDrain = true) : Inv (setCloser s c phase) :=
  h.moveCloser hpresent (active_setCloser h hactive) hholds hfollows hadmits hdrains

theorem Inv.unlock {c : ℕ} {child : Option ℕ} {raised : Bool} (h : Inv s)
    (hactive : (s.closers c).active = true)
    (hholds : (Closer.ended child raised).Holds s.launched s.children)
    (hdrains : c ∈ s.drains → (Closer.ended child raised).mayDrain = true) :
    Inv (unlock s c child raised) := by
  have hpresent : s.closing = true := h.closing c (by
    intro habsent
    rw [habsent] at hactive
    cases hactive)
  exact h.moveCloser hpresent (active_unlock h hactive rfl) hholds trivial trivial hdrains

theorem Inv.enterClose {c : ℕ} (h : Inv s) (hc : s.closers c = .absent ∨ s.closers c = .locking)
    (hfree : s.lock = none) : Inv (enterClose s c) := by
  have hclosing : Inv { s with closing := true } := { h with closing := fun _ _ => rfl }
  have hidle : (s.closers c).active = false := by
    obtain hc | hc := hc <;> rw [hc] <;> rfl
  have hdrains : c ∉ s.drains := by
    intro hmem
    have hmay := h.drained c hmem
    obtain hc | hc := hc <;> rw [hc] at hmay <;> cases hmay
  unfold ChildProcess.enterClose
  split
  next =>
    exact hclosing.setCloser rfl hidle.symm trivial trivial trivial fun hmem =>
      absurd hmem hdrains
  next n hproc =>
    refine hclosing.moveCloser rfl (fun d => ?_) (h.proc_lt n hproc) (Or.inl hproc) subset_rfl
      fun hmem => absurd hmem hdrains
    show (Function.update s.closers c (.gathering n s.operations) d).active = true ↔ _
    by_cases hd : d = c
    · subst hd
      simp [Closer.active]
    · rw [Function.update_of_ne hd, h.active_iff, hfree]
      simp [Ne.symm hd]

theorem Inv.close {c : ℕ} (h : Inv s) (hc : s.closers c = .absent) : Inv (close s c) := by
  unfold ChildProcess.close
  split
  next hfree => exact h.enterClose (Or.inl hc) hfree
  next d hheld =>
    have hactive : (s.closers d).active = true := (h.active_iff d).mpr hheld
    have hpresent : s.closing = true := h.closing d (by
      intro habsent
      rw [habsent] at hactive
      cases hactive)
    refine h.setCloser hpresent (by rw [hc]; rfl) trivial trivial trivial fun hmem => ?_
    have hmay := h.drained c hmem
    rw [hc] at hmay
    cases hmay

/-- The tasks that were tracked are over, and no other one has begun an operation. -/
theorem Inv.operations_empty {c n : ℕ} {tracked : Finset ℕ} (h : Inv s)
    (hc : s.closers c = .gathering n tracked) (hdone : ∀ t ∈ tracked, s.tasks t = .done) :
    s.operations = ∅ := by
  have hadmits := h.admits c
  rw [hc] at hadmits
  apply Finset.eq_empty_of_forall_notMem
  intro t ht
  have hoperates := (h.operation_iff t).mp ht
  rw [hdone t (hadmits ht)] at hoperates
  cases hoperates

@[simp] theorem closeCurrent_closers : (closeCurrent s).closers = s.closers := by
  unfold closeCurrent
  split <;> rfl

@[simp] theorem closeCurrent_operations : (closeCurrent s).operations = s.operations := by
  unfold closeCurrent
  split <;> rfl

@[simp] theorem closeCurrent_launched : (closeCurrent s).launched = s.launched := by
  unfold closeCurrent
  split <;> rfl

@[simp] theorem closeCurrent_drains : (closeCurrent s).drains = s.drains := by
  unfold closeCurrent
  split <;> rfl

/-- Stdin is closed of the child of a call that is past `gather`, unless another one took its
place meanwhile. -/
theorem closeCurrent_follows {n : ℕ} (h : s.proc = some n ∨ n ∈ s.lost) :
    ((closeCurrent s).children n).stdinClosed = true ∨ n ∈ (closeCurrent s).lost := by
  obtain hproc | hlost := h
  · left
    unfold closeCurrent
    rw [hproc]
    show (Function.update s.children n _ n).stdinClosed = true
    rw [Function.update_self]
  · right
    unfold closeCurrent
    split <;> exact hlost

theorem Inv.gathered {c n : ℕ} {tracked : Finset ℕ} (h : Inv s)
    (hc : s.closers c = .gathering n tracked) (hdone : ∀ t ∈ tracked, s.tasks t = .done) :
    Inv (gathered s c n) := by
  have hn := h.holds c
  have hfollows := h.follows c
  rw [hc] at hn hfollows
  have hclosed := h.closeCurrent
  have hstopping : Inv (ChildProcess.setCloser (ChildProcess.closeCurrent s) c
      (.stopping n .eof)) := by
    refine hclosed.setCloser (hclosed.closing c (by simp [hc])) (by simp [hc, Closer.active])
      ⟨?_, nofun⟩ (closeCurrent_follows hfollows) ?_ fun _ => rfl
    · exact closeCurrent_launched.symm ▸ hn
    · exact closeCurrent_operations.trans (h.operations_empty hc hdone)
  exact {
    hstopping with
    drained := by
      intro d hd
      obtain rfl | hd := Finset.mem_insert.mp hd
      · have hphase : (ChildProcess.setCloser (ChildProcess.closeCurrent s) d
            (.stopping n .eof)).closers d = .stopping n .eof := Function.update_self ..
        exact congrArg Closer.mayDrain hphase
      · exact hstopping.drained d (closeCurrent_drains.symm ▸ hd) }

theorem kill_killed (n : ℕ) (hexited : (s.children n).exited = false) :
    ((kill s n).children n).killed = true := by
  unfold kill
  rw [if_neg (by simp [hexited])]
  show (Function.update s.children n _ n).killed = true
  rw [Function.update_self]

@[simp] theorem terminate_closers (n : ℕ) : (terminate s n).closers = s.closers := by
  unfold terminate
  split_ifs <;> rfl

@[simp] theorem kill_closers (n : ℕ) : (kill s n).closers = s.closers := by
  unfold kill
  split_ifs <;> rfl

@[simp] theorem kill_operations (n : ℕ) : (kill s n).operations = s.operations := by
  unfold kill
  split_ifs <;> rfl

@[simp] theorem terminate_operations (n : ℕ) : (terminate s n).operations = s.operations := by
  unfold terminate
  split_ifs <;> rfl

@[simp] theorem kill_launched (n : ℕ) : (kill s n).launched = s.launched := by
  unfold kill
  split_ifs <;> rfl

@[simp] theorem terminate_launched (n : ℕ) : (terminate s n).launched = s.launched := by
  unfold terminate
  split_ifs <;> rfl

@[simp] theorem terminate_stdinClosed (n : ℕ) :
    ((terminate s n).children n).stdinClosed = (s.children n).stdinClosed := by
  unfold terminate
  split_ifs
  · rfl
  · simp [setChild]

@[simp] theorem kill_stdinClosed (n : ℕ) :
    ((kill s n).children n).stdinClosed = (s.children n).stdinClosed := by
  unfold kill
  split_ifs
  · rfl
  · simp [setChild]

@[simp] theorem kill_lost (n : ℕ) : (kill s n).lost = s.lost := by
  unfold kill
  split_ifs <;> rfl

@[simp] theorem terminate_lost (n : ℕ) : (terminate s n).lost = s.lost := by
  unfold terminate
  split_ifs <;> rfl

theorem terminate_follows {n : ℕ} (h : (s.children n).stdinClosed = true ∨ n ∈ s.lost) :
    ((terminate s n).children n).stdinClosed = true ∨ n ∈ (terminate s n).lost := by
  rwa [terminate_stdinClosed, terminate_lost]

theorem kill_follows {n : ℕ} (h : (s.children n).stdinClosed = true ∨ n ∈ s.lost) :
    ((kill s n).children n).stdinClosed = true ∨ n ∈ (kill s n).lost := by
  rwa [kill_stdinClosed, kill_lost]

theorem Inv.interrupt {c n : ℕ} {stage : Stage} (h : Inv s)
    (hc : s.closers c = .stopping n stage) : Inv (interrupt s c n) := by
  have hholds := h.holds c
  have hclosed := h.follows c
  have hadmits := h.admits c
  rw [hc] at hholds hclosed hadmits
  have hpresent := h.present hc nofun
  unfold ChildProcess.interrupt
  split_ifs with hexited
  · exact h.setCloser hpresent (by rw [hc]; rfl) ⟨hholds.1, hexited⟩ trivial hadmits fun _ => rfl
  · have hkilled := h.kill hclosed
    have hphase : (Closer.stopping n .last).Holds (ChildProcess.kill s n).launched
        (ChildProcess.kill s n).children :=
      ⟨(kill_launched n).symm ▸ hholds.1, fun _ => kill_killed n (Bool.not_eq_true _ ▸ hexited)⟩
    refine hkilled.setCloser (hkilled.closing c ?_) ?_ hphase (kill_follows hclosed)
      ((kill_operations n).trans hadmits) fun _ => rfl
    · simp [hc]
    · simp [hc, Closer.active]

theorem Inv.giveUp {c n : ℕ} (h : Inv s) (hc : s.closers c = .stopping n .last) :
    Inv (ChildProcess.unlock s c (some n) true) := by
  have hholds := h.holds c
  rw [hc] at hholds
  obtain ⟨hn, hkilled⟩ := hholds
  exact h.unlock (by rw [hc]; rfl) ⟨hn, Or.inr (hkilled rfl), nofun⟩ fun _ => rfl

theorem Inv.expire {c n : ℕ} {stage : Stage} (h : Inv s) (hc : s.closers c = .stopping n stage) :
    Inv (expire s c n stage) := by
  have hholds := h.holds c
  have hclosed := h.follows c
  have hadmits := h.admits c
  rw [hc] at hholds hclosed hadmits
  cases stage with
  | eof =>
    have hterminated := h.terminate hclosed
    exact hterminated.setCloser (hterminated.closing c (by simp [hc])) (by simp [hc, Closer.active])
      ⟨(terminate_launched n).symm ▸ hholds.1, nofun⟩ (terminate_follows hclosed)
      ((terminate_operations n).trans hadmits) fun _ => rfl
  | terminate =>
    have hkilled := h.kill hclosed
    exact hkilled.setCloser (hkilled.closing c (by simp [hc])) (by simp [hc, Closer.active])
      ⟨(kill_launched n).symm ▸ hholds.1, nofun⟩ (kill_follows hclosed)
      ((kill_operations n).trans hadmits) fun _ => rfl
  | kill => exact h.interrupt hc
  | last => exact h.giveUp hc

theorem Inv.cancelStop {c n : ℕ} {stage : Stage} (h : Inv s)
    (hc : s.closers c = .stopping n stage) : Inv (cancelStop s c n stage) := by
  cases stage with
  | last => exact h.giveUp hc
  | eof | terminate | kill => exact h.interrupt hc

theorem Inv.release {c n : ℕ} {raises : Bool} (h : Inv s)
    (hc : s.closers c = .releasing n raises) : Inv (release s c n raises) := by
  have hholds := h.holds c
  have hadmits : s.operations = ∅ := by
    have hphase := h.admits c
    rwa [hc] at hphase
  have hlock : s.lock = some c := (h.active_iff c).mp (by rw [hc]; rfl)
  rw [hc] at hholds
  obtain ⟨hn, hexited⟩ := hholds
  have hreleased : Inv { s with drains := s.drains.erase c } := {
    h with drained := fun d hd => h.drained d (Finset.mem_of_mem_erase hd) }
  have hunlocked :
      Inv (ChildProcess.unlock { s with drains := s.drains.erase c } c (some n) raises) :=
    hreleased.unlock (by show (s.closers c).active = true; rw [hc]; rfl)
      ⟨hn, Or.inl hexited, fun _ => hexited⟩ fun hmem => absurd rfl (Finset.ne_of_mem_erase hmem)
  exact {
    hunlocked with
    follows := by
      intro d
      show (Function.update s.closers c _ d).Follows none (drop s (some n)) s.children
      by_cases hd : d = c
      · subst hd
        rw [Function.update_self]
        trivial
      · rw [Function.update_of_ne hd]
        apply Closer.follows_of_inactive
        by_contra hactive
        have hheld := (h.active_iff d).mp (Bool.of_not_eq_false hactive)
        exact hd (Option.some.inj (hheld.symm.trans hlock))
    escalates := fun m hm =>
      (h.escalates m hm).imp_right fun hlost => lost_subset_drop (some n) hlost
    connected := by
      intro t ht
      change t ∈ s.operations at ht
      rw [hadmits] at ht
      exact absurd ht (Finset.notMem_empty t)
    proc_lt := nofun
    accounted := by
      intro m hm
      show (s.children m).exited = true ∨ none = some m ∨ m ∈ drop s (some n)
      rw [mem_drop]
      by_cases hmn : m = n
      · subst hmn
        exact Or.inl hexited
      · obtain hgone | hproc | hlost := h.accounted m hm
        · exact Or.inl hgone
        · exact Or.inr (Or.inr (Or.inr ⟨hproc, fun h => hmn (Option.some.inj h).symm⟩))
        · exact Or.inr (Or.inr (Or.inl hlost))
    stderrs := by
      intro m hm
      obtain ⟨hm, hne⟩ := Finset.mem_filter.mp hm
      show none = some m ∨ m ∈ drop s (some n)
      rw [mem_drop]
      obtain hproc | hlost := h.stderrs m hm
      · exact absurd hproc.symm hne
      · exact Or.inr (Or.inl hlost) }

theorem Inv.step (h : Inv s) (hs : step s e = some s') : Inv s' := by
  cases step_way hs with
  | connected k =>
    unfold connect
    split_ifs
    · exact h.setConnector k .raised
    · exact h.setConnector k .launching
  | launched k => exact h.launch k
  | launchFailed k => exact h.setConnector k .raised
  | refused t op => exact h
  | asked t op n ht hproc hopen => exact h.ask ht hproc hopen
  | entered t op ht hfree => exact h.enter ht hfree
  | left t failed op pipes ht => exact h.leave ht failed
  | abandoned t op ht => exact h.abandon ht
  | finished t ht => exact h.finish ht
  | exited n => exact h.exit n
  | stderrEnded n =>
    exact { h with stderrs := fun m hm => h.stderrs m (Finset.mem_of_mem_erase hm) }
  | stdoutEnded c =>
    exact { h with drained := fun d hd => h.drained d (Finset.mem_of_mem_erase hd) }
  | closed c hc => exact h.close hc
  | locked c hc hfree => exact h.enterClose (Or.inr hc) hfree
  | gathered c n tracked hc hdone => exact h.gathered hc hdone
  | exitSeen c n stage hc hexit =>
    have hholds := h.holds c
    have hadmits := h.admits c
    rw [hc] at hholds hadmits
    exact h.setCloser (h.present hc nofun) (by rw [hc]; rfl) ⟨hholds.1, hexit⟩ trivial hadmits
      fun _ => rfl
  | expired c n stage hc => exact h.expire hc
  | cancelledLocking c hc =>
    refine h.setCloser (h.present hc nofun) (by rw [hc]; rfl) trivial trivial trivial
      fun hmem => ?_
    have hmay := h.drained c hmem
    rw [hc] at hmay
    cases hmay
  | cancelledGathering c n tracked hc =>
    refine h.unlock (by rw [hc]; rfl) trivial fun hmem => ?_
    have hmay := h.drained c hmem
    rw [hc] at hmay
    cases hmay
  | cancelledStopping c n stage hc => exact h.cancelStop hc
  | cancelledReleasing c n raises hc =>
    have hholds := h.holds c
    rw [hc] at hholds
    exact h.unlock (by rw [hc]; rfl) ⟨hholds.1, Or.inl hholds.2, nofun⟩ fun _ => rfl
  | released c n raises hc => exact h.release hc

theorem Inv.run {es : List Event} (h : Inv s)
    (hrun : Machine.run ChildProcess.step s es = some s') : Inv s' :=
  Machine.invariant (fun _ _ _ hs hstep => hs.step hstep) h hrun

theorem setChild_untouched {m : ℕ} {child : Child} (n : ℕ)
    (h : (s.children m).exited = true → child.terminated = (s.children m).terminated ∧
      child.killed = (s.children m).killed) (hexited : (s.children n).exited = true) :
    ((ChildProcess.setChild s m child).children n).terminated = (s.children n).terminated ∧
      ((ChildProcess.setChild s m child).children n).killed = (s.children n).killed := by
  show (Function.update s.children m child n).terminated = _ ∧
    (Function.update s.children m child n).killed = _
  by_cases hnm : n = m
  · subst hnm
    rw [Function.update_self]
    exact h hexited
  · rw [Function.update_of_ne hnm]
    exact ⟨rfl, rfl⟩

theorem terminate_untouched (m n : ℕ) (hexited : (s.children n).exited = true) :
    ((terminate s m).children n).terminated = (s.children n).terminated ∧
      ((terminate s m).children n).killed = (s.children n).killed := by
  unfold terminate
  split_ifs with hm
  · exact ⟨rfl, rfl⟩
  · exact setChild_untouched n (fun h => absurd h hm) hexited

theorem kill_untouched (m n : ℕ) (hexited : (s.children n).exited = true) :
    ((kill s m).children n).terminated = (s.children n).terminated ∧
      ((kill s m).children n).killed = (s.children n).killed := by
  unfold kill
  split_ifs with hm
  · exact ⟨rfl, rfl⟩
  · exact setChild_untouched n (fun h => absurd h hm) hexited

theorem interrupt_untouched (c m n : ℕ) (hexited : (s.children n).exited = true) :
    ((interrupt s c m).children n).terminated = (s.children n).terminated ∧
      ((interrupt s c m).children n).killed = (s.children n).killed := by
  unfold interrupt
  split_ifs
  · exact ⟨rfl, rfl⟩
  · exact kill_untouched m n hexited

/-- No signal goes to a child that has exited. -/
theorem exited_untouched {n : ℕ} (hs : ChildProcess.step s e = some s')
    (hexited : (s.children n).exited = true) :
    (s'.children n).terminated = (s.children n).terminated ∧
      (s'.children n).killed = (s.children n).killed := by
  cases step_way hs with
  | connected k =>
    unfold connect
    split_ifs <;> exact ⟨rfl, rfl⟩
  | left t failed op pipes =>
    unfold ChildProcess.leave
    split
    · exact setChild_untouched n (fun _ => ⟨rfl, rfl⟩) hexited
    · exact ⟨rfl, rfl⟩
  | exited m => exact setChild_untouched n (fun _ => ⟨rfl, rfl⟩) hexited
  | closed c =>
    unfold ChildProcess.close ChildProcess.enterClose
    split
    · split <;> exact ⟨rfl, rfl⟩
    · exact ⟨rfl, rfl⟩
  | locked c =>
    unfold ChildProcess.enterClose
    split <;> exact ⟨rfl, rfl⟩
  | gathered c m =>
    unfold ChildProcess.gathered closeCurrent
    split
    · exact setChild_untouched n (fun _ => ⟨rfl, rfl⟩) hexited
    · exact ⟨rfl, rfl⟩
  | expired c m stage =>
    cases stage with
    | eof => exact terminate_untouched m n hexited
    | terminate => exact kill_untouched m n hexited
    | kill => exact interrupt_untouched c m n hexited
    | last => exact ⟨rfl, rfl⟩
  | cancelledStopping c m stage =>
    cases stage with
    | last => exact ⟨rfl, rfl⟩
    | eof | terminate | kill => exact interrupt_untouched c m n hexited
  | launched k | launchFailed k | refused t op | asked t op m | entered t op | abandoned t op
    | finished t | stderrEnded m | stdoutEnded c | exitSeen c m stage | cancelledLocking c
    | cancelledGathering c m tracked | cancelledReleasing c m raises | released c m raises =>
    exact ⟨rfl, rfl⟩

end

/-- A child that has not exited is the process of the transport, where `close` finds it, or its
place was overwritten. Only one call of `close` is past the lock. One that got as far as
stopping a child has killed it or seen it exit when it ends, however it ends, and has seen it
exit when it returns. Terminate and kill go only to a child that runs, and come after its stdin
was closed, unless its place was overwritten. A task that exchanges a frame is alone with its
pipe, the pipe is that of a launched child, and no task does so while the child is stopped. -/
theorem child_accounted (es : List Event) (s : State) (h : Machine.run step {} es = some s) :
    (∀ n < s.launched, (s.children n).exited = true ∨ s.proc = some n ∨ n ∈ s.lost) ∧
      (∀ c d, (s.closers c).active = true → (s.closers d).active = true → c = d) ∧
      (∀ c n raised, s.closers c = .ended (some n) raised →
        ((s.children n).exited = true ∨ (s.children n).killed = true) ∧
          (raised = false → (s.children n).exited = true ∧ c ∉ s.drains)) ∧
      (∀ n, (s.children n).terminated = true ∨ (s.children n).killed = true →
        (s.children n).stdinClosed = true ∨ n ∈ s.lost) ∧
      (∀ n e s', step s e = some s' → (s.children n).exited = true →
        (s'.children n).terminated = (s.children n).terminated ∧
          (s'.children n).killed = (s.children n).killed) ∧
      (∀ t op pipes, s.tasks t = .exchanging op pipes → s.proc ≠ none ∧ pipes ≠ none ∧
        (∀ u pipes', s.tasks u = .exchanging op pipes' → u = t) ∧
        ∀ c n stage, s.closers c ≠ .stopping n stage) := by
  have hinv := inv_start.run h
  refine ⟨hinv.accounted, ?_, ?_, hinv.escalates, fun n e s' hs => exited_untouched hs, ?_⟩
  · intro c d hc hd
    exact Option.some.inj (((hinv.active_iff c).mp hc).symm.trans ((hinv.active_iff d).mp hd))
  · intro c n raised hc
    have hholds := hinv.holds c
    rw [hc] at hholds
    obtain ⟨-, hgone, hreturned⟩ := hholds
    refine ⟨hgone, fun hraised => ⟨hreturned hraised, fun hmem => ?_⟩⟩
    have hmay := hinv.drained c hmem
    rw [hc, hraised] at hmay
    cases hmay
  · intro t op pipes ht
    have hmem : t ∈ s.operations := (hinv.operation_iff t).mpr (by rw [ht]; rfl)
    refine ⟨hinv.connected t hmem, fun hnone => hinv.piped t op (hnone ▸ ht), ?_, ?_⟩
    · intro u pipes' hu
      have hheld := (hinv.holder_iff t op).mp ⟨pipes, ht⟩
      exact Option.some.inj (((hinv.holder_iff u op).mp ⟨pipes', hu⟩).symm.trans hheld)
    · intro c n stage hc
      have hadmits : (s.closers c).Admits s.operations := hinv.admits c
      rw [hc] at hadmits
      have hempty : s.operations = ∅ := hadmits
      rw [hempty] at hmem
      exact absurd hmem (Finset.notMem_empty t)

/-- A call of `close` is cancelled while it stops the child, and once more. -/
def twiceCancelledRun : List Event :=
  [.connect 0, .launch 0, .close 0, .gathered 0, .cancel 0, .cancel 0]

theorem child_accounted_cancelled : ∃ s, Machine.run step {} twiceCancelledRun = some s ∧
    s.closers 0 = .ended (some 0) true ∧ s.proc = some 0 ∧
      ((s.children 0).exited = true ∨ (s.children 0).killed = true) := by
  refine ⟨_, rfl, rfl, rfl, ?_⟩
  exact ((child_accounted twiceCancelledRun _ rfl).2.2.1 0 0 true rfl).1

/-- A second `connect` puts its child in the place of the one that `close` stops. -/
def overtakenRun : List Event :=
  [.connect 0, .connect 1, .launch 0, .ask 0 .read, .close 0, .launch 1, .abandon 0, .finish 0,
    .gathered 0, .expire 0]

/-- The stdin that is closed is not that of the child that is terminated. -/
example : (Machine.run step {} overtakenRun).map (fun s => ((s.children 0).terminated,
    (s.children 0).stdinClosed, (s.children 1).stdinClosed)) = some (true, false, true) := rfl

end WireRpc.ChildProcess
