import WireRpc.Codec
import WireRpc.Library.Machine

/-!
# The TCP client

`TcpClientTransport`. Tasks call `connect`, `recv` and `send`, each of them one operation at a
time, and any number of calls of `close` run beside them. Between its operations a task runs
code of its own, and `close` waits for tasks, not for operations. Sockets are numbered as they
are opened. An event is a stretch between two awaits; one that fails an await stands for an
exception there as well as for a timeout and a cancellation.
-/
namespace WireRpc.TcpClient
open Library

structure Config where
  keepAlive : Bool
  authenticates : Bool
  maxFrameSize : ℕ

/-- Where a task stands: in `open_connection`, in `authenticate`, in the `_close_writer` of a
failed `connect`; before `read_lock`, in `_read_frame`, in the `close` of the connection after
that; before `write_lock`, in `drain`, in the `close` of the connection after a failed send. -/
inductive Task where
  | idle
  | opening
  | authenticating (w : ℕ)
  | dismissing (w : ℕ)
  | beforeRead (w : ℕ)
  | reading (w : ℕ)
  | failedRead (w : ℕ)
  | beforeWrite (w : ℕ) (data : Bytes)
  | draining (w : ℕ)
  | failedWrite (w : ℕ)
  | ended
  deriving DecidableEq

namespace Task

/-- The task is in the `with` block of `_track_operation`. -/
def tracked : Task → Bool
  | .idle | .dismissing _ | .ended => false
  | _ => true

/-- The task is in `connect`. -/
def connects : Task → Bool
  | .opening | .authenticating _ | .dismissing _ => true
  | _ => false

/-- The connection that a `recv` or a `send` is about. -/
def uses : Task → Option ℕ
  | .beforeRead w | .reading w | .failedRead w | .beforeWrite w _ | .draining w | .failedWrite w =>
    some w
  | _ => none

/-- The connection whose `read_lock` the task holds. -/
def readsFrom : Task → Option ℕ
  | .reading w | .failedRead w => some w
  | _ => none

/-- The connection whose `write_lock` the task holds. -/
def writesTo : Task → Option ℕ
  | .draining w => some w
  | _ => none

/-- The connection that the task closes after a failure. -/
def failed : Task → Option ℕ
  | .failedRead w | .failedWrite w => some w
  | _ => none

variable {p : Task} {w : ℕ}

theorem tracked_of_uses (h : p.uses = some w) : p.tracked = true := by
  cases p <;> first | rfl | cases h

theorem not_connects (h : p.uses = some w) : ¬ p.connects = true := by
  cases p <;> first | exact Bool.false_ne_true | cases h

/-- Outside of `_track_operation` a task has to do with no connection. -/
theorem outside (h : p.tracked = false) :
    p.uses = none ∧ p.failed = none ∧ p.readsFrom = none ∧ p.writesTo = none := by
  cases p <;> first | exact ⟨rfl, rfl, rfl, rfl⟩ | cases h

theorem connects_holds (h : p.connects = true) : p.readsFrom = none ∧ p.writesTo = none := by
  cases p <;> first | exact ⟨rfl, rfl⟩ | cases h

theorem reads_holds (h : p.readsFrom = some w) : ¬ p.connects = true ∧ p.writesTo = none := by
  cases p <;> first | exact ⟨Bool.false_ne_true, rfl⟩ | cases h

end Task

/-- Where a call of `close` stands: in `_drain_tasks`, in the `close` of the connection. -/
inductive Closer where
  | absent
  | draining (tracked : Finset ℕ)
  | closingConnection
  | returned
  | cancelled
  deriving DecidableEq

/-- `closed` is `writer.is_closing()`. The sockets opened, the connections ever kept and the
frames written belong to the history. -/
structure State where
  connecting : Bool := false
  connection : Option ℕ := none
  closing : Bool := false
  inflight : Finset ℕ := ∅
  tasks : ℕ → Task := fun _ => .idle
  closers : ℕ → Closer := fun _ => .absent
  closed : ℕ → Bool := fun _ => false
  readLock : ℕ → Option ℕ := fun _ => none
  writeLock : ℕ → Option ℕ := fun _ => none
  opened : ℕ := 0
  kept : List ℕ := []
  wrote : List (ℕ × Bytes) := []

/-- `refused` is a socket that takes no keep-alive options, and `idle` a connection past its
idle deadline. `cancelWait` is the cancellation of a task that waits for a lock, `lost` a
connection that the peer or the network ends. -/
inductive Event where
  | connect (t : ℕ)
  | opened (t : ℕ) (refused : Bool)
  | openFailed (t : ℕ)
  | authenticated (t : ℕ)
  | authFailed (t : ℕ)
  | dismissed (t : ℕ)
  | recv (t : ℕ)
  | takeRead (t : ℕ)
  | read (t : ℕ)
  | readFailed (t : ℕ)
  | readClosed (t : ℕ)
  | send (t : ℕ) (data : Bytes) (idle : Bool)
  | takeWrite (t : ℕ)
  | drained (t : ℕ)
  | drainFailed (t : ℕ)
  | writeClosed (t : ℕ)
  | cancelWait (t : ℕ)
  | finish (t : ℕ)
  | lost (w : ℕ)
  | beginClose (k : ℕ)
  | tasksDrained (k : ℕ)
  | connectionClosed (k : ℕ)
  | cancelClose (k : ℕ)
  deriving DecidableEq

section
variable (c : Config) (s : State)

def goto (t : ℕ) (task : Task) : State := { s with tasks := Function.update s.tasks t task }

/-- `_track_operation` lets the task in. -/
def enter (t : ℕ) (task : Task) : State := { goto s t task with inflight := insert t s.inflight }

/-- The task leaves the block of `_track_operation`. -/
def leave (t : ℕ) (task : Task) : State := { goto s t task with inflight := s.inflight.erase t }

def closeWriter (w : ℕ) : State := { s with closed := Function.update s.closed w true }

def setReadLock (w : ℕ) (holder : Option ℕ) : State :=
  { s with readLock := Function.update s.readLock w holder }

def setWriteLock (w : ℕ) (holder : Option ℕ) : State :=
  { s with writeLock := Function.update s.writeLock w holder }

def setCloser (k : ℕ) (phase : Closer) : State :=
  { s with closers := Function.update s.closers k phase }

/-- `_track_operation` is left before the writer is closed. -/
def dismiss (t w : ℕ) : State := closeWriter (leave s t (.dismissing w)) w

/-- The end of `connect`. -/
def keep (t w : ℕ) : State :=
  if s.closing then dismiss s t w
  else
    { leave s t .idle with
      connection := some w
      connecting := false
      kept := s.kept ++ [w] }

def connect (t : ℕ) : State :=
  if s.connecting || s.connection.isSome || s.closing then s
  else { enter s t .opening with connecting := true }

def openedSocket (t : ℕ) (refused : Bool) : State :=
  let w := s.opened
  let s := { s with opened := s.opened + 1 }
  if c.keepAlive && refused then dismiss s t w
  else if c.authenticates then goto s t (.authenticating w)
  else keep s t w

def recv (t : ℕ) : State :=
  if s.closing then s
  else
    match s.connection with
    | some w => enter s t (.beforeRead w)
    | none => s

def takeRead (t w : ℕ) : State :=
  if s.closed w then leave s t .idle else setReadLock (goto s t (.reading w)) w (some t)

def send (t : ℕ) (data : Bytes) (idle : Bool) : State :=
  if s.closing then s
  else
    match s.connection with
    | none => s
    | some w =>
      if data.length = 0 ∨ data.length > c.maxFrameSize then s
      else if idle then closeWriter (enter s t (.failedWrite w)) w
      else enter s t (.beforeWrite w data)

/-- The header and the payload are written without an await between them. -/
def takeWrite (t w : ℕ) (data : Bytes) : State :=
  if s.closed w then closeWriter (goto s t (.failedWrite w)) w
  else
    { setWriteLock (goto s t (.draining w)) w (some t) with
      wrote := s.wrote ++ [(w, data)] }

/-- A `send` that is cancelled before the lock closes the connection, a `recv` does not. -/
def cancelWait (t : ℕ) : Option State :=
  match s.tasks t with
  | .beforeRead _ => some (leave s t .idle)
  | .beforeWrite w _ => some (closeWriter (goto s t (.failedWrite w)) w)
  | _ => none

/-- `close` after `_drain_tasks`. -/
def tasksDrained (k : ℕ) : State :=
  match s.connection with
  | some w => closeWriter (setCloser s k .closingConnection) w
  | none => setCloser s k .returned

def beginClose (k : ℕ) : State :=
  let s := { s with closing := true }
  if s.inflight = ∅ then tasksDrained s k else setCloser s k (.draining s.inflight)

def connectionClosed (k : ℕ) : State := { setCloser s k .returned with connection := none }

def step : Event → Option State
  | .connect t => if s.tasks t = .idle then some (connect s t) else none
  | .opened t refused => if s.tasks t = .opening then some (openedSocket c s t refused) else none
  | .openFailed t =>
    if s.tasks t = .opening then some { leave s t .idle with connecting := false } else none
  | .authenticated t =>
    match s.tasks t with
    | .authenticating w => some (keep s t w)
    | _ => none
  | .authFailed t =>
    match s.tasks t with
    | .authenticating w => some (dismiss s t w)
    | _ => none
  | .dismissed t =>
    match s.tasks t with
    | .dismissing _ => some { goto s t .idle with connecting := false }
    | _ => none
  | .recv t => if s.tasks t = .idle then some (recv s t) else none
  | .takeRead t =>
    match s.tasks t with
    | .beforeRead w => if s.readLock w = none then some (takeRead s t w) else none
    | _ => none
  | .read t =>
    match s.tasks t with
    | .reading w => some (setReadLock (leave s t .idle) w none)
    | _ => none
  | .readFailed t =>
    match s.tasks t with
    | .reading w => some (closeWriter (goto s t (.failedRead w)) w)
    | _ => none
  | .readClosed t =>
    match s.tasks t with
    | .failedRead w => some (setReadLock (leave s t .idle) w none)
    | _ => none
  | .send t data idle => if s.tasks t = .idle then some (send c s t data idle) else none
  | .takeWrite t =>
    match s.tasks t with
    | .beforeWrite w data => if s.writeLock w = none then some (takeWrite s t w data) else none
    | _ => none
  | .drained t =>
    match s.tasks t with
    | .draining w => some (setWriteLock (leave s t .idle) w none)
    | _ => none
  | .drainFailed t =>
    match s.tasks t with
    | .draining w => some (closeWriter (setWriteLock (goto s t (.failedWrite w)) w none) w)
    | _ => none
  | .writeClosed t =>
    match s.tasks t with
    | .failedWrite _ => some (leave s t .idle)
    | _ => none
  | .cancelWait t => cancelWait s t
  | .finish t => if s.tasks t = .idle then some (goto s t .ended) else none
  | .lost w => if w < s.opened then some (closeWriter s w) else none
  | .beginClose k => if s.closers k = .absent then some (beginClose s k) else none
  | .tasksDrained k =>
    match s.closers k with
    | .draining tracked =>
      if ∀ t ∈ tracked, s.tasks t = .ended then some (tasksDrained s k) else none
    | _ => none
  | .connectionClosed k =>
    if s.closers k = .closingConnection then some (connectionClosed s k) else none
  | .cancelClose k =>
    match s.closers k with
    | .draining _ | .closingConnection => some (setCloser s k .cancelled)
    | _ => none

end

section
variable {c : Config} {s s' s'' : State} {t u w : ℕ} {e : Event}

/-- What `send` lets through. -/
def Sendable (c : Config) (data : Bytes) : Prop :=
  ¬ (data.length = 0 ∨ data.length > c.maxFrameSize)

/-- All that a step can do. -/
inductive Way (c : Config) (s : State) : Event → State → Prop where
  | refused (e : Event) : Way c s e s
  | connects (t : ℕ) (ht : s.tasks t = .idle) (hconnecting : s.connecting = false)
      (hnone : s.connection = none) (hopen : s.closing = false) :
      Way c s (.connect t) { enter s t .opening with connecting := true }
  | opens (t : ℕ) (refused : Bool) (ht : s.tasks t = .opening) :
      Way c s (.opened t refused) (openedSocket c s t refused)
  | openFails (t : ℕ) (ht : s.tasks t = .opening) :
      Way c s (.openFailed t) { leave s t .idle with connecting := false }
  | authenticates (t w : ℕ) (ht : s.tasks t = .authenticating w) :
      Way c s (.authenticated t) (keep s t w)
  | authFails (t w : ℕ) (ht : s.tasks t = .authenticating w) :
      Way c s (.authFailed t) (dismiss s t w)
  | dismisses (t w : ℕ) (ht : s.tasks t = .dismissing w) :
      Way c s (.dismissed t) { goto s t .idle with connecting := false }
  | receives (t w : ℕ) (ht : s.tasks t = .idle) (hconnected : s.connection = some w)
      (hopen : s.closing = false) : Way c s (.recv t) (enter s t (.beforeRead w))
  | takesRead (t w : ℕ) (ht : s.tasks t = .beforeRead w) (hfree : s.readLock w = none) :
      Way c s (.takeRead t) (setReadLock (goto s t (.reading w)) w (some t))
  | readEnds (e : Event) (t w : ℕ) (ht : (s.tasks t).readsFrom = some w) :
      Way c s e (setReadLock (leave s t .idle) w none)
  | readFails (t w : ℕ) (ht : s.tasks t = .reading w) :
      Way c s (.readFailed t) (closeWriter (goto s t (.failedRead w)) w)
  | sends (t w : ℕ) (data : Bytes) (ht : s.tasks t = .idle) (hconnected : s.connection = some w)
      (hopen : s.closing = false) (hdata : Sendable c data) :
      Way c s (.send t data false) (enter s t (.beforeWrite w data))
  | sendIsLate (t w : ℕ) (data : Bytes) (ht : s.tasks t = .idle)
      (hconnected : s.connection = some w) (hopen : s.closing = false) :
      Way c s (.send t data true) (closeWriter (enter s t (.failedWrite w)) w)
  | takesWrite (t w : ℕ) (data : Bytes) (ht : s.tasks t = .beforeWrite w data)
      (hfree : s.writeLock w = none) (hopen : s.closed w = false) :
      Way c s (.takeWrite t) { setWriteLock (goto s t (.draining w)) w (some t) with
        wrote := s.wrote ++ [(w, data)] }
  | writeEnds (t w : ℕ) (ht : s.tasks t = .draining w) :
      Way c s (.drained t) (setWriteLock (leave s t .idle) w none)
  | drainFails (t w : ℕ) (ht : s.tasks t = .draining w) :
      Way c s (.drainFailed t)
        (closeWriter (setWriteLock (goto s t (.failedWrite w)) w none) w)
  | writeFails (e : Event) (t w : ℕ) (data : Bytes) (ht : s.tasks t = .beforeWrite w data) :
      Way c s e (closeWriter (goto s t (.failedWrite w)) w)
  | leaves (e : Event) (t w : ℕ) (ht : s.tasks t = .beforeRead w ∨ s.tasks t = .failedWrite w) :
      Way c s e (leave s t .idle)
  | finishes (t : ℕ) (ht : s.tasks t = .idle) : Way c s (.finish t) (goto s t .ended)
  | loses (w : ℕ) : Way c s (.lost w) (closeWriter s w)
  | begins (k : ℕ) (hk : s.closers k = .absent) : Way c s (.beginClose k) (beginClose s k)
  | drains (k : ℕ) (tracked : Finset ℕ) (hk : s.closers k = .draining tracked)
      (hended : ∀ t ∈ tracked, s.tasks t = .ended) : Way c s (.tasksDrained k) (tasksDrained s k)
  | closes (k : ℕ) (hk : s.closers k = .closingConnection) :
      Way c s (.connectionClosed k) (connectionClosed s k)
  | gaveUp (k : ℕ) (hk : s.closers k ≠ .absent) :
      Way c s (.cancelClose k) (setCloser s k .cancelled)

theorem connect_way (ht : s.tasks t = .idle) : Way c s (.connect t) (connect s t) := by
  unfold connect
  split_ifs with hbusy
  · exact .refused _
  · simp only [Bool.or_eq_true, not_or, Bool.not_eq_true, Option.isSome_eq_false_iff,
      Option.isNone_iff_eq_none] at hbusy
    exact .connects t ht hbusy.1.1 hbusy.1.2 hbusy.2

theorem recv_way (ht : s.tasks t = .idle) : Way c s (.recv t) (recv s t) := by
  unfold recv
  split_ifs with hclosing
  · exact .refused _
  · split
    case h_1 w hconnected => exact .receives t w ht hconnected (by simpa using hclosing)
    case h_2 => exact .refused _

theorem send_way {data : Bytes} {idle : Bool} (ht : s.tasks t = .idle) :
    Way c s (.send t data idle) (send c s t data idle) := by
  unfold send
  by_cases hclosing : s.closing = true
  · rw [if_pos hclosing]
    exact .refused _
  rw [if_neg hclosing]
  split
  case h_1 => exact .refused _
  case h_2 w hconnected =>
    split_ifs with hdata hidle
    · exact .refused _
    · subst hidle
      exact .sendIsLate t w data ht hconnected (by simpa using hclosing)
    · obtain rfl : idle = false := by simpa using hidle
      exact .sends t w data ht hconnected (by simpa using hclosing) hdata

theorem step_way (hs : step c s e = some s') : Way c s e s' := by
  cases e with
  | connect t =>
    obtain ⟨ht, hs⟩ := Option.ite_none_right_eq_some.mp hs
    exact Option.some.inj hs ▸ connect_way ht
  | opened t refused =>
    obtain ⟨ht, hs⟩ := Option.ite_none_right_eq_some.mp hs
    exact Option.some.inj hs ▸ .opens t refused ht
  | openFailed t =>
    obtain ⟨ht, hs⟩ := Option.ite_none_right_eq_some.mp hs
    exact Option.some.inj hs ▸ .openFails t ht
  | recv t =>
    obtain ⟨ht, hs⟩ := Option.ite_none_right_eq_some.mp hs
    exact Option.some.inj hs ▸ recv_way ht
  | send t data idle =>
    obtain ⟨ht, hs⟩ := Option.ite_none_right_eq_some.mp hs
    exact Option.some.inj hs ▸ send_way ht
  | finish t =>
    obtain ⟨ht, hs⟩ := Option.ite_none_right_eq_some.mp hs
    exact Option.some.inj hs ▸ .finishes t ht
  | lost w =>
    obtain ⟨-, hs⟩ := Option.ite_none_right_eq_some.mp hs
    exact Option.some.inj hs ▸ .loses w
  | beginClose k =>
    obtain ⟨hk, hs⟩ := Option.ite_none_right_eq_some.mp hs
    exact Option.some.inj hs ▸ .begins k hk
  | connectionClosed k =>
    obtain ⟨hk, hs⟩ := Option.ite_none_right_eq_some.mp hs
    exact Option.some.inj hs ▸ .closes k hk
  | takeRead t =>
    simp only [step] at hs
    split at hs
    case h_1 w ht =>
      obtain ⟨hfree, hs⟩ := Option.ite_none_right_eq_some.mp hs
      obtain rfl := Option.some.inj hs
      unfold takeRead
      split_ifs
      · exact .leaves _ t w (Or.inl ht)
      · exact .takesRead t w ht hfree
    case h_2 => cases hs
  | takeWrite t =>
    simp only [step] at hs
    split at hs
    case h_1 w data ht =>
      obtain ⟨hfree, hs⟩ := Option.ite_none_right_eq_some.mp hs
      obtain rfl := Option.some.inj hs
      unfold takeWrite
      split_ifs with hclosed
      · exact .writeFails _ t w data ht
      · exact .takesWrite t w data ht hfree (by simpa using hclosed)
    case h_2 => cases hs
  | cancelWait t =>
    simp only [step, cancelWait] at hs
    split at hs
    case h_1 w ht => exact Option.some.inj hs ▸ .leaves _ t w (Or.inl ht)
    case h_2 w data ht => exact Option.some.inj hs ▸ .writeFails _ t w data ht
    case h_3 => cases hs
  | tasksDrained k =>
    simp only [step] at hs
    split at hs
    case h_1 tracked hk =>
      obtain ⟨hended, hs⟩ := Option.ite_none_right_eq_some.mp hs
      exact Option.some.inj hs ▸ .drains k tracked hk hended
    case h_2 => cases hs
  | cancelClose k =>
    simp only [step] at hs
    split at hs
    case h_1 tracked hk =>
      exact Option.some.inj hs ▸ .gaveUp k (by rw [hk]; rintro ⟨⟩)
    case h_2 hk => exact Option.some.inj hs ▸ .gaveUp k (by rw [hk]; rintro ⟨⟩)
    case h_3 => cases hs
  | authenticated t =>
    simp only [step] at hs
    split at hs
    case h_1 w ht => exact Option.some.inj hs ▸ .authenticates t w ht
    case h_2 => cases hs
  | authFailed t =>
    simp only [step] at hs
    split at hs
    case h_1 w ht => exact Option.some.inj hs ▸ .authFails t w ht
    case h_2 => cases hs
  | dismissed t =>
    simp only [step] at hs
    split at hs
    case h_1 w ht => exact Option.some.inj hs ▸ .dismisses t w ht
    case h_2 => cases hs
  | read t =>
    simp only [step] at hs
    split at hs
    case h_1 w ht => exact Option.some.inj hs ▸ .readEnds _ t w (by rw [ht]; rfl)
    case h_2 => cases hs
  | readFailed t =>
    simp only [step] at hs
    split at hs
    case h_1 w ht => exact Option.some.inj hs ▸ .readFails t w ht
    case h_2 => cases hs
  | readClosed t =>
    simp only [step] at hs
    split at hs
    case h_1 w ht => exact Option.some.inj hs ▸ .readEnds _ t w (by rw [ht]; rfl)
    case h_2 => cases hs
  | drained t =>
    simp only [step] at hs
    split at hs
    case h_1 w ht => exact Option.some.inj hs ▸ .writeEnds t w ht
    case h_2 => cases hs
  | drainFailed t =>
    simp only [step] at hs
    split at hs
    case h_1 w ht => exact Option.some.inj hs ▸ .drainFails t w ht
    case h_2 => cases hs
  | writeClosed t =>
    simp only [step] at hs
    split at hs
    case h_1 w ht => exact Option.some.inj hs ▸ .leaves _ t w (Or.inr ht)
    case h_2 => cases hs

end

end WireRpc.TcpClient
