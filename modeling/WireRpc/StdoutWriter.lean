import WireRpc.Codec
import WireRpc.Library.Machine
import Mathlib.Data.List.ReduceOption

/-!
# Writing to stdout

`_StdoutWriter`: `write`, `drain` and `close` run on the event loop, a daemon thread takes the
data from a queue and writes it to the descriptor. `os.write` may take a part of what it is
given, or fail. The loop goes on while the writer is in use.
-/
namespace WireRpc.StdoutWriter
open Library

/-- An `OSError`, by its number. -/
abbrev OSError := ℕ

/-- The daemon thread waits for an item, or writes one out, or has returned. -/
inductive Thread where
  | idle
  | writing (view : Bytes) (written : ℕ)
  | ended
  deriving DecidableEq

/-- What the thread posts to the loop: the calls of `settle`. -/
inductive Settle where
  | written (future : ℕ) (error : Option OSError)
  | finished
  deriving DecidableEq

/-- A call of `drain` waits for a future. `mark` says how many calls of `write` came before. -/
inductive DrainPhase where
  | idle
  | waiting (future mark : ℕ)
  | returned (mark : ℕ)
  | raised (error : OSError)
  | cancelled
  deriving DecidableEq

/-- `futures` and `finished` are the futures with their results. `accepted` is what the calls
of `write` took that did not raise, and names their futures; `closed` says that `close` was
called, and `markers` how often it put a `None`. These three belong to the history. -/
structure Writer where
  closing : Bool := false
  queue : List (Option (Bytes × ℕ)) := []
  last : Option ℕ := none
  futures : ℕ → Option (Option OSError) := fun _ => none
  finished : Bool := false
  thread : Thread := .idle
  error : Option OSError := none
  callbacks : List Settle := []
  descriptor : Bytes := []
  fileClosed : Bool := false
  drains : ℕ → DrainPhase := fun _ => .idle
  accepted : List Bytes := []
  closed : Bool := false
  markers : ℕ := 0

/-- A call of `drain` is named by a number. `cancel` is its cancellation or its timeout. -/
inductive Event where
  | write (data : Bytes)
  | drain (d : ℕ)
  | resume (d : ℕ)
  | cancel (d : ℕ)
  | close
  | callback
  | get
  | osWrite (count : ℕ)
  | osError (error : OSError)
  | settle
  deriving DecidableEq

namespace Writer

def setDrain (s : Writer) (d : ℕ) (phase : DrainPhase) : Writer :=
  { s with drains := Function.update s.drains d phase }

/-- The rest of `drain`, when its future has a result. -/
def drained (s : Writer) (d mark : ℕ) : Option OSError → Writer
  | none => s.setDrain d (.returned mark)
  | some error => { s with closing := true }.setDrain d (.raised error)

end Writer

/-- `settle`, on the loop. -/
def run (s : Writer) : Settle → Writer
  | .written future error =>
    if s.futures future = none then
      { s with futures := Function.update s.futures future (some error) }
    else s
  | .finished => { s with fileClosed := true, finished := true }

def step (s : Writer) : Event → Option Writer
  | .write data =>
    if s.closing then some s
    else
      some {
        s with
        last := some s.accepted.length
        queue := s.queue ++ [some (data, s.accepted.length)]
        accepted := s.accepted ++ [data] }
  | .drain d =>
    if s.drains d = .idle then
      match s.last with
      | none => some (s.setDrain d (.returned s.accepted.length))
      | some future =>
        match s.futures future with
        | none => some (s.setDrain d (.waiting future s.accepted.length))
        | some result => some (s.drained d s.accepted.length result)
    else none
  | .resume d =>
    match s.drains d with
    | .waiting future mark => (s.futures future).map fun result => s.drained d mark result
    | _ => none
  | .cancel d =>
    match s.drains d with
    | .waiting _ _ => some (s.setDrain d .cancelled)
    | _ => none
  | .close =>
    if s.closing then some { s with closed := true }
    else
      some {
        s with
        closing := true
        queue := s.queue ++ [none]
        closed := true
        markers := s.markers + 1 }
  | .callback =>
    match s.callbacks with
    | settle :: rest => some (run { s with callbacks := rest } settle)
    | [] => none
  | .get =>
    match s.thread, s.queue with
    | .idle, some (data, future) :: rest =>
      -- once a write has failed, nothing is written any more
      let view := if s.error = none then data else []
      some { s with queue := rest, thread := .writing view future }
    | .idle, none :: rest =>
      some { s with queue := rest, thread := .ended, callbacks := s.callbacks ++ [.finished] }
    | _, _ => none
  | .osWrite count =>
    match s.thread with
    | .writing view future =>
      if 1 ≤ count ∧ count ≤ view.length then
        some {
          s with
          descriptor := s.descriptor ++ view.take count
          thread := .writing (view.drop count) future }
      else none
    | _ => none
  | .osError error =>
    match s.thread with
    | .writing view future =>
      if view = [] then none
      else some { s with error := some error, thread := .writing [] future }
    | _ => none
  | .settle =>
    match s.thread with
    | .writing [] future =>
      some { s with thread := .idle, callbacks := s.callbacks ++ [.written future s.error] }
    | _ => none

/-- The steps, one constructor for each way through the code. -/
inductive Move (s : Writer) : Event → Writer → Prop where
  | rejected (data : Bytes) (h : s.closing = true) : Move s (.write data) s
  | accepted (data : Bytes) (h : s.closing = false) : Move s (.write data) {
      s with
      last := some s.accepted.length
      queue := s.queue ++ [some (data, s.accepted.length)]
      accepted := s.accepted ++ [data] }
  | nothing (d : ℕ) (h : s.last = none) :
      Move s (.drain d) (s.setDrain d (.returned s.accepted.length))
  | waits (d future : ℕ) (h : s.last = some future) (hfuture : s.futures future = none) :
      Move s (.drain d) (s.setDrain d (.waiting future s.accepted.length))
  | done (d future : ℕ) (result : Option OSError) (h : s.last = some future)
      (hfuture : s.futures future = some result) :
      Move s (.drain d) (s.drained d s.accepted.length result)
  | resumed (d future mark : ℕ) (result : Option OSError)
      (h : s.drains d = .waiting future mark) (hfuture : s.futures future = some result) :
      Move s (.resume d) (s.drained d mark result)
  | cancelled (d future mark : ℕ) (h : s.drains d = .waiting future mark) :
      Move s (.cancel d) (s.setDrain d .cancelled)
  | closedAgain (h : s.closing = true) : Move s .close { s with closed := true }
  | closed (h : s.closing = false) : Move s .close {
      s with
      closing := true
      queue := s.queue ++ [none]
      closed := true
      markers := s.markers + 1 }
  | called (settle : Settle) (rest : List Settle) (h : s.callbacks = settle :: rest) :
      Move s .callback (run { s with callbacks := rest } settle)
  | taken (data : Bytes) (future : ℕ) (rest : List (Option (Bytes × ℕ)))
      (h : s.thread = .idle) (hqueue : s.queue = some (data, future) :: rest) : Move s .get {
      s with
      queue := rest
      thread := .writing (if s.error = none then data else []) future }
  | ended (rest : List (Option (Bytes × ℕ))) (h : s.thread = .idle)
      (hqueue : s.queue = none :: rest) : Move s .get {
      s with
      queue := rest
      thread := .ended
      callbacks := s.callbacks ++ [.finished] }
  | wrote (view : Bytes) (future count : ℕ) (h : s.thread = .writing view future)
      (hcount : 1 ≤ count ∧ count ≤ view.length) : Move s (.osWrite count) {
      s with
      descriptor := s.descriptor ++ view.take count
      thread := .writing (view.drop count) future }
  | failed (view : Bytes) (future : ℕ) (error : OSError) (h : s.thread = .writing view future)
      (hview : view ≠ []) : Move s (.osError error) {
      s with
      error := some error
      thread := .writing [] future }
  | reported (future : ℕ) (h : s.thread = .writing [] future) : Move s .settle {
      s with
      thread := .idle
      callbacks := s.callbacks ++ [.written future s.error] }

variable {s s' : Writer} {done pending : List Bytes}

theorem step_move {e : Event} (hs : step s e = some s') : Move s e s' := by
  cases e with
  | write data =>
    simp only [step] at hs
    split_ifs at hs with hclosing
    · exact Option.some.inj hs ▸ .rejected data hclosing
    · exact Option.some.inj hs ▸ .accepted data (by simpa using hclosing)
  | drain d =>
    obtain ⟨-, hs⟩ := Option.ite_none_right_eq_some.mp hs
    split at hs
    case h_1 hlast => exact Option.some.inj hs ▸ .nothing d hlast
    case h_2 future hlast =>
      split at hs
      case h_1 hfuture => exact Option.some.inj hs ▸ .waits d future hlast hfuture
      case h_2 result hfuture => exact Option.some.inj hs ▸ .done d future result hlast hfuture
  | resume d =>
    simp only [step] at hs
    split at hs
    case h_1 future mark hwaiting =>
      obtain ⟨result, hfuture, rfl⟩ := Option.map_eq_some_iff.mp hs
      exact .resumed d future mark result hwaiting hfuture
    case h_2 => nomatch hs
  | cancel d =>
    simp only [step] at hs
    split at hs
    case h_1 future mark hwaiting => exact Option.some.inj hs ▸ .cancelled d future mark hwaiting
    case h_2 => nomatch hs
  | close =>
    simp only [step] at hs
    split_ifs at hs with hclosing
    · exact Option.some.inj hs ▸ .closedAgain hclosing
    · exact Option.some.inj hs ▸ .closed (by simpa using hclosing)
  | callback =>
    simp only [step] at hs
    split at hs
    case h_1 settle rest hcallbacks => exact Option.some.inj hs ▸ .called settle rest hcallbacks
    case h_2 => nomatch hs
  | get =>
    simp only [step] at hs
    split at hs
    case h_1 data future rest hthread hqueue =>
      exact Option.some.inj hs ▸ .taken data future rest hthread hqueue
    case h_2 rest hthread hqueue => exact Option.some.inj hs ▸ .ended rest hthread hqueue
    case h_3 => nomatch hs
  | osWrite count =>
    simp only [step] at hs
    split at hs
    case h_1 view future hthread =>
      obtain ⟨hcount, hs⟩ := Option.ite_none_right_eq_some.mp hs
      exact Option.some.inj hs ▸ .wrote view future count hthread hcount
    case h_2 => nomatch hs
  | osError error =>
    simp only [step] at hs
    split at hs
    case h_1 view future hthread =>
      obtain ⟨hview, hs⟩ := Option.ite_none_left_eq_some.mp hs
      exact Option.some.inj hs ▸ .failed view future error hthread hview
    case h_2 => nomatch hs
  | settle =>
    simp only [step] at hs
    split at hs
    case h_1 future hthread => exact Option.some.inj hs ▸ .reported future hthread
    case h_2 => nomatch hs

/-- What the thread has yet to write of its item. -/
def Thread.view : Thread → Bytes
  | .writing view _ => view
  | _ => []

/-- The thread has taken `done` from the queue, and `pending` is still there. Unless a write
has failed, all of `done` but the view has reached the descriptor. -/
structure Wrote (s : Writer) (done pending : List Bytes) : Prop where
  accepted : s.accepted = done ++ pending
  queue : s.queue.reduceOption = pending.zipIdx done.length
  busy : ∀ view future, s.thread = .writing view future → future + 1 = done.length
  written : s.error = none → s.descriptor ++ s.thread.view = done.flatten
  failed : s.error ≠ none → s.thread.view = []
  reached : s.descriptor <+: done.flatten

theorem Wrote.congr (h : Wrote s done pending) (haccepted : s'.accepted = s.accepted)
    (hqueue : s'.queue.reduceOption = s.queue.reduceOption) (hthread : s'.thread = s.thread)
    (herror : s'.error = s.error) (hdescriptor : s'.descriptor = s.descriptor) :
    Wrote s' done pending where
  accepted := haccepted.trans h.accepted
  queue := hqueue.trans h.queue
  busy := by rw [hthread]; exact h.busy
  written := by rw [herror, hthread, hdescriptor]; exact h.written
  failed := by rw [herror, hthread]; exact h.failed
  reached := by rw [hdescriptor]; exact h.reached

theorem Wrote.drained (h : Wrote s done pending) (d mark : ℕ) (result : Option OSError) :
    Wrote (s.drained d mark result) done pending := by
  cases result with
  | none => exact h.congr rfl rfl rfl rfl rfl
  | some error => exact h.congr rfl rfl rfl rfl rfl

theorem Wrote.run (h : Wrote s done pending) (settle : Settle) :
    Wrote (StdoutWriter.run s settle) done pending := by
  cases settle with
  | written future error =>
    simp only [StdoutWriter.run]
    split_ifs
    · exact h.congr rfl rfl rfl rfl rfl
    · exact h
  | finished => exact h.congr rfl rfl rfl rfl rfl

theorem Wrote.write (h : Wrote s done pending) (data : Bytes) :
    Wrote { s with
      last := some s.accepted.length
      queue := s.queue ++ [some (data, s.accepted.length)]
      accepted := s.accepted ++ [data] } done (pending ++ [data]) where
  accepted := by
    show s.accepted ++ [data] = _
    rw [h.accepted, List.append_assoc]
  queue := by
    show (s.queue ++ [some (data, s.accepted.length)]).reduceOption = _
    rw [List.reduceOption_append, h.queue, List.zipIdx_append, h.accepted, List.length_append]
    rfl
  busy := h.busy
  written := h.written
  failed := h.failed
  reached := h.reached

/-- The thread takes the next item. -/
theorem Wrote.get {data : Bytes} {future : ℕ} {rest : List (Option (Bytes × ℕ))}
    (h : Wrote s done pending) (hidle : s.thread = .idle)
    (hqueue : s.queue = some (data, future) :: rest) :
    ∃ done' pending', Wrote { s with
      queue := rest
      thread := .writing (if s.error = none then data else []) future } done' pending' := by
  have hitems := h.queue
  rw [hqueue, List.reduceOption_cons_of_some] at hitems
  cases pending with
  | nil => nomatch hitems
  | cons first pending =>
    rw [List.zipIdx_cons] at hitems
    obtain ⟨hfirst, hrest⟩ := List.cons.inj hitems
    obtain ⟨rfl, rfl⟩ := Prod.mk.inj hfirst
    refine ⟨done ++ [data], pending, ?_, ?_, ?_, ?_, ?_, ?_⟩
    · rw [List.append_assoc]
      exact h.accepted
    · rw [List.length_append]
      exact hrest
    · intro view future' hthread
      obtain ⟨-, rfl⟩ := Thread.writing.inj hthread
      rw [List.length_append]
      rfl
    · intro herror
      have hwritten := h.written herror
      rw [hidle] at hwritten
      have hall : s.descriptor = done.flatten := by simpa [Thread.view] using hwritten
      simp only [Thread.view, if_pos (show s.error = none from herror), hall]
      simp
    · exact fun herror => if_neg herror
    · have hmore : done.flatten <+: (done ++ [data]).flatten := by simp
      exact h.reached.trans hmore

theorem Wrote.end (h : Wrote s done pending) {rest : List (Option (Bytes × ℕ))}
    (hidle : s.thread = .idle) (hqueue : s.queue = none :: rest) :
    Wrote { s with
      queue := rest
      thread := .ended
      callbacks := s.callbacks ++ [.finished] } done pending where
  accepted := h.accepted
  queue := by
    have hitems := h.queue
    rwa [hqueue, List.reduceOption_cons_of_none] at hitems
  busy := nofun
  written herror := by
    have hwritten := h.written herror
    rwa [hidle] at hwritten
  failed _ := rfl
  reached := h.reached

/-- `os.write` takes a part of the view. -/
theorem Wrote.osWrite (h : Wrote s done pending) {view : Bytes} {future count : ℕ}
    (hthread : s.thread = .writing view future) (hcount : 1 ≤ count ∧ count ≤ view.length) :
    Wrote { s with
      descriptor := s.descriptor ++ view.take count
      thread := .writing (view.drop count) future } done pending := by
  have herror : s.error = none := by
    by_contra herror
    have hview := h.failed herror
    rw [hthread] at hview
    obtain rfl : view = [] := hview
    simp at hcount
    omega
  have hwritten := h.written herror
  rw [hthread] at hwritten
  have hparts : (s.descriptor ++ view.take count) ++ view.drop count = done.flatten := by
    rw [List.append_assoc, List.take_append_drop]
    exact hwritten
  refine ⟨h.accepted, h.queue, ?_, fun _ => hparts, fun hfailed => absurd herror hfailed, ?_⟩
  · intro view' future' hview
    obtain ⟨-, rfl⟩ := Thread.writing.inj hview
    exact h.busy view future hthread
  · exact ⟨view.drop count, hparts⟩

theorem Wrote.osError (h : Wrote s done pending) {view : Bytes} {future : ℕ} {error : OSError}
    (hthread : s.thread = .writing view future) :
    Wrote { s with error := some error, thread := .writing [] future } done pending where
  accepted := h.accepted
  queue := h.queue
  busy view' future' hview := by
    obtain ⟨-, rfl⟩ := Thread.writing.inj hview
    exact h.busy view future hthread
  written := nofun
  failed _ := rfl
  reached := h.reached

theorem Wrote.settle (h : Wrote s done pending) {future : ℕ} {callbacks : List Settle}
    (hthread : s.thread = .writing [] future) :
    Wrote { s with thread := .idle, callbacks := callbacks } done pending where
  accepted := h.accepted
  queue := h.queue
  busy := nofun
  written herror := by
    have hwritten := h.written herror
    rwa [hthread] at hwritten
  failed _ := rfl
  reached := h.reached

theorem Wrote.step {e : Event} (h : Wrote s done pending) (hs : step s e = some s') :
    ∃ done' pending', Wrote s' done' pending' := by
  cases step_move hs with
  | rejected data hclosing => exact ⟨_, _, h⟩
  | accepted data hopen => exact ⟨_, _, h.write data⟩
  | nothing d hlast => exact ⟨_, _, h.congr rfl rfl rfl rfl rfl⟩
  | waits d future hlast hfuture => exact ⟨_, _, h.congr rfl rfl rfl rfl rfl⟩
  | done d future result hlast hfuture => exact ⟨_, _, h.drained d _ result⟩
  | resumed d future mark result hwaiting hfuture => exact ⟨_, _, h.drained d mark result⟩
  | cancelled d future mark hwaiting => exact ⟨_, _, h.congr rfl rfl rfl rfl rfl⟩
  | closedAgain hclosing => exact ⟨_, _, h.congr rfl rfl rfl rfl rfl⟩
  | closed hopen =>
    refine ⟨_, _, h.congr rfl ?_ rfl rfl rfl⟩
    exact (List.reduceOption_append _ _).trans (List.append_nil _)
  | called settle rest hcallbacks =>
    have hpopped : Wrote { s with callbacks := rest } done pending := h.congr rfl rfl rfl rfl rfl
    exact ⟨_, _, hpopped.run settle⟩
  | taken data future rest hthread hqueue => exact h.get hthread hqueue
  | ended rest hthread hqueue => exact ⟨_, _, h.end hthread hqueue⟩
  | wrote view future count hthread hcount => exact ⟨_, _, h.osWrite hthread hcount⟩
  | failed view future error hthread hview => exact ⟨_, _, h.osError hthread⟩
  | reported future hthread => exact ⟨_, _, h.settle hthread⟩

/-- The thread has reported that the item is written, or it has been passed on. -/
def Succeeded (s : Writer) (future : ℕ) : Prop :=
  s.futures future = some none ∨ .written future none ∈ s.callbacks

/-- What a future or a call of `drain` stands for is at the descriptor. -/
structure Told (s : Writer) : Prop where
  last : ∀ future, s.last = some future → future + 1 = s.accepted.length
  first : s.last = none → s.accepted = []
  succeeded : ∀ future, Succeeded s future → future < s.accepted.length ∧
    (s.accepted.take (future + 1)).flatten <+: s.descriptor
  waiting : ∀ d future mark, s.drains d = .waiting future mark →
    future + 1 = mark ∧ mark ≤ s.accepted.length
  returned : ∀ d mark, s.drains d = .returned mark → mark ≤ s.accepted.length ∧
    (s.accepted.take mark).flatten <+: s.descriptor

theorem told_new : Told {} where
  last := nofun
  first _ := rfl
  succeeded _ h := by
    obtain hdone | hposted := h
    · nomatch hdone
    · nomatch hposted
  waiting := nofun
  returned := nofun

theorem Told.congr (h : Told s) (hlast : s'.last = s.last) (haccepted : s'.accepted = s.accepted)
    (hdrains : s'.drains = s.drains) (hdescriptor : s.descriptor <+: s'.descriptor)
    (hsucceeded : ∀ future, Succeeded s' future → Succeeded s future) : Told s' where
  last := by rw [hlast, haccepted]; exact h.last
  first := by rw [hlast, haccepted]; exact h.first
  succeeded future hfuture := by
    obtain ⟨hlt, hreached⟩ := h.succeeded future (hsucceeded future hfuture)
    rw [haccepted]
    exact ⟨hlt, hreached.trans hdescriptor⟩
  waiting := by rw [hdrains, haccepted]; exact h.waiting
  returned d mark hd := by
    rw [hdrains] at hd
    obtain ⟨hle, hreached⟩ := h.returned d mark hd
    rw [haccepted]
    exact ⟨hle, hreached.trans hdescriptor⟩

/-- A call of `drain` goes on. -/
theorem Told.setDrain (h : Told s) {d : ℕ} {phase : DrainPhase} (closing : Bool)
    (hwaiting : ∀ future mark, phase = .waiting future mark →
      future + 1 = mark ∧ mark ≤ s.accepted.length)
    (hreturned : ∀ mark, phase = .returned mark → mark ≤ s.accepted.length ∧
      (s.accepted.take mark).flatten <+: s.descriptor) :
    Told ({ s with closing := closing }.setDrain d phase) where
  last := h.last
  first := h.first
  succeeded := h.succeeded
  waiting d' future mark hd := by
    have hd : Function.update s.drains d phase d' = .waiting future mark := hd
    by_cases hsame : d' = d
    · subst hsame
      rw [Function.update_self] at hd
      exact hwaiting future mark hd
    · rw [Function.update_of_ne hsame] at hd
      exact h.waiting d' future mark hd
  returned d' mark hd := by
    have hd : Function.update s.drains d phase d' = .returned mark := hd
    by_cases hsame : d' = d
    · subst hsame
      rw [Function.update_self] at hd
      exact hreturned mark hd
    · rw [Function.update_of_ne hsame] at hd
      exact h.returned d' mark hd

/-- `drain` returns when the future has the result `None`. -/
theorem Told.drained (h : Told s) {d future mark : ℕ} {result : Option OSError}
    (hmark : future + 1 = mark) (hresult : s.futures future = some result) :
    Told (s.drained d mark result) := by
  cases result with
  | none =>
    obtain ⟨hlt, hreached⟩ := h.succeeded future (Or.inl hresult)
    apply h.setDrain s.closing
    · nofun
    · intro mark' hphase
      obtain rfl := DrainPhase.returned.inj hphase
      rw [hmark] at hreached
      exact ⟨by omega, hreached⟩
  | some error =>
    apply h.setDrain true
    · nofun
    · nofun

theorem Told.run (h : Told s) {settle : Settle} {rest : List Settle}
    (hcallbacks : s.callbacks = settle :: rest) :
    Told (StdoutWriter.run { s with callbacks := rest } settle) := by
  cases settle with
  | written future error =>
    simp only [StdoutWriter.run]
    have hposted (future' : ℕ) (hmem : Settle.written future' none ∈ rest) :
        Succeeded s future' := by
      apply Or.inr
      rw [hcallbacks]
      exact List.mem_cons_of_mem _ hmem
    split_ifs with hpending
    · refine h.congr rfl rfl rfl List.prefix_rfl fun future' hsucceeded => ?_
      obtain hdone | hmem := hsucceeded
      · have hdone : Function.update s.futures future (some error) future' = some none := hdone
        by_cases hsame : future' = future
        · subst hsame
          rw [Function.update_self] at hdone
          obtain rfl := Option.some.inj hdone
          apply Or.inr
          rw [hcallbacks]
          exact List.mem_cons_self
        · rw [Function.update_of_ne hsame] at hdone
          exact Or.inl hdone
      · exact hposted future' hmem
    · refine h.congr rfl rfl rfl List.prefix_rfl fun future' hsucceeded => ?_
      obtain hdone | hmem := hsucceeded
      · exact Or.inl hdone
      · exact hposted future' hmem
  | finished =>
    refine h.congr rfl rfl rfl List.prefix_rfl fun future' hsucceeded => ?_
    obtain hdone | hmem := hsucceeded
    · exact Or.inl hdone
    · apply Or.inr
      rw [hcallbacks]
      exact List.mem_cons_of_mem _ hmem

theorem Told.write (h : Told s) (data : Bytes) :
    Told { s with
      last := some s.accepted.length
      queue := s.queue ++ [some (data, s.accepted.length)]
      accepted := s.accepted ++ [data] } := by
  have htake {n : ℕ} (hn : n ≤ s.accepted.length) :
      (s.accepted ++ [data]).take n = s.accepted.take n := List.take_append_of_le_length hn
  have hlength : (s.accepted ++ [data]).length = s.accepted.length + 1 := by simp
  refine ⟨fun future hlast => ?_, nofun, fun future hsucceeded => ?_, fun d future mark hd => ?_,
    fun d mark hd => ?_⟩
  · obtain rfl := Option.some.inj hlast
    exact hlength.symm
  · obtain ⟨hlt, hreached⟩ := h.succeeded future hsucceeded
    constructor
    · show future < (s.accepted ++ [data]).length
      omega
    · show ((s.accepted ++ [data]).take (future + 1)).flatten <+: s.descriptor
      rwa [htake (by omega)]
  · obtain ⟨hmark, hle⟩ := h.waiting d future mark hd
    refine ⟨hmark, ?_⟩
    show mark ≤ (s.accepted ++ [data]).length
    omega
  · obtain ⟨hle, hreached⟩ := h.returned d mark hd
    constructor
    · show mark ≤ (s.accepted ++ [data]).length
      omega
    · show ((s.accepted ++ [data]).take mark).flatten <+: s.descriptor
      rwa [htake hle]

/-- The thread reports an item that it has written, or could not write. -/
theorem Told.settle (h : Told s) (hwrote : Wrote s done pending) {future : ℕ}
    (hthread : s.thread = .writing [] future) :
    Told { s with thread := .idle, callbacks := s.callbacks ++ [.written future s.error] } where
  last := h.last
  first := h.first
  succeeded future' hsucceeded := by
    obtain hdone | hmem := hsucceeded
    · exact h.succeeded future' (Or.inl hdone)
    · obtain hmem | hnew := List.mem_append.mp hmem
      · exact h.succeeded future' (Or.inr hmem)
      · obtain ⟨rfl, herror⟩ := Settle.written.inj (List.mem_singleton.mp hnew)
        have hwritten := hwrote.written herror.symm
        rw [hthread] at hwritten
        have hall : s.descriptor = done.flatten := by simpa [Thread.view] using hwritten
        have hbusy := hwrote.busy [] future' hthread
        constructor
        · show future' < s.accepted.length
          rw [hwrote.accepted, List.length_append]
          omega
        · show (s.accepted.take (future' + 1)).flatten <+: s.descriptor
          rw [hwrote.accepted, hbusy, List.take_left, hall]
  waiting := h.waiting
  returned := h.returned

theorem Told.step {e : Event} (h : Told s) (hwrote : Wrote s done pending)
    (hs : step s e = some s') : Told s' := by
  cases step_move hs with
  | rejected data hclosing => exact h
  | accepted data hopen => exact h.write data
  | nothing d hlast =>
    apply h.setDrain s.closing
    · nofun
    · intro mark hphase
      obtain rfl := DrainPhase.returned.inj hphase
      rw [h.first hlast]
      exact ⟨le_rfl, List.nil_prefix⟩
  | waits d future hlast hfuture =>
    apply h.setDrain s.closing
    · intro future' mark hphase
      obtain ⟨rfl, rfl⟩ := DrainPhase.waiting.inj hphase
      exact ⟨h.last future hlast, le_rfl⟩
    · nofun
  | done d future result hlast hfuture => exact h.drained (h.last future hlast) hfuture
  | resumed d future mark result hwaiting hfuture =>
    exact h.drained (h.waiting d future mark hwaiting).1 hfuture
  | cancelled d future mark hwaiting => exact h.setDrain s.closing nofun nofun
  | closedAgain hclosing => exact h.congr rfl rfl rfl List.prefix_rfl fun _ hf => hf
  | closed hopen => exact h.congr rfl rfl rfl List.prefix_rfl fun _ hf => hf
  | called settle rest hcallbacks => exact h.run hcallbacks
  | taken data future rest hthread hqueue =>
    exact h.congr rfl rfl rfl List.prefix_rfl fun _ hf => hf
  | ended rest hthread hqueue =>
    refine h.congr rfl rfl rfl List.prefix_rfl fun future hf => ?_
    obtain hdone | hmem := hf
    · exact Or.inl hdone
    · obtain hmem | hnew := List.mem_append.mp hmem
      · exact Or.inr hmem
      · nomatch List.mem_singleton.mp hnew
  | wrote view future count hthread hcount =>
    exact h.congr rfl rfl rfl (List.prefix_append _ _) fun _ hf => hf
  | failed view future error hthread hview =>
    exact h.congr rfl rfl rfl List.prefix_rfl fun _ hf => hf
  | reported future hthread => exact h.settle hwrote hthread

def Inv (s : Writer) : Prop := (∃ done pending, Wrote s done pending) ∧ Told s

theorem inv_new : Inv {} := by
  refine ⟨⟨[], [], rfl, rfl, nofun, fun _ => rfl, fun _ => rfl, List.nil_prefix⟩, told_new⟩

theorem Inv.step {e : Event} (h : Inv s) (hs : step s e = some s') : Inv s' := by
  obtain ⟨⟨done, pending, hwrote⟩, htold⟩ := h
  exact ⟨hwrote.step hs, htold.step hwrote hs⟩

theorem inv_run {es : List Event} (h : Machine.run StdoutWriter.step {} es = some s) : Inv s :=
  Machine.invariant (fun _ _ _ hs hstep => hs.step hstep) inv_new h

/-- Once a write has failed, the error stays and nothing reaches the descriptor. -/
theorem failed_step {e : Event} {error : OSError} (h : Wrote s done pending)
    (herror : s.error = some error) (hs : step s e = some s') :
    s'.error = some error ∧ s'.descriptor = s.descriptor := by
  have hview : s.thread.view = [] := h.failed (by simp [herror])
  cases step_move hs with
  | done d future result | resumed d future mark result =>
    cases result with
    | none => exact ⟨herror, rfl⟩
    | some _ => exact ⟨herror, rfl⟩
  | called settle rest hcallbacks =>
    cases settle with
    | written future result =>
      simp only [run]
      split_ifs
      · exact ⟨herror, rfl⟩
      · exact ⟨herror, rfl⟩
    | finished => exact ⟨herror, rfl⟩
  | wrote view future count hthread hcount =>
    rw [hthread] at hview
    obtain rfl : view = [] := hview
    simp at hcount
    omega
  | failed view future error' hthread hne =>
    rw [hthread] at hview
    exact absurd hview hne
  | rejected | accepted | nothing | waits | cancelled | closedAgain | closed | taken | ended
  | reported => exact ⟨herror, rfl⟩

theorem failed_run {es : List Event} {error : OSError} (hinv : Inv s)
    (herror : s.error = some error) (h : Machine.run step s es = some s') :
    s'.descriptor = s.descriptor := by
  induction es generalizing s with
  | nil => exact congrArg Writer.descriptor (Option.some.inj h).symm
  | cons e es ih =>
    obtain ⟨t, ht, hrun⟩ := Option.bind_eq_some_iff.mp h
    obtain ⟨done, pending, hwrote⟩ := hinv.1
    obtain ⟨herror', hdescriptor⟩ := failed_step hwrote herror ht
    exact (ih (hinv.step ht) herror' hrun).trans hdescriptor

/-- Whatever the loop and the thread do in whatever order, the descriptor has a beginning of the
data that was given to `write`. After a write error nothing is added to it. A call of `drain`
that has returned found all data of the earlier calls of `write` there. -/
theorem stdout_integrity (es : List Event) (h : Machine.run step {} es = some s) :
    s.descriptor <+: s.accepted.flatten ∧
      (∀ d mark, s.drains d = .returned mark →
        mark ≤ s.accepted.length ∧ (s.accepted.take mark).flatten <+: s.descriptor) ∧
      ∀ error, s.error = some error → ∀ fs s', Machine.run step s fs = some s' →
        s'.descriptor = s.descriptor := by
  have hinv := inv_run h
  obtain ⟨⟨done, pending, hwrote⟩, htold⟩ := id hinv
  refine ⟨?_, htold.returned, fun error herror fs s' hfs => failed_run hinv herror hfs⟩
  have hpart : done.flatten <+: s.accepted.flatten := by
    rw [hwrote.accepted, List.flatten_append]
    exact List.prefix_append _ _
  exact hwrote.reached.trans hpart

/-- The first item is written in two parts while one of two calls of `drain` gives up. The pipe
breaks before the second. -/
def brokenPipe : List Event :=
  [.write [1, 2, 3], .drain 0, .drain 1, .get, .osWrite 2, .cancel 1, .osWrite 1, .settle,
    .callback, .resume 0, .write [4], .drain 2, .get, .osError 32, .settle, .callback, .resume 2]

theorem stdout_integrity_brokenPipe : ∃ s, Machine.run step {} brokenPipe = some s ∧
    s.descriptor = [1, 2, 3] ∧ s.drains 2 = .raised 32 ∧ s.drains 0 = .returned 1 ∧
      (s.accepted.take 1).flatten <+: s.descriptor := by
  have hrun : (Machine.run step {} brokenPipe).map (fun s => (s.descriptor, s.drains 2,
      s.drains 0)) = some ([1, 2, 3], .raised 32, .returned 1) := by
    decide +kernel
  obtain ⟨s, hs, hends⟩ := Option.map_eq_some_iff.mp hrun
  simp only [Prod.mk.injEq] at hends
  obtain ⟨hdescriptor, hraised, hreturned⟩ := hends
  have hall := (stdout_integrity brokenPipe hs).2.1 0 1 hreturned
  exact ⟨s, hs, hdescriptor, hraised, hreturned, hall.2⟩

end WireRpc.StdoutWriter
