import WireRpc.StdoutWriter

/-!
# Closing stdout

`close` sets `_closing` and puts the end marker, a `None`, on the queue, unless `_closing` is
set. A failing `drain` sets `_closing` too, and puts no marker.
-/
namespace WireRpc.StdoutWriter
open Library

/-- A step of the thread, or of what it posted to the loop. -/
def service : Event → Bool
  | .callback | .get | .osWrite _ | .osError _ | .settle => true
  | _ => false

/-- How many steps an item takes at most, until `settle` has run for it. -/
def cost : Option (Bytes × ℕ) → ℕ
  | some (data, _) => data.length + 3
  | none => 2

def Thread.cost : Thread → ℕ
  | .writing view _ => view.length + 2
  | _ => 0

def work (s : Writer) : ℕ := (s.queue.map cost).sum + s.thread.cost + s.callbacks.length

/-- The thread has returned, the file is closed and `wait_closed` has its result. Nothing is
left to write, and unless a write failed everything is written. -/
structure ShutDown (s : Writer) : Prop where
  thread : s.thread = .ended
  queue : s.queue = []
  file : s.fileClosed = true
  finished : s.finished = true
  written : s.error = none → s.descriptor = s.accepted.flatten

/-- Whatever happens, the thread takes finitely many steps, and when it can take none the writer
has shut down. -/
def Completes (s : Writer) : Prop :=
  ∀ es s', Machine.run step s es = some s' → es.countP service ≤ work s ∧
    ((∀ e, service e = true → step s' e = none) → ShutDown s')

/-- After a call of `close` the end marker has been put once, so the writer shuts down. -/
def EndsAfterClose (s : Writer) : Prop := s.closed = true → s.markers = 1 ∧ Completes s

/-- The first `close` finds `_closing` unset: no call of `drain` has raised a write error
(`closing_iff_raised`). -/
def ClosedInTime (s : Writer) (e : Event) : Prop :=
  e = .close → s.closed = false → s.closing = false

instance (s : Writer) (e : Event) : Decidable (ClosedInTime s e) :=
  inferInstanceAs (Decidable (_ → _ → _))

/-- The marker is the last thing on the queue, or the thread has taken it. -/
inductive Marked (s : Writer) : Prop where
  | queued (items : List (Option (Bytes × ℕ))) (h : s.queue = items ++ [none])
      (hitems : none ∉ items) (hthread : s.thread ≠ .ended)
  | taken (h : s.queue = []) (hthread : s.thread = .ended)
      (hfinished : .finished ∈ s.callbacks ∨ s.fileClosed = true ∧ s.finished = true)

/-- Without a marker the thread goes on for ever. -/
structure Unmarked (s : Writer) : Prop where
  queue : none ∉ s.queue
  thread : s.thread ≠ .ended
  callbacks : .finished ∉ s.callbacks
  file : s.fileClosed = false
  finished : s.finished = false

/-- Who has set `_closing` has put the marker, or was a `drain` that failed. -/
structure Marking (s : Writer) : Prop where
  opened : s.closing = false → s.markers = 0 ∧ s.closed = false
  unclosed : s.closed = false → s.markers = 0
  marked : s.markers = 1 ∧ Marked s ∨ s.markers = 0 ∧ Unmarked s

theorem marking_new : Marking {} where
  opened _ := ⟨rfl, rfl⟩
  unclosed _ := rfl
  marked := Or.inr ⟨rfl, ⟨nofun, nofun, nofun, rfl, rfl⟩⟩

variable {s s' : Writer}

/-- The step touches neither the marker nor what becomes of it. -/
structure Apart (s s' : Writer) : Prop where
  markers : s'.markers = s.markers
  queue : s'.queue = s.queue
  thread : s'.thread = .ended ↔ s.thread = .ended
  callbacks : .finished ∈ s'.callbacks ↔ .finished ∈ s.callbacks
  file : s'.fileClosed = s.fileClosed
  finished : s'.finished = s.finished

theorem Apart.refl (h : s'.markers = s.markers) (hqueue : s'.queue = s.queue)
    (hthread : s'.thread = s.thread) (hcallbacks : s'.callbacks = s.callbacks)
    (hfile : s'.fileClosed = s.fileClosed) (hfinished : s'.finished = s.finished) : Apart s s' :=
  ⟨h, hqueue, by rw [hthread], by rw [hcallbacks], hfile, hfinished⟩

theorem Apart.drained (d mark : ℕ) (result : Option OSError) :
    Apart s (s.drained d mark result) := by
  cases result with
  | none => exact .refl rfl rfl rfl rfl rfl rfl
  | some error => exact .refl rfl rfl rfl rfl rfl rfl

theorem Apart.marked (h : Apart s s') :
    s.markers = 1 ∧ Marked s ∨ s.markers = 0 ∧ Unmarked s →
      s'.markers = 1 ∧ Marked s' ∨ s'.markers = 0 ∧ Unmarked s' := by
  rw [h.markers]
  refine Or.imp (And.imp_right fun hmarked => ?_) (And.imp_right fun hunmarked => ?_)
  · cases hmarked with
    | queued items hitems hnone hthread =>
      exact .queued items (h.queue.trans hitems) hnone fun hended => hthread (h.thread.mp hended)
    | taken hempty hthread hfinished =>
      refine .taken (h.queue.trans hempty) (h.thread.mpr hthread) ?_
      rw [h.callbacks, h.file, h.finished]
      exact hfinished
  · constructor
    · rw [h.queue]
      exact hunmarked.queue
    · exact fun hended => hunmarked.thread (h.thread.mp hended)
    · exact fun hmem => hunmarked.callbacks (h.callbacks.mp hmem)
    · exact h.file.trans hunmarked.file
    · exact h.finished.trans hunmarked.finished

theorem Marking.apart (h : Marking s) (hclosing : s'.closing = false → s.closing = false)
    (hclosed : s'.closed = s.closed) (hapart : Apart s s') : Marking s' where
  opened hopen := by
    rw [hapart.markers, hclosed]
    exact h.opened (hclosing hopen)
  unclosed hopen := by
    rw [hapart.markers]
    exact h.unclosed (hclosed ▸ hopen)
  marked := hapart.marked h.marked

theorem Unmarked.of_open (h : Marking s) (hopen : s.closing = false) : Unmarked s := by
  obtain ⟨hone, -⟩ | ⟨-, hunmarked⟩ := h.marked
  · nomatch hone.symm.trans (h.opened hopen).1
  · exact hunmarked

theorem drained_closing (d mark : ℕ) (result : Option OSError) :
    (s.drained d mark result).closing = false → s.closing = false := by
  cases result with
  | none => exact fun hopen => hopen
  | some error => nofun

theorem Marking.run (h : Marking s) {settle : Settle} {rest : List Settle}
    (hcallbacks : s.callbacks = settle :: rest) :
    Marking (StdoutWriter.run { s with callbacks := rest } settle) := by
  cases settle with
  | written future error =>
    have hmem : Settle.finished ∈ rest ↔ .finished ∈ s.callbacks := by simp [hcallbacks]
    simp only [StdoutWriter.run]
    split_ifs
    · exact h.apart (fun hopen => hopen) rfl ⟨rfl, rfl, Iff.rfl, hmem, rfl, rfl⟩
    · exact h.apart (fun hopen => hopen) rfl ⟨rfl, rfl, Iff.rfl, hmem, rfl, rfl⟩
  | finished =>
    refine ⟨h.opened, h.unclosed, ?_⟩
    obtain ⟨hone, hmarked⟩ | ⟨-, hunmarked⟩ := h.marked
    · refine Or.inl ⟨hone, ?_⟩
      cases hmarked with
      | queued items hitems hnone hthread => exact .queued items hitems hnone hthread
      | taken hempty hthread _ => exact .taken hempty hthread (Or.inr ⟨rfl, rfl⟩)
    · exact absurd (hcallbacks ▸ List.mem_cons_self) hunmarked.callbacks

/-- The thread takes an item from the queue. -/
theorem Marking.get (h : Marking s) {item : Bytes × ℕ} {rest : List (Option (Bytes × ℕ))}
    {view : Bytes} {future : ℕ} (hqueue : s.queue = some item :: rest) :
    Marking { s with queue := rest, thread := .writing view future } := by
  refine ⟨h.opened, h.unclosed, ?_⟩
  obtain ⟨hone, hmarked⟩ | ⟨hzero, hunmarked⟩ := h.marked
  · refine Or.inl ⟨hone, ?_⟩
    cases hmarked with
    | queued items hitems hnone _ =>
      rw [hqueue] at hitems
      cases items with
      | nil => nomatch hitems
      | cons first items =>
        obtain ⟨-, hrest⟩ := List.cons.inj hitems
        exact .queued items hrest (fun hmem => hnone (List.mem_cons_of_mem _ hmem)) nofun
    | taken hempty _ _ => nomatch hempty.symm.trans hqueue
  · refine Or.inr ⟨hzero, ⟨fun hmem => hunmarked.queue ?_, nofun, hunmarked.callbacks,
      hunmarked.file, hunmarked.finished⟩⟩
    rw [hqueue]
    exact List.mem_cons_of_mem _ hmem

/-- The thread takes the marker. -/
theorem Marking.end (h : Marking s) {rest : List (Option (Bytes × ℕ))}
    (hqueue : s.queue = none :: rest) :
    Marking { s with
      queue := rest
      thread := .ended
      callbacks := s.callbacks ++ [.finished] } := by
  refine ⟨h.opened, h.unclosed, ?_⟩
  obtain ⟨hone, hmarked⟩ | ⟨-, hunmarked⟩ := h.marked
  · refine Or.inl ⟨hone, ?_⟩
    cases hmarked with
    | queued items hitems hnone _ =>
      rw [hqueue] at hitems
      cases items with
      | nil =>
        obtain ⟨-, hrest⟩ := List.cons.inj hitems
        exact .taken hrest rfl (Or.inl (by simp))
      | cons first items =>
        obtain ⟨hfirst, -⟩ := List.cons.inj hitems
        exact absurd (hfirst ▸ List.mem_cons_self) hnone
    | taken hempty _ _ => nomatch hempty.symm.trans hqueue
  · exact absurd (hqueue ▸ List.mem_cons_self) hunmarked.queue

theorem Marking.step {e : Event} (h : Marking s) (hs : step s e = some s') : Marking s' := by
  cases step_move hs with
  | rejected data hclosing => exact h
  | accepted data hopen =>
    have hunmarked := Unmarked.of_open h hopen
    refine ⟨h.opened, h.unclosed, Or.inr ⟨(h.opened hopen).1, ?_, hunmarked.thread,
      hunmarked.callbacks, hunmarked.file, hunmarked.finished⟩⟩
    intro hmem
    obtain hold | hnew := List.mem_append.mp hmem
    · exact hunmarked.queue hold
    · nomatch List.mem_singleton.mp hnew
  | nothing d _ | waits d future _ _ | cancelled d future mark _ =>
    exact h.apart (fun hopen => hopen) rfl (.refl rfl rfl rfl rfl rfl rfl)
  | done d future result _ _ =>
    refine h.apart (drained_closing d _ result) ?_ (.drained d _ result)
    cases result <;> rfl
  | resumed d future mark result _ _ =>
    refine h.apart (drained_closing d mark result) ?_ (.drained d mark result)
    cases result <;> rfl
  | closedAgain hclosing =>
    have hapart : Apart s { s with closed := true } := .refl rfl rfl rfl rfl rfl rfl
    refine ⟨fun hopen => ?_, nofun, hapart.marked h.marked⟩
    nomatch hclosing.symm.trans hopen
  | closed hopen =>
    have hunmarked := Unmarked.of_open h hopen
    refine ⟨nofun, nofun, Or.inl ⟨?_, .queued s.queue rfl hunmarked.queue hunmarked.thread⟩⟩
    exact congrArg (· + 1) (h.opened hopen).1
  | called settle rest hcallbacks => exact h.run hcallbacks
  | taken data future rest _ hqueue => exact h.get hqueue
  | ended rest _ hqueue => exact h.end hqueue
  | wrote view future count hthread _ | failed view future error hthread _ =>
    exact h.apart (fun hopen => hopen) rfl ⟨rfl, rfl, by simp [hthread], Iff.rfl, rfl, rfl⟩
  | reported future hthread =>
    exact h.apart (fun hopen => hopen) rfl ⟨rfl, rfl, by simp [hthread], by simp, rfl, rfl⟩

theorem marking_run {es : List Event} (h : Machine.run StdoutWriter.step {} es = some s) :
    Marking s :=
  Machine.invariant (fun _ _ _ hs hstep => hs.step hstep) marking_new h

theorem Marking.closing (h : Marking s) (hone : s.markers = 1) : s.closing = true := by
  by_contra hopen
  nomatch hone.symm.trans (h.opened (by simpa using hopen)).1

theorem work_drained (d mark : ℕ) (result : Option OSError) :
    work (s.drained d mark result) = work s := by
  cases result <;> rfl

/-- Each step of the thread and of the loop for it leaves less to do, and no other step adds
anything once the marker is on the queue. -/
theorem work_step {e : Event} (h : Marking s) (hone : s.markers = 1)
    (hs : step s e = some s') : work s' + (if service e then 1 else 0) ≤ work s := by
  have hclosing := h.closing hone
  cases step_move hs with
  | accepted data hopen | closed hopen => nomatch hclosing.symm.trans hopen
  | rejected | nothing | waits | cancelled | closedAgain => exact le_rfl
  | done d future result => exact (work_drained d _ result).le
  | resumed d future mark result => exact (work_drained d mark result).le
  | called settle rest hcallbacks =>
    have hrest : work (run { s with callbacks := rest } settle) =
        (s.queue.map cost).sum + s.thread.cost + rest.length := by
      cases settle with
      | written future error =>
        simp only [run]
        split_ifs <;> rfl
      | finished => rfl
    rw [hrest]
    simp only [work, hcallbacks, service, if_true, List.length_cons]
    omega
  | taken data future rest hthread hqueue =>
    have hview : (if s.error = none then data else []).length ≤ data.length := by
      split_ifs
      · exact le_rfl
      · exact Nat.zero_le _
    simp only [work, hqueue, hthread, service, if_true, List.map_cons, List.sum_cons, cost,
      Thread.cost]
    omega
  | ended rest hthread hqueue =>
    simp only [work, hqueue, hthread, service, if_true, List.map_cons, List.sum_cons, cost,
      Thread.cost, List.length_append, List.length_singleton]
    omega
  | wrote view future count hthread hcount =>
    simp only [work, hthread, service, if_true, Thread.cost, List.length_drop]
    omega
  | failed view future error hthread hview =>
    have hpos : 0 < view.length := List.length_pos_iff.mpr hview
    simp only [work, hthread, service, if_true, Thread.cost, List.length_nil]
    omega
  | reported future hthread =>
    simp only [work, hthread, service, if_true, Thread.cost, List.length_append,
      List.length_singleton, List.length_nil]
    omega

theorem markers_step {e : Event} (h : Marking s) (hone : s.markers = 1)
    (hs : step s e = some s') : s'.markers = 1 := by
  have hclosing := h.closing hone
  cases step_move hs with
  | accepted data hopen | closed hopen => nomatch hclosing.symm.trans hopen
  | done d future result | resumed d future mark result => cases result <;> exact hone
  | called settle rest =>
    cases settle with
    | written future error =>
      simp only [run]
      split_ifs <;> exact hone
    | finished => exact hone
  | rejected | nothing | waits | cancelled | closedAgain | taken | ended | wrote | failed
  | reported => exact hone

theorem work_run {es : List Event} (h : Marking s) (hone : s.markers = 1)
    (hs : Machine.run step s es = some s') :
    Marking s' ∧ s'.markers = 1 ∧ work s' + es.countP service ≤ work s := by
  induction es generalizing s with
  | nil =>
    obtain rfl := Option.some.inj hs
    exact ⟨h, hone, le_rfl⟩
  | cons e es ih =>
    obtain ⟨t, ht, hrun⟩ := Option.bind_eq_some_iff.mp hs
    have hless := work_step h hone ht
    obtain ⟨hmarking, hone', hrest⟩ := ih (h.step ht) (markers_step h hone ht) hrun
    refine ⟨hmarking, hone', ?_⟩
    rw [List.countP_cons]
    omega

/-- Nothing is left to do only when the writer has shut down. -/
theorem shutDown_of_still (hinv : Inv s) (hmarked : Marked s)
    (hstill : ∀ e, service e = true → step s e = none) : ShutDown s := by
  have hcallbacks : s.callbacks = [] := by
    by_contra hne
    obtain ⟨settle, rest, hcallbacks⟩ := List.exists_cons_of_ne_nil hne
    have hnone := hstill .callback rfl
    simp [step, hcallbacks] at hnone
  cases hmarked with
  | queued items hqueue _ hthread =>
    exfalso
    cases hstate : s.thread with
    | idle =>
      have hnone := hstill .get rfl
      cases items with
      | nil => simp [step, hstate, hqueue] at hnone
      | cons first items => cases first <;> simp [step, hstate, hqueue] at hnone
    | writing view future =>
      cases view with
      | nil =>
        have hnone := hstill .settle rfl
        simp [step, hstate] at hnone
      | cons byte view =>
        have hnone := hstill (.osWrite 1) rfl
        simp [step, hstate] at hnone
    | ended => exact hthread hstate
  | taken hqueue hthread hfinished =>
    rw [hcallbacks] at hfinished
    obtain ⟨hfile, hdone⟩ := hfinished.resolve_left fun hsome => by cases hsome
    refine ⟨hthread, hqueue, hfile, hdone, fun herror => ?_⟩
    obtain ⟨⟨done, pending, hwrote⟩, -⟩ := hinv
    have hitems := hwrote.queue
    rw [hqueue] at hitems
    have hlength : 0 = pending.length := by simpa using congrArg List.length hitems
    have hpending : pending = [] := List.length_eq_zero_iff.mp hlength.symm
    have hwritten := hwrote.written herror
    rw [hthread] at hwritten
    rw [hwrote.accepted, hpending, List.append_nil, ← hwritten]
    exact (List.append_nil _).symm

theorem completes (hinv : Inv s) (h : Marking s) (hone : s.markers = 1) : Completes s := by
  intro es s' hs
  obtain ⟨hmarking, hone', hwork⟩ := work_run h hone hs
  refine ⟨by omega, fun hstill => ?_⟩
  have hinv' : Inv s' := Machine.invariant (fun _ _ _ hs hstep => hs.step hstep) hinv hs
  obtain ⟨-, hmarked⟩ | ⟨hzero, -⟩ := hmarking.marked
  · exact shutDown_of_still hinv' hmarked hstill
  · nomatch hzero.symm.trans hone'

theorem closed_step {e : Event} (hs : step s e = some s') :
    s'.closed = true ↔ s.closed = true ∨ e = .close := by
  cases step_move hs with
  | closedAgain | closed => simp
  | done d future result | resumed d future mark result =>
    cases result <;> simp [Writer.drained, Writer.setDrain]
  | called settle rest =>
    cases settle with
    | written future error =>
      simp only [run]
      split_ifs <;> simp
    | finished => simp [run]
  | rejected | accepted | nothing | waits | cancelled | taken | ended | wrote | failed
  | reported => simp [Writer.setDrain]

/-- A call of `drain` that has not raised gets a phase in which it has not. -/
theorem raised_setDrain {d : ℕ} {phase : DrainPhase} (hold : ∀ error, s.drains d ≠ .raised error)
    (hnew : ∀ error, phase ≠ .raised error) (d' : ℕ) (error : OSError) :
    (s.setDrain d phase).drains d' = .raised error ↔ s.drains d' = .raised error := by
  show Function.update s.drains d phase d' = .raised error ↔ _
  by_cases hd : d' = d
  · subst hd
    rw [Function.update_self]
    exact iff_of_false (hnew error) (hold error)
  · rw [Function.update_of_ne hd]

/-- A step sets `_closing` only in `close` and where a `drain` raises. -/
theorem closing_step {e : Event} (hs : step s e = some s') :
    (s'.closing = s.closing ∧
      ∀ d error, s'.drains d = .raised error ↔ s.drains d = .raised error) ∨
      s'.closing = true ∧ (s'.closed = true ∨ ∃ d error, s'.drains d = .raised error) := by
  have hidle {d : ℕ} (hdrain : s.drains d = .idle) (error : OSError) :
      s.drains d ≠ .raised error := fun hraised => nomatch hdrain.symm.trans hraised
  have hwaiting {d future mark : ℕ} (hdrain : s.drains d = .waiting future mark)
      (error : OSError) : s.drains d ≠ .raised error :=
    fun hraised => nomatch hdrain.symm.trans hraised
  cases step_move hs with
  | nothing d =>
    have hfirst := hidle (Option.ite_none_right_eq_some.mp hs).1
    exact .inl ⟨rfl, raised_setDrain hfirst nofun⟩
  | waits d =>
    have hfirst := hidle (Option.ite_none_right_eq_some.mp hs).1
    exact .inl ⟨rfl, raised_setDrain hfirst nofun⟩
  | done d future result =>
    have hfirst := hidle (Option.ite_none_right_eq_some.mp hs).1
    cases result with
    | none => exact .inl ⟨rfl, raised_setDrain hfirst nofun⟩
    | some error => exact .inr ⟨rfl, .inr ⟨d, error, Function.update_self ..⟩⟩
  | resumed d future mark result hdrain =>
    cases result with
    | none => exact .inl ⟨rfl, raised_setDrain (hwaiting hdrain) nofun⟩
    | some error => exact .inr ⟨rfl, .inr ⟨d, error, Function.update_self ..⟩⟩
  | cancelled d future mark hdrain => exact .inl ⟨rfl, raised_setDrain (hwaiting hdrain) nofun⟩
  | closedAgain hclosing => exact .inr ⟨hclosing, .inl rfl⟩
  | closed => exact .inr ⟨rfl, .inl rfl⟩
  | called settle rest =>
    left
    cases settle with
    | written future error =>
      simp only [run]
      split_ifs
      · exact ⟨rfl, fun _ _ => Iff.rfl⟩
      · exact ⟨rfl, fun _ _ => Iff.rfl⟩
    | finished => exact ⟨rfl, fun _ _ => Iff.rfl⟩
  | rejected | accepted | taken | ended | wrote | failed | reported =>
    exact .inl ⟨rfl, fun _ _ => Iff.rfl⟩

/-- Before the first `close`, `_closing` is set exactly if a call of `drain` has raised a write
error. -/
theorem closing_iff_raised {es : List Event} (h : Machine.run step {} es = some s)
    (hfirst : s.closed = false) :
    s.closing = true ↔ ∃ d error, s.drains d = .raised error := by
  have hstep (t : Writer) (e : Event) (t' : Writer)
      (ht : t.closed = false → (t.closing = true ↔ ∃ d error, t.drains d = .raised error))
      (hs : step t e = some t') (hopen : t'.closed = false) :
      t'.closing = true ↔ ∃ d error, t'.drains d = .raised error := by
    have hbefore : t.closed = false := by
      by_contra hne
      nomatch ((closed_step hs).mpr (.inl (Bool.of_not_eq_false hne))).symm.trans hopen
    obtain ⟨hclosing, hraised⟩ | ⟨hclosing, hclosed | hraised⟩ := closing_step hs
    · rw [hclosing, ht hbefore]
      exact exists_congr fun d => exists_congr fun error => (hraised d error).symm
    · nomatch hclosed.symm.trans hopen
    · exact iff_of_true hclosing hraised
  refine Machine.invariant hstep (fun _ => iff_of_false Bool.false_ne_true ?_) h hfirst
  rintro ⟨d, error, hraised⟩
  nomatch hraised

/-- A first `close` puts the marker exactly if `_closing` is not set. -/
theorem markers_close (h : Marking s) (hfirst : s.closed = false)
    (hs : step s .close = some s') : s'.markers = 1 ↔ s.closing = false := by
  have hzero := h.unclosed hfirst
  cases step_move hs with
  | closedAgain hclosing => simp [hzero, hclosing]
  | closed hopen => simp [hzero, hopen]

theorem ends_step_iff {e : Event} (hinv : Inv s) (h : Marking s) (hends : EndsAfterClose s)
    (hs : step s e = some s') : EndsAfterClose s' ↔ ClosedInTime s e := by
  have hone_iff : (s'.closed = true → s'.markers = 1) ↔ ClosedInTime s e := by
    by_cases hclosed : s.closed = true
    · refine iff_of_true (fun _ => markers_step h (hends hclosed).1 hs) fun _ hfirst => ?_
      nomatch hclosed.symm.trans hfirst
    · have hfirst : s.closed = false := by simpa using hclosed
      rw [closed_step hs]
      by_cases he : e = .close
      · subst he
        have hput := markers_close h hfirst hs
        constructor
        · exact fun hone _ _ => hput.mp (hone (Or.inr rfl))
        · exact fun hintime _ => hput.mpr (hintime rfl hfirst)
      · exact iff_of_true (fun hor => absurd hor (by simp [hclosed, he])) fun hc => absurd hc he
  rw [← hone_iff]
  constructor
  · exact fun hafter hclosed => (hafter hclosed).1
  · intro hone hclosed
    exact ⟨hone hclosed, completes (hinv.step hs) (h.step hs) (hone hclosed)⟩

/-- After `close` the end marker is on the queue once, and the writer shuts down, in every state
of a run exactly if the first `close` comes before any `drain` has raised a write error. -/
theorem shuts_down_iff (es : List Event) (h : Machine.run step {} es = some s) :
    Machine.Throughout step EndsAfterClose {} es ↔ Machine.Meets step ClosedInTime {} es :=
  Machine.throughout_iff_meets (I := fun s => Inv s ∧ Marking s)
    (fun _ _ _ ⟨hinv, hmarking⟩ hstep => ⟨hinv.step hstep, hmarking.step hstep⟩)
    (fun _ _ _ ⟨hinv, hmarking⟩ hends hstep => ends_step_iff hinv hmarking hends hstep)
    ⟨inv_new, marking_new⟩ nofun h

/-- Without the marker nothing ends the thread once `_closing` is set. -/
theorem never_ends {es : List Event} (h : Marking s) (hclosing : s.closing = true)
    (hzero : s.markers = 0) (hs : Machine.run step s es = some s') : Unmarked s' := by
  have hstep (s : Writer) (e : Event) (s' : Writer)
      (hP : Marking s ∧ s.closing = true ∧ s.markers = 0) (hs : step s e = some s') :
      Marking s' ∧ s'.closing = true ∧ s'.markers = 0 := by
    obtain ⟨h, hclosing, hzero⟩ := hP
    refine ⟨h.step hs, ?_⟩
    cases step_move hs with
    | accepted data hopen | closed hopen => cases hclosing.symm.trans hopen
    | done d future result | resumed d future mark result =>
      cases result with
      | none => exact ⟨hclosing, hzero⟩
      | some error => exact ⟨rfl, hzero⟩
    | called settle rest =>
      cases settle with
      | written future error =>
        simp only [run]
        split_ifs
        · exact ⟨hclosing, hzero⟩
        · exact ⟨hclosing, hzero⟩
      | finished => exact ⟨hclosing, hzero⟩
    | rejected | nothing | waits | cancelled | closedAgain | taken | ended | wrote | failed
    | reported => exact ⟨hclosing, hzero⟩
  obtain ⟨hmarking, -, hzero'⟩ := Machine.invariant hstep ⟨h, hclosing, hzero⟩ hs
  obtain ⟨hone, -⟩ | ⟨-, hunmarked⟩ := hmarking.marked
  · cases hzero'.symm.trans hone
  · exact hunmarked

/-- The pipe breaks, `drain` raises, and the channel is closed. -/
def closedLate : List Event :=
  [.write [1], .drain 0, .get, .osError 32, .settle, .callback, .resume 0, .close]

/-- No marker is put, and the thread never returns. -/
theorem closedLate_hangs : ∃ s, Machine.run step {} closedLate = some s ∧ s.closed = true ∧
    s.markers = 0 ∧ ¬EndsAfterClose s ∧ ∀ es s', Machine.run step s es = some s' →
      s'.thread ≠ .ended ∧ s'.fileClosed = false ∧ s'.finished = false := by
  have hrun : (Machine.run step {} closedLate).map (fun s => (s.closed, s.closing, s.markers)) =
      some (true, true, 0) := by
    decide +kernel
  obtain ⟨s, hs, hends⟩ := Option.map_eq_some_iff.mp hrun
  simp only [Prod.mk.injEq] at hends
  obtain ⟨hclosed, hclosing, hzero⟩ := hends
  refine ⟨s, hs, hclosed, hzero, fun hafter => ?_, fun es s' hes => ?_⟩
  · nomatch hzero.symm.trans (hafter hclosed).1
  · have hunmarked := never_ends (marking_run hs) hclosing hzero hes
    exact ⟨hunmarked.thread, hunmarked.file, hunmarked.finished⟩

/-- The channel is closed while an item waits on the queue. -/
def closedEarly : List Event := [.write [1], .close, .get, .osError 32, .settle, .get]

theorem shuts_down_iff_early : Machine.Throughout step EndsAfterClose {} closedEarly := by
  have hruns : (Machine.run step {} closedEarly).isSome = true := by decide +kernel
  obtain ⟨s, hs⟩ := Option.isSome_iff_exists.mp hruns
  apply (shuts_down_iff closedEarly hs).mpr
  decide +kernel

end WireRpc.StdoutWriter
