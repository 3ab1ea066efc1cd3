import WireRpc.ChildProcess

/-!
# What a completed close leaves behind

While no two calls of `connect` overlap, the process of the transport is the only child that
can still run. So a `close()` that returns has stopped every child there was.
-/
namespace WireRpc.ChildProcess
open Library

section
variable {s s' : State} {e : Event}

/-- A call of `connect` begins while no other one is launching. -/
def ConnectsApart (s : State) (e : Event) : Prop :=
  ∀ k, e = .connect k → ∀ j, s.connectors j ≠ .launching

/-- The child that a call past the lock has to do with. -/
def Closer.working : Closer → Option ℕ
  | gathering n _ => some n
  | stopping n _ => some n
  | releasing n _ => some n
  | _ => none

/-- No child is lost, and whoever stops one stops the process of the transport. -/
structure Apart (s : State) : Prop where
  unique : ∀ j k, s.connectors j = .launching → s.connectors k = .launching → j = k
  launching : ∀ k, s.connectors k = .launching → s.proc = none
  working : ∀ c n, (s.closers c).working = some n → s.proc = some n
  returned : ∀ c n, s.closers c = .ended (some n) false →
    s.proc = none ∧ ∀ k, s.connectors k ≠ .launching
  lost : s.lost = ∅

theorem apart_start : Apart {} where
  unique _ _ h := absurd h nofun
  launching _ h := absurd h nofun
  working _ _ h := absurd h nofun
  returned _ _ h := absurd h nofun
  lost := rfl

theorem Apart.setChild (h : Apart s) (n : ℕ) (child : Child) : Apart (setChild s n child) where
  __ := h

theorem Apart.closeCurrent (h : Apart s) : Apart (closeCurrent s) := by
  unfold ChildProcess.closeCurrent
  split
  · exact h.setChild _ _
  · exact h

theorem closeCurrent_proc : (ChildProcess.closeCurrent s).proc = s.proc := by
  unfold ChildProcess.closeCurrent
  split <;> rfl

theorem Apart.terminate (h : Apart s) (n : ℕ) : Apart (terminate s n) := by
  unfold ChildProcess.terminate
  split_ifs
  · exact h
  · exact h.setChild n _

theorem terminate_proc (n : ℕ) : (ChildProcess.terminate s n).proc = s.proc := by
  unfold ChildProcess.terminate
  split_ifs <;> rfl

theorem kill_proc (n : ℕ) : (kill s n).proc = s.proc := by
  unfold kill
  split_ifs <;> rfl

theorem Apart.kill (h : Apart s) (n : ℕ) : Apart (kill s n) := by
  unfold ChildProcess.kill
  split_ifs
  · exact h
  · exact h.setChild n _

theorem Apart.endConnect {k : ℕ} {phase : Connector} (h : Apart s) (hphase : phase ≠ .launching) :
    Apart (setConnector s k phase) := by
  have hold : ∀ j, (ChildProcess.setConnector s k phase).connectors j = .launching →
      s.connectors j = .launching := by
    intro j hj
    by_cases hjk : j = k
    · subst hjk
      exact absurd ((Function.update_self ..).symm.trans hj) hphase
    · exact (Function.update_of_ne hjk ..).symm.trans hj
  exact {
    h with
    unique := fun i j hi hj => h.unique i j (hold i hi) (hold j hj)
    launching := fun j hj => h.launching j (hold j hj)
    returned := fun c n hc =>
      ⟨(h.returned c n hc).1, fun j hj => (h.returned c n hc).2 j (hold j hj)⟩ }

theorem Apart.beginConnect {k : ℕ} (h : Apart s) (hinv : Inv s)
    (hapart : ∀ j, s.connectors j ≠ .launching) : Apart (connect s k) := by
  unfold connect
  split_ifs with hrefused
  · exact h.endConnect nofun
  · obtain ⟨hproc, hopen⟩ := not_or.mp hrefused
    have honly : ∀ j, (setConnector s k .launching).connectors j = .launching → j = k := by
      intro j hj
      by_contra hjk
      exact hapart j ((Function.update_of_ne hjk ..).symm.trans hj)
    exact {
      h with
      unique := fun i j hi hj => (honly i hi).trans (honly j hj).symm
      launching := fun _ _ => not_not.mp hproc
      returned := fun c n hc => absurd (hinv.present (s := s) hc nofun) hopen }

theorem Apart.launch {k : ℕ} (h : Apart s) (hk : s.connectors k = .launching) :
    Apart (launch s k) := by
  have hnone := h.launching k hk
  have hended : ∀ j, (setConnector s k .returned).connectors j ≠ .launching := by
    intro j hj
    by_cases hjk : j = k
    · subst hjk
      cases (Function.update_self ..).symm.trans hj
    · exact hjk (h.unique j k ((Function.update_of_ne hjk ..).symm.trans hj) hk)
  exact {
    unique := fun i j hi _ => absurd hi (hended i)
    launching := fun j hj => absurd hj (hended j)
    working := fun c n hc => absurd (hnone.symm.trans (h.working c n hc)) nofun
    returned := fun c n hc => absurd hk ((h.returned c n hc).2 k)
    lost := by
      show drop s none = ∅
      rw [drop, hnone]
      exact h.lost }

theorem Apart.moveCloser {c : ℕ} {phase : Closer} {lock : Option ℕ} (h : Apart s)
    (hworking : ∀ n, phase.working = some n → s.proc = some n)
    (hreturned : ∀ n, phase ≠ .ended (some n) false) :
    Apart { setCloser s c phase with lock := lock } where
  __ := h
  working d n hd := by
    by_cases hdc : d = c
    · subst hdc
      exact hworking n ((congrArg Closer.working (Function.update_self ..)).symm.trans hd)
    · exact h.working d n ((congrArg Closer.working (Function.update_of_ne hdc ..)).symm.trans hd)
  returned d n hd := by
    by_cases hdc : d = c
    · subst hdc
      exact absurd ((Function.update_self ..).symm.trans hd) (hreturned n)
    · exact h.returned d n ((Function.update_of_ne hdc ..).symm.trans hd)

theorem Apart.setCloser {c : ℕ} {phase : Closer} (h : Apart s)
    (hworking : ∀ n, phase.working = some n → s.proc = some n)
    (hreturned : ∀ n, phase ≠ .ended (some n) false) : Apart (setCloser s c phase) := by
  have hmoved : Apart { ChildProcess.setCloser s c phase with lock := s.lock } :=
    h.moveCloser hworking hreturned
  exact hmoved

theorem Apart.enterClose (h : Apart s) (c : ℕ) : Apart (enterClose s c) := by
  have hclosing : Apart { s with closing := true } := { h with }
  unfold ChildProcess.enterClose
  split
  next => exact hclosing.setCloser nofun nofun
  next n hproc => exact hclosing.moveCloser (fun m hm => hproc.trans hm) nofun

theorem Apart.interrupt {c n : ℕ} (h : Apart s) (hproc : s.proc = some n) :
    Apart (interrupt s c n) := by
  unfold ChildProcess.interrupt
  split_ifs with hexited
  · exact h.setCloser (fun m hm => hproc.trans hm) nofun
  · exact (h.kill n).setCloser (fun m hm => (kill_proc n).trans (hproc.trans hm)) nofun

theorem Apart.release {c n : ℕ} {raises : Bool} (h : Apart s) (hinv : Inv s)
    (hc : s.closers c = .releasing n raises) : Apart (release s c n raises) := by
  have hproc := h.working c n (by rw [hc]; rfl)
  have hidle : ∀ k, s.connectors k ≠ .launching := by
    intro k hk
    cases (h.launching k hk).symm.trans hproc
  have hlock : s.lock = some c := (hinv.active_iff c).mp (by rw [hc]; rfl)
  exact {
    h with
    launching := fun _ _ => rfl
    working := by
      intro d m hd
      by_cases hdc : d = c
      · subst hdc
        cases (congrArg Closer.working (Function.update_self ..)).symm.trans hd
      · have hworking : (s.closers d).working = some m :=
          (congrArg Closer.working (Function.update_of_ne hdc ..)).symm.trans hd
        have hactive : (s.closers d).active = true := by
          cases hphase : s.closers d <;> simp [hphase, Closer.working] at hworking <;> rfl
        have hheld := hlock.symm.trans ((hinv.active_iff d).mp hactive)
        exact absurd (Option.some.inj hheld).symm hdc
    returned := fun _ _ _ => ⟨rfl, hidle⟩
    lost := by
      show drop s (some n) = ∅
      rw [drop, hproc]
      simpa using h.lost }

theorem Apart.step (h : Apart s) (hinv : Inv s) (hs : step s e = some s')
    (happly : ConnectsApart s e) : Apart s' := by
  cases step_way hs with
  | connected k => exact h.beginConnect hinv (happly k rfl)
  | launched k hk => exact h.launch hk
  | launchFailed k => exact h.endConnect nofun
  | left t failed op pipes =>
    unfold leave
    split
    · exact { h with }
    · exact { h with }
  | closed c hc =>
    unfold close
    split
    · exact h.enterClose c
    · exact h.setCloser nofun nofun
  | locked c => exact h.enterClose c
  | gathered c n tracked hc =>
    have hproc := h.working c n (by rw [hc]; rfl)
    have hcurrent : (ChildProcess.closeCurrent s).proc = some n := closeCurrent_proc.trans hproc
    have hstopping : Apart (ChildProcess.setCloser (ChildProcess.closeCurrent s) c
        (.stopping n .eof)) :=
      h.closeCurrent.setCloser (fun m hm => hcurrent.trans hm) nofun
    exact { hstopping with }
  | exitSeen c n stage hc =>
    exact h.setCloser (fun m hm => (h.working c n (by rw [hc]; rfl)).trans hm) nofun
  | expired c n stage hc =>
    have hproc := h.working c n (by rw [hc]; rfl)
    cases stage with
    | eof =>
      exact (h.terminate n).setCloser (fun m hm => (terminate_proc n).trans (hproc.trans hm)) nofun
    | terminate =>
      exact (h.kill n).setCloser (fun m hm => (kill_proc n).trans (hproc.trans hm)) nofun
    | kill => exact h.interrupt hproc
    | last => exact h.moveCloser nofun nofun
  | cancelledLocking c => exact h.setCloser nofun nofun
  | cancelledGathering c n tracked => exact h.moveCloser nofun nofun
  | cancelledStopping c n stage hc =>
    have hproc := h.working c n (by rw [hc]; rfl)
    cases stage with
    | last => exact h.moveCloser nofun nofun
    | eof | terminate | kill => exact h.interrupt hproc
  | cancelledReleasing c n raises => exact h.moveCloser nofun nofun
  | released c n raises hc => exact h.release hinv hc
  | refused t op => exact h
  | asked t op n | entered t op | abandoned t op | finished t | exited n | stderrEnded n
    | stdoutEnded c => exact { h with }

theorem apart_run {es : List Event} (h : Apart s) (hinv : Inv s)
    (happly : Machine.Meets step ConnectsApart s es) (hrun : Machine.run step s es = some s') :
    Apart s' := by
  have hboth : Inv s' ∧ Apart s' := by
    refine Machine.invariant_of_meets (P := fun x => Inv x ∧ Apart x) ?_ ⟨hinv, h⟩ happly hrun
    rintro x e y ⟨hx, hxapart⟩ hmeets hstep
    exact ⟨hx.step hstep, hxapart.step hx hstep hmeets⟩
  exact hboth.2

/-- The steps of `close` that wait for nobody else. -/
def Own (c : ℕ) (e : Event) : Prop := e = .expire c ∨ e = .released c

/-- Steps of the call alone bring it to its end. -/
def Completes (s : State) (c n : ℕ) : Prop :=
  ∃ fs s', (∀ e ∈ fs, Own c e) ∧ Machine.run step s fs = some s' ∧
    ∃ raised, s'.closers c = .ended (some n) raised

theorem completes_of_step {c n : ℕ} (hown : Own c e) (hs : step s e = some s')
    (h : Completes s' c n) : Completes s c n := by
  obtain ⟨fs, t, hfs, hrun, hended⟩ := h
  exact ⟨e :: fs, t, List.forall_mem_cons.mpr ⟨hown, hfs⟩, (Machine.run_cons_of hs).trans hrun,
    hended⟩

theorem completes_of_ended {c n : ℕ} {raised : Bool} (hown : Own c e) (hs : step s e = some s')
    (h : s'.closers c = .ended (some n) raised) : Completes s c n :=
  completes_of_step hown hs ⟨[], s', by simp, rfl, raised, h⟩

theorem expire_step {c n : ℕ} {stage : Stage} (hc : s.closers c = .stopping n stage) :
    step s (.expire c) = some (expire s c n stage) := by
  simp only [step, hc]

theorem completes_last {c n : ℕ} (hc : s.closers c = .stopping n .last) : Completes s c n :=
  completes_of_ended (Or.inl rfl) (expire_step hc) (Function.update_self ..)

theorem completes_releasing {c n : ℕ} {raises : Bool} (hc : s.closers c = .releasing n raises) :
    Completes s c n := by
  have hs : step s (.released c) = some (release s c n raises) := by simp only [step, hc]
  exact completes_of_ended (Or.inr rfl) hs (Function.update_self ..)

theorem completes_kill {c n : ℕ} (hc : s.closers c = .stopping n .kill) : Completes s c n := by
  refine completes_of_step (Or.inl rfl) (expire_step hc) ?_
  show Completes (interrupt s c n) c n
  unfold interrupt
  split_ifs
  · exact completes_releasing (Function.update_self ..)
  · exact completes_last (Function.update_self ..)

/-- Whatever the child does, a call that stops it comes to its end by its own timers. -/
theorem completes_stopping {c n : ℕ} {stage : Stage} (hc : s.closers c = .stopping n stage) :
    Completes s c n := by
  have hterminate : ∀ t : State, t.closers c = .stopping n .terminate → Completes t c n :=
    fun t ht => completes_of_step (Or.inl rfl) (expire_step ht)
      (completes_kill (Function.update_self ..))
  cases stage with
  | eof =>
    exact completes_of_step (Or.inl rfl) (expire_step hc) (hterminate _ (Function.update_self ..))
  | terminate => exact hterminate s hc
  | kill => exact completes_kill hc
  | last => exact completes_last hc

end

/-- While calls of `connect` do not overlap, a child that has not exited is the process of the
transport. Once a `close()` that stopped a child has returned, every child that was ever
launched has exited, the transport refers to none, nobody reads or writes, and no task of it
is left that drains the output of a child. A call of `close` that stops a child comes to its
end by its own timers, whatever the child does. -/
theorem close_completes (es : List Event) (s : State) (h : Machine.run step {} es = some s)
    (happly : Machine.Meets step ConnectsApart {} es) :
    (∀ n < s.launched, (s.children n).exited = true ∨ s.proc = some n) ∧
      (∀ c n, s.closers c = .ended (some n) false →
        s.proc = none ∧ s.closing = true ∧ (∀ m < s.launched, (s.children m).exited = true) ∧
          s.operations = ∅ ∧ s.stderrs = ∅ ∧ c ∉ s.drains) ∧
      ∀ c n stage, s.closers c = .stopping n stage → Completes s c n := by
  have hinv := inv_start.run h
  have hapart := apart_run apart_start inv_start happly h
  have hnotLost : ∀ n, n ∉ s.lost := by
    rw [hapart.lost]
    exact fun n => Finset.notMem_empty n
  have haccounted : ∀ n < s.launched, (s.children n).exited = true ∨ s.proc = some n :=
    fun n hn => (hinv.accounted n hn).imp_right fun h => h.resolve_right (hnotLost n)
  refine ⟨haccounted, ?_, fun c n stage hc => completes_stopping hc⟩
  intro c n hc
  have hproc : s.proc = none := (hapart.returned c n hc).1
  have hgone : ∀ m, s.proc ≠ some m := by
    rw [hproc]
    nofun
  refine ⟨hproc, hinv.closing c (by rw [hc]; nofun), ?_, ?_, ?_, ?_⟩
  · exact fun m hm => (haccounted m hm).resolve_right (hgone m)
  · exact Finset.eq_empty_of_forall_notMem fun t ht => hinv.connected t ht hproc
  · refine Finset.eq_empty_of_forall_notMem fun m hm => ?_
    exact (hinv.stderrs m hm).elim (hgone m) (hnotLost m)
  · intro hmem
    have hmay := hinv.drained c hmem
    rw [hc] at hmay
    cases hmay

/-- A read is cut off, the child ignores that its stdin was closed, and exits when it is
terminated. -/
def stubbornRun : List Event :=
  [.connect 0, .launch 0, .ask 0 .read, .enter 0, .close 0, .leave 0 true, .finish 0, .gathered 0,
    .expire 0, .exit 0, .seeExit 0, .released 0]

theorem stubbornRun_apart : Machine.Meets step ConnectsApart {} stubbornRun := by
  refine ⟨fun _ _ _ => nofun, fun s _ => Machine.meets_of_forall ?_ s⟩
  rintro e he s k rfl
  simp at he

theorem close_completes_stubborn :
    ∃ s, Machine.run step {} stubbornRun = some s ∧ s.closers 0 = .ended (some 0) false ∧
      s.proc = none ∧ (s.children 0).terminated = true ∧ (s.children 0).exited = true := by
  refine ⟨_, rfl, rfl, ?_, rfl, ?_⟩
  · exact ((close_completes stubbornRun _ rfl stubbornRun_apart).2.1 0 0 rfl).1
  · exact ((close_completes stubbornRun _ rfl stubbornRun_apart).2.1 0 0 rfl).2.2.1 0 (by decide)

end WireRpc.ChildProcess
