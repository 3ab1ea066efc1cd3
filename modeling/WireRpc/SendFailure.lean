import WireRpc.MulticastTcp
import WireRpc.PayloadQueue

/-!
# What a failing send takes along

Whoever begins to close the connection of a client takes the client from the table and its
frames from the receive queue. The branch of `send` for idle connections leaves the frames.
-/
namespace WireRpc.MulticastTcp
open Library

/-- The step is a failure of `send` on the connection of a client: it is idle, its writer
is closed, or the write fails, takes too long or is cancelled. -/
def Fails (c : Config) (s : State) (t : ℕ) : Event → Prop
  | .send j client data idle => client = t ∧ idle = true ∧ s.senders j = .absent ∧
      s.closing = false ∧ 0 < data.length ∧ data.length ≤ c.maxFrameSize
  | .write j => s.senders j = .waiting t ∧ s.writerClosed t = true
  | .failSend j => s.senders j = .waiting t ∨ s.senders j = .draining t
  | _ => False

/-- The client is gone with its frames while its connection is closed, and the others stay. -/
structure Expels (s s' : State) (t : ℕ) : Prop where
  closing : s'.writerClosed t = true
  gone : t ∉ s'.clients
  dropped : ∀ p ∈ s'.queue, p.1 ≠ t
  others : ∀ u, u ≠ t → (u ∈ s'.clients ↔ u ∈ s.clients)
  kept : s'.queue.filter (·.1 ≠ t) = s.queue.filter (·.1 ≠ t)

theorem step_of_fails {c : Config} {s s' : State} {t : ℕ} {e : Event} (ht : t ∈ s.clients)
    (hfails : Fails c s t e) (hs : step c s e = some s') :
    (∃ j, (e = .write j ∨ e = .failSend j) ∧
        s' = setSender (closeWriter (unregister s t) t) j .expelling) ∨
      ∃ j data, e = .send j t data true ∧
        s' = { setSender (closeWriter s t) j .expelling with
          clients := s.clients.erase t
          inflight := insert j s.inflight } := by
  have hfail : ∀ j, failSend s j t = setSender (closeWriter (unregister s t) t) j .expelling := by
    intro j
    rw [failSend, if_pos ht]
  cases e with
  | send j client data idle =>
    obtain ⟨rfl, rfl, habsent, hopen, hpos, hle⟩ := hfails
    refine .inr ⟨j, data, rfl, ?_⟩
    have hvalid : ¬ (s.closing || client ∉ s.clients || data.length == 0 ||
        data.length > c.maxFrameSize) = true := by
      simp only [hopen, ht, not_true, decide_false, Bool.false_or, Bool.or_eq_true, beq_iff_eq,
        decide_eq_true_eq]
      omega
    rw [step, if_pos habsent, send, if_neg hvalid] at hs
    exact (Option.some.inj hs).symm
  | write j =>
    obtain ⟨hwaiting, hclosed⟩ := hfails
    rw [step, hwaiting] at hs
    refine .inl ⟨j, .inl rfl, ?_⟩
    rw [← hfail, ← Option.some.inj hs, write, if_pos hclosed]
  | failSend j =>
    refine .inl ⟨j, .inr rfl, ?_⟩
    rw [← hfail]
    obtain hphase | hphase := hfails
    · rw [step, hphase] at hs
      exact (Option.some.inj hs).symm
    · rw [step, hphase] at hs
      exact (Option.some.inj hs).symm
  | _ => exact hfails.elim

theorem expels_unregister (s : State) (t j : ℕ) :
    Expels s (setSender (closeWriter (unregister s t) t) j .expelling) t where
  closing := Function.update_self ..
  gone := Finset.notMem_erase t s.clients
  dropped p hp := by simpa using (List.mem_filter.mp hp).2
  others u hu := Finset.mem_erase.trans (and_iff_right hu)
  kept := by
    show (s.queue.filter (·.1 ≠ t)).filter (·.1 ≠ t) = _
    rw [List.filter_filter]
    simp

/-- Without a look at the queue only the frames are in question. -/
theorem expels_idle_iff (s : State) (t j : ℕ) :
    Expels s { setSender (closeWriter s t) j .expelling with
        clients := s.clients.erase t
        inflight := insert j s.inflight } t ↔ ∀ p ∈ s.queue, p.1 ≠ t := by
  constructor
  · exact fun h => h.dropped
  · intro h
    exact ⟨Function.update_self .., Finset.notMem_erase t s.clients, h,
      fun u hu => Finset.mem_erase.trans (and_iff_right hu), rfl⟩

/-- The receive queue holds the frames, each under the id of its client. -/
def Holds (name : ℕ ↪ String) (s : State) (q : PayloadQueue.State) : Prop :=
  q.items = s.queue.map fun p => .sent (name p.1) p.2

/-- The queue after a failure on the connection of `t`. -/
def queueAfter (name : ℕ ↪ String) (q : PayloadQueue.State) (t : ℕ) : Event → PayloadQueue.State
  | .send _ _ _ _ => q
  | _ => PayloadQueue.dropPeer q (some (name t))

/-- The items and the count of one peer are gone, those of the others stay. -/
structure Drops (q q' : PayloadQueue.State) (peer : Option String) : Prop where
  dropped : ∀ item ∈ q'.items, item.peer ≠ peer
  uncounted : q'.counts.lookup peer = none
  kept : q'.items.filter (·.peer ≠ peer) = q.items.filter (·.peer ≠ peer)
  counts : ∀ other, other ≠ peer → q'.counts.lookup other = q.counts.lookup other

theorem drops_dropPeer (q : PayloadQueue.State) (peer : Option String) :
    Drops q (PayloadQueue.dropPeer q peer) peer where
  dropped item hitem := by
    rw [PayloadQueue.items_dropPeer] at hitem
    simpa using (List.mem_filter.mp hitem).2
  uncounted := by
    rw [PayloadQueue.counts_dropPeer]
    exact AList.lookup_erase ..
  kept := by
    rw [PayloadQueue.items_dropPeer, List.filter_filter]
    simp
  counts other hother := by
    rw [PayloadQueue.counts_dropPeer]
    exact AList.lookup_erase_ne hother

/-- A peer without items has no count, so there is nothing to drop. -/
theorem drops_nothing {qc : PayloadQueue.Config} {qs : List PayloadQueue.Event}
    {q : PayloadQueue.State}
    (hq : Machine.run (PayloadQueue.step qc) PayloadQueue.start qs = some q) {peer : Option String}
    (h : ∀ item ∈ q.items, item.peer ≠ peer) : Drops q q peer where
  dropped := h
  uncounted := by
    have hnotin : peer ∉ q.items.map PayloadQueue.Item.peer := by
      intro hmem
      obtain ⟨item, hitem, hpeer⟩ := List.mem_map.mp hmem
      exact h item hitem hpeer
    rw [(PayloadQueue.inv_run hq).counts_exact peer, List.count_eq_zero_of_not_mem hnotin]
    rfl
  kept := rfl
  counts _ _ := rfl

theorem Holds.dropPeer {name : ℕ ↪ String} {s : State} {q : PayloadQueue.State}
    (h : Holds name s q) (t : ℕ) :
    Holds name (unregister s t) (PayloadQueue.dropPeer q (some (name t))) := by
  show (PayloadQueue.dropPeer q (some (name t))).items = _
  rw [PayloadQueue.items_dropPeer, h, List.filter_map]
  congr 1
  apply List.filter_congr
  intro p _
  simp [PayloadQueue.Item.peer, PayloadQueue.Item.parts]

/-- The frames of a client are the items under its id. -/
theorem Holds.peer_ne {name : ℕ ↪ String} {s : State} {q : PayloadQueue.State}
    (h : Holds name s q) {t : ℕ} (hframes : ∀ p ∈ s.queue, p.1 ≠ t) :
    ∀ item ∈ q.items, item.peer ≠ some (name t) := by
  intro item hitem
  rw [h] at hitem
  obtain ⟨p, hp, rfl⟩ := List.mem_map.mp hitem
  simpa [PayloadQueue.Item.peer, PayloadQueue.Item.parts] using hframes p hp

/-- A failure on the connection of a client expels it, and does the same to the queue. -/
def FailureExpels (c : Config) (name : ℕ ↪ String) (s : State) (e : Event) : Prop :=
  ∀ t ∈ s.clients, Fails c s t e → ∀ s', step c s e = some s' → Expels s s' t ∧
    ∀ qc qs q, Machine.run (PayloadQueue.step qc) PayloadQueue.start qs = some q →
      Holds name s q → Drops q (queueAfter name q t e) (some (name t)) ∧
        Holds name s' (queueAfter name q t e)

/-- The receive queue holds no frame of the client whose connection `send` finds idle. -/
def NoIdleFrames (c : Config) (s : State) (e : Event) : Prop :=
  ∀ j t data, e = .send j t data true → t ∈ s.clients → Fails c s t e → ∀ p ∈ s.queue, p.1 ≠ t

theorem failureExpels_iff (c : Config) (name : ℕ ↪ String) (s : State) (e : Event) :
    FailureExpels c name s e ↔ NoIdleFrames c s e := by
  constructor
  · rintro h j t data rfl ht hfails
    have hstep : step c s (.send j t data true) = some (send c s j t data true) := by
      rw [step, if_pos hfails.2.2.1]
    obtain ⟨j', heq | heq, -⟩ | ⟨j', data', -, hs'⟩ := step_of_fails ht hfails hstep
    · cases heq
    · cases heq
    · have hexpels := (h t ht hfails _ hstep).1
      rw [hs'] at hexpels
      exact (expels_idle_iff s t j').mp hexpels
  · intro h t ht hfails s' hstep
    obtain ⟨j, heq, rfl⟩ | ⟨j, data, rfl, rfl⟩ := step_of_fails ht hfails hstep
    · have hafter : ∀ q, queueAfter name q t e = PayloadQueue.dropPeer q (some (name t)) := by
        intro q
        obtain rfl | rfl := heq <;> rfl
      refine ⟨expels_unregister s t j, fun qc qs q hq hholds => ?_⟩
      rw [hafter]
      exact ⟨drops_dropPeer q _, hholds.dropPeer t⟩
    · have hframes := h j t data rfl ht hfails
      refine ⟨(expels_idle_iff s t j).mpr hframes, fun qc qs q hq hholds => ?_⟩
      exact ⟨drops_nothing hq (hholds.peer_ne hframes), hholds⟩

/-- In a run every failing send expels its client with all its frames, and nothing else,
if and only if no client that a send finds idle has frames in the receive queue. -/
theorem failed_send_expels_iff (c : Config) (name : ℕ ↪ String) (es : List Event) :
    Machine.Meets (step c) (FailureExpels c name) start es ↔
      Machine.Meets (step c) (NoIdleFrames c) start es :=
  Machine.meets_congr (failureExpels_iff c name) start es

/-- A frame of client 0 waits in the queue when a send finds the client idle. -/
def idleRun : List Event := [.accept 0 false, .frame 0 [7], .queued 0]

theorem idle_send_keeps_frames :
    ∃ s s', Machine.run (step ⟨1, 16, false, false⟩) start idleRun = some s ∧ 0 ∈ s.clients ∧
      Fails ⟨1, 16, false, false⟩ s 0 (.send 0 0 [1] true) ∧
      step ⟨1, 16, false, false⟩ s (.send 0 0 [1] true) = some s' ∧ ¬ Expels s s' 0 ∧
      (0, [7]) ∈ s'.queue := by
  refine ⟨_, _, rfl, by decide, ⟨rfl, rfl, rfl, rfl, by decide, by decide⟩, rfl, ?_, by decide⟩
  intro h
  exact h.dropped (0, [7]) (by decide) rfl

end WireRpc.MulticastTcp
