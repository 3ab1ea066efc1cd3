import WireRpc.MulticastTcp

/-!
# The lifecycle of a TCP connection

Every reachable state of `TcpMulticastServerTransport` keeps five facts: about the slots of
the limiter, about what a task leaves behind, about the table of clients, about whoever has
to close a connection, and about `close` itself.
-/
namespace WireRpc.MulticastTcp
open Library

/-- The counter of the limiter is the number of tasks inside `slot()`. -/
structure Slots (c : Config) (tasks : Finset ℕ) (active : ℤ) (handlers : ℕ → Handler) : Prop where
  running : ∀ t, t ∈ tasks ↔ (handlers t).isRunning = true
  active_eq : active = (tasks.filter fun t => (handlers t).holdsSlot = true).card
  active_le : active ≤ c.maxConnections

section
variable {c : Config} {tasks : Finset ℕ} {active : ℤ} {handlers : ℕ → Handler} {t : ℕ}
  {phase : Handler}

theorem filter_update (htasks : t ∉ tasks) (phase : Handler) :
    (tasks.filter fun u => (Function.update handlers t phase u).holdsSlot = true) =
      tasks.filter fun u => (handlers u).holdsSlot = true := by
  apply Finset.filter_congr
  intro u hu
  rw [Function.update_of_ne (ne_of_mem_of_not_mem hu htasks)]

theorem Slots.notMem (h : Slots c tasks active handlers) (ht : handlers t = .absent) :
    t ∉ tasks := by
  rw [h.running, ht]
  nofun

theorem Slots.running_insert (h : Slots c tasks active handlers) (hphase : phase.isRunning = true)
    (u : ℕ) : u ∈ insert t tasks ↔ (Function.update handlers t phase u).isRunning = true := by
  by_cases hu : u = t
  · subst hu
    simp [hphase]
  · simp [hu, h.running u]

/-- A connection that is turned away takes no slot. -/
theorem Slots.refuse (h : Slots c tasks active handlers) (ht : handlers t = .absent) :
    Slots c (insert t tasks) active (Function.update handlers t .refusing) where
  running := h.running_insert rfl
  active_eq := by
    rw [Finset.filter_insert, if_neg (by simp [Handler.holdsSlot]), filter_update (h.notMem ht)]
    exact h.active_eq
  active_le := h.active_le

theorem Slots.enter (h : Slots c tasks active handlers) (ht : handlers t = .absent)
    (hfree : active < c.maxConnections) (hphase : phase.holdsSlot = true)
    (hrunning : phase.isRunning = true) :
    Slots c (insert t tasks) (active + 1) (Function.update handlers t phase) where
  running := h.running_insert hrunning
  active_eq := by
    rw [Finset.filter_insert, if_pos (by simpa using hphase), filter_update (h.notMem ht),
      Finset.card_insert_of_notMem (fun hmem => h.notMem ht (Finset.mem_of_mem_filter t hmem)),
      h.active_eq]
    push_cast
    rfl
  active_le := by omega

/-- A task goes on inside or outside its slot. -/
theorem Slots.change (h : Slots c tasks active handlers)
    (hslot : phase.holdsSlot = (handlers t).holdsSlot)
    (hrunning : phase.isRunning = (handlers t).isRunning) :
    Slots c tasks active (Function.update handlers t phase) where
  running u := by
    by_cases hu : u = t
    · subst hu
      rw [Function.update_self, hrunning]
      exact h.running u
    · rw [Function.update_of_ne hu]
      exact h.running u
  active_eq := by
    rw [h.active_eq]
    congr 2
    apply Finset.filter_congr
    intro u _
    by_cases hu : u = t
    · subst hu
      rw [Function.update_self, hslot]
    · rw [Function.update_of_ne hu]
  active_le := h.active_le

theorem Slots.exit (h : Slots c tasks active handlers) (hrunning : (handlers t).isRunning = true) :
    Slots c (tasks.erase t) (if (handlers t).holdsSlot then active - 1 else active)
      (Function.update handlers t .ended) := by
  have hmem : t ∈ tasks := (h.running t).mpr hrunning
  have hfilter : ((tasks.erase t).filter fun u =>
      (Function.update handlers t .ended u).holdsSlot = true) =
      (tasks.filter fun u => (handlers u).holdsSlot = true).erase t := by
    rw [filter_update (Finset.notMem_erase t tasks), Finset.filter_erase]
  have hactive := h.active_eq
  have hle := h.active_le
  constructor
  · intro u
    by_cases hu : u = t
    · subst hu
      simp [Handler.isRunning]
    · simp [hu, h.running u]
  · rw [hfilter]
    split_ifs with hslot
    · have hmem : t ∈ tasks.filter fun u => (handlers u).holdsSlot = true :=
        Finset.mem_filter.mpr ⟨hmem, hslot⟩
      have := Finset.card_pos.mpr ⟨t, hmem⟩
      rw [Finset.card_erase_of_mem hmem]
      omega
    · have hnot : t ∉ tasks.filter fun u => (handlers u).holdsSlot = true :=
        fun hmem => hslot (Finset.mem_filter.mp hmem).2
      rw [Finset.erase_eq_of_notMem hnot]
      exact hactive
  · split_ifs <;> omega

end

/-- A task that turns a connection away or has left it has closed its writer, and one that
was let in is in the history. -/
structure Filed (handlers : ℕ → Handler) (registered : Finset ℕ) (writerClosed : ℕ → Bool) :
    Prop where
  closed : ∀ t, handlers t = .refusing ∨ handlers t = .leaving → writerClosed t = true
  ended : ∀ t, handlers t = .ended → t ∈ registered ∨ writerClosed t = true
  registered : ∀ t, (handlers t).isRegistered = true → t ∈ registered

section
variable {handlers : ℕ → Handler} {registered registered' : Finset ℕ}
  {writerClosed writerClosed' : ℕ → Bool} {t : ℕ} {phase : Handler}

theorem Filed.mono (h : Filed handlers registered writerClosed) (hsub : registered ⊆ registered')
    (hclosed : ∀ t, writerClosed t = true → writerClosed' t = true) :
    Filed handlers registered' writerClosed' where
  closed t ht := hclosed t (h.closed t ht)
  ended t ht := (h.ended t ht).imp (fun hmem => hsub hmem) (hclosed t)
  registered t ht := hsub (h.registered t ht)

theorem Filed.update (h : Filed handlers registered writerClosed)
    (hclosed : phase = .refusing ∨ phase = .leaving → writerClosed t = true)
    (hended : phase = .ended → t ∈ registered ∨ writerClosed t = true)
    (hregistered : phase.isRegistered = true → t ∈ registered) :
    Filed (Function.update handlers t phase) registered writerClosed where
  closed := by
    intro u hu
    by_cases hut : u = t
    · subst hut
      rw [Function.update_self] at hu
      exact hclosed hu
    · rw [Function.update_of_ne hut] at hu
      exact h.closed u hu
  ended := by
    intro u hu
    by_cases hut : u = t
    · subst hut
      rw [Function.update_self] at hu
      exact hended hu
    · rw [Function.update_of_ne hut] at hu
      exact h.ended u hu
  registered := by
    intro u hu
    by_cases hut : u = t
    · subst hut
      rw [Function.update_self] at hu
      exact hregistered hu
    · rw [Function.update_of_ne hut] at hu
      exact h.registered u hu

end

theorem closed_mono (writerClosed : ℕ → Bool) (t u : ℕ) (hu : writerClosed u = true) :
    Function.update writerClosed t true u = true := by
  by_cases hut : u = t
  · subst hut
    exact Function.update_self ..
  · rw [Function.update_of_ne hut]
    exact hu

/-- The table has at most as many clients as there are slots, and until the transport
closes each of them has a task that reads from it. -/
structure Listed (c : Config) (closing : Bool) (clients : Finset ℕ) (handlers : ℕ → Handler) :
    Prop where
  card_le : clients.card ≤ c.maxConnections
  registered : closing = false → ∀ t ∈ clients, (handlers t).isRegistered = true

section
variable {c : Config} {closing : Bool} {clients tasks : Finset ℕ} {active : ℤ}
  {handlers : ℕ → Handler} {t : ℕ} {phase : Handler}

theorem Listed.erase (h : Listed c closing clients handlers) (t : ℕ) :
    Listed c closing (clients.erase t) handlers where
  card_le := (Finset.card_erase_le).trans h.card_le
  registered hopen u hu := h.registered hopen u (Finset.mem_of_mem_erase hu)

theorem Listed.update (h : Listed c closing clients handlers)
    (hphase : closing = false → t ∈ clients → phase.isRegistered = true) :
    Listed c closing clients (Function.update handlers t phase) where
  card_le := h.card_le
  registered := by
    intro hopen u hu
    by_cases hut : u = t
    · subst hut
      rw [Function.update_self]
      exact hphase hopen hu
    · rw [Function.update_of_ne hut]
      exact h.registered hopen u hu

theorem Listed.notMem (h : Listed c closing clients handlers) (hopen : closing = false)
    (ht : (handlers t).isRegistered = false) : t ∉ clients := by
  intro hmem
  nomatch ht.symm.trans (h.registered hopen t hmem)

theorem holdsSlot_of_registered (hphase : phase.isRegistered = true) : phase.holdsSlot = true := by
  cases phase with
  | reading | queueing payload => rfl
  | _ => nomatch hphase

/-- A new client has a slot, as all the others have. -/
theorem Listed.register (h : Listed c closing clients handlers) (hopen : closing = false)
    (hslots : Slots c tasks active (Function.update handlers t .reading)) :
    Listed c closing (insert t clients) (Function.update handlers t .reading) := by
  have hall : ∀ u ∈ insert t clients,
      (Function.update handlers t .reading u).isRegistered = true := by
    intro u hu
    by_cases hut : u = t
    · subst hut
      rw [Function.update_self]
      rfl
    · rw [Function.update_of_ne hut]
      exact h.registered hopen u (Finset.mem_of_mem_insert_of_ne hu hut)
  have hsub : insert t clients ⊆
      tasks.filter fun u => (Function.update handlers t .reading u).holdsSlot = true := by
    intro u hu
    have hslot := holdsSlot_of_registered (hall u hu)
    refine Finset.mem_filter.mpr ⟨(hslots.running u).mpr ?_, hslot⟩
    cases hphase : Function.update handlers t .reading u with
    | absent | ended => simp_all [Handler.holdsSlot]
    | _ => rfl
  constructor
  · have hcard := Finset.card_le_card hsub
    have hactive := hslots.active_eq
    have hle := hslots.active_le
    omega
  · exact fun _ => hall

theorem Listed.close (h : Listed c closing clients handlers) : Listed c true clients handlers where
  card_le := h.card_le
  registered := nofun

theorem listed_empty : Listed c closing ∅ handlers where
  card_le := Nat.zero_le _
  registered _ u hu := absurd hu (Finset.notMem_empty u)

end

/-- A running `close` has taken the connection from the table and is about to close it. -/
def InHand (closers : ℕ → Closer) (t : ℕ) : Prop :=
  ∃ k pending, closers k = .closingConnections pending ∧ t ∈ pending

/-- A client that was let in is in the table, closed, or in the hands of `close`. -/
def Accounted (clients registered : Finset ℕ) (writerClosed : ℕ → Bool) (closers : ℕ → Closer) :
    Prop :=
  ∀ t ∈ registered, t ∈ clients ∨ writerClosed t = true ∨ InHand closers t

section
variable {clients registered pending : Finset ℕ} {writerClosed : ℕ → Bool} {closers : ℕ → Closer}
  {k t : ℕ} {phase : Closer}

theorem InHand.update (h : InHand closers t)
    (hphase : ∀ pending, closers k = .closingConnections pending → t ∈ pending →
      ∃ pending', phase = .closingConnections pending' ∧ t ∈ pending') :
    InHand (Function.update closers k phase) t := by
  obtain ⟨j, pending, hj, ht⟩ := h
  by_cases hjk : j = k
  · subst hjk
    obtain ⟨pending', hpending, ht⟩ := hphase pending hj ht
    exact ⟨j, pending', (Function.update_self ..).trans hpending, ht⟩
  · exact ⟨j, pending, (Function.update_of_ne hjk ..).trans hj, ht⟩

theorem Accounted.closeWriter (h : Accounted clients registered writerClosed closers) (t : ℕ) :
    Accounted clients registered (Function.update writerClosed t true) closers := by
  intro u hu
  exact (h u hu).imp_right (Or.imp_left (closed_mono writerClosed t u))

/-- Whoever takes a client from the table closes its writer. -/
theorem Accounted.expel (h : Accounted clients registered writerClosed closers) (t : ℕ) :
    Accounted (clients.erase t) registered (Function.update writerClosed t true) closers := by
  intro u hu
  by_cases hut : u = t
  · subst hut
    exact Or.inr (Or.inl (Function.update_self ..))
  · apply (h.closeWriter t u hu).imp_left
    exact Finset.mem_erase_of_ne_of_mem hut

theorem Accounted.register (h : Accounted clients registered writerClosed closers) (t : ℕ) :
    Accounted (insert t clients) (insert t registered) writerClosed closers := by
  intro u hu
  by_cases hut : u = t
  · subst hut
    exact Or.inl (Finset.mem_insert_self u clients)
  · apply (h u (Finset.mem_of_mem_insert_of_ne hu hut)).imp_left
    exact Finset.mem_insert_of_mem

theorem Accounted.setCloser (h : Accounted clients registered writerClosed closers)
    (hphase : ∀ pending, closers k = .closingConnections pending → pending = ∅) :
    Accounted clients registered writerClosed (Function.update closers k phase) := by
  intro u hu
  apply (h u hu).imp_right
  apply Or.imp_right
  intro hhand
  apply hhand.update
  intro pending hk hmem
  rw [hphase pending hk] at hmem
  exact absurd hmem (Finset.notMem_empty u)

theorem Accounted.take (h : Accounted clients registered writerClosed closers)
    (hk : ∀ pending, closers k ≠ .closingConnections pending) :
    Accounted ∅ registered writerClosed
      (Function.update closers k (.closingConnections clients)) := by
  intro u hu
  apply Or.inr
  obtain hclient | hclosed | hhand := h u hu
  · exact Or.inr ⟨k, clients, Function.update_self .., hclient⟩
  · exact Or.inl hclosed
  · exact Or.inr (hhand.update fun pending hpending _ => absurd hpending (hk pending))

theorem Accounted.closeConnection (h : Accounted clients registered writerClosed closers)
    (hk : closers k = .closingConnections pending) (t : ℕ) :
    Accounted clients registered (Function.update writerClosed t true)
      (Function.update closers k (.closingConnections (pending.erase t))) := by
  intro u hu
  by_cases hut : u = t
  · subst hut
    exact Or.inr (Or.inl (Function.update_self ..))
  · apply (h.closeWriter t u hu).imp_right
    apply Or.imp_right
    intro hhand
    apply hhand.update
    intro pending' hpending hmem
    obtain rfl := Closer.closingConnections.inj (hk.symm.trans hpending)
    exact ⟨_, rfl, Finset.mem_erase_of_ne_of_mem hut hmem⟩

end

/-- The call has emptied the table. -/
def Closer.hasTaken : Closer → Bool
  | closingConnections _ | awaitingServer | returned => true
  | _ => false

structure Closed (closing : Bool) (closers : ℕ → Closer) (clients : Finset ℕ) : Prop where
  closing : ∀ k, closers k ≠ .absent → closing = true
  taken : ∀ k, (closers k).hasTaken = true → clients = ∅

section
variable {closing : Bool} {closers : ℕ → Closer} {clients : Finset ℕ} {k : ℕ} {phase : Closer}

theorem Closed.update (h : Closed closing closers clients) (hclosing : closing = true)
    (htaken : phase.hasTaken = true → clients = ∅) :
    Closed closing (Function.update closers k phase) clients where
  closing _ _ := hclosing
  taken := by
    intro j hj
    by_cases hjk : j = k
    · subst hjk
      rw [Function.update_self] at hj
      exact htaken hj
    · rw [Function.update_of_ne hjk] at hj
      exact h.taken j hj

theorem Closed.erase (h : Closed closing closers clients) (t : ℕ) :
    Closed closing closers (clients.erase t) where
  closing := h.closing
  taken k hk := by
    rw [h.taken k hk]
    rfl

/-- Nobody is let in while the transport closes. -/
theorem Closed.insert (h : Closed closing closers clients) (hopen : closing = false) (t : ℕ) :
    Closed closing closers (insert t clients) where
  closing := h.closing
  taken k hk := by
    have hclosing := h.closing k (by rintro habsent; rw [habsent] at hk; nomatch hk)
    nomatch hopen.symm.trans hclosing

end

structure Inv (c : Config) (s : State) : Prop where
  slots : Slots c s.connectionTasks s.active s.handlers
  filed : Filed s.handlers s.registered s.writerClosed
  listed : Listed c s.closing s.clients s.handlers
  accounted : Accounted s.clients s.registered s.writerClosed s.closers
  closed : Closed s.closing s.closers s.clients

theorem inv_start (c : Config) : Inv c start where
  slots := ⟨fun _ => by simp [start, Handler.isRunning], rfl, Int.natCast_nonneg _⟩
  filed := ⟨fun _ h => by simp [start] at h, fun _ h => (nomatch h), fun _ h => (nomatch h)⟩
  listed := listed_empty
  accounted t ht := absurd ht (Finset.notMem_empty t)
  closed := ⟨fun _ h => absurd rfl h, fun _ _ => rfl⟩

section
variable {c : Config} {s s' : State} {e : Event} {t k j : ℕ} {tasks : Finset ℕ} {active : ℤ}

theorem Inv.closeWriter (h : Inv c s) (t : ℕ) : Inv c (closeWriter s t) where
  slots := h.slots
  filed := h.filed.mono (Finset.Subset.refl _) (closed_mono s.writerClosed t)
  listed := h.listed
  accounted := h.accounted.closeWriter t
  closed := h.closed

/-- A connection that was not let in closes its writer. -/
theorem Inv.leave_unregistered (h : Inv c s) (ht : (s.handlers t).isRegistered = false)
    (hslots : Slots c tasks active (Function.update s.handlers t .leaving)) :
    Inv c (leave { s with connectionTasks := tasks, active := active } t false) := by
  rw [MulticastTcp.leave_unregistered]
  have hw := h.closeWriter t
  exact {
    slots := hslots
    filed := hw.filed.update (fun _ => Function.update_self ..) nofun nofun
    listed := h.listed.update fun hopen hmem => absurd hmem (h.listed.notMem hopen ht)
    accounted := hw.accounted
    closed := h.closed }

theorem Inv.register (h : Inv c s) (hopen : s.closing = false)
    (hslots : Slots c tasks active (Function.update s.handlers t .reading))
    (principal : Option String) :
    Inv c (register { s with connectionTasks := tasks, active := active } t principal) where
  slots := hslots
  filed := by
    have hfiled := h.filed.mono (Finset.subset_insert t s.registered) fun _ => id
    exact hfiled.update nofun nofun fun _ => Finset.mem_insert_self t _
  listed := h.listed.register hopen hslots
  accounted := h.accounted.register t
  closed := h.closed.insert hopen t

theorem Inv.refuse (h : Inv c s) (ht : s.handlers t = .absent) :
    Inv c (setHandler (MulticastTcp.closeWriter (track s t) t) t .refusing) := by
  have hw := h.closeWriter t
  have hregistered : (s.handlers t).isRegistered = false := by
    rw [ht]
    rfl
  exact {
    slots := h.slots.refuse ht
    filed := hw.filed.update (fun _ => Function.update_self ..) nofun nofun
    listed := h.listed.update fun hopen hmem => absurd hmem (h.listed.notMem hopen hregistered)
    accounted := hw.accounted
    closed := h.closed }

theorem Inv.accept (h : Inv c s) (ht : s.handlers t = .absent) (refused : Bool) :
    Inv c (accept c s t refused) := by
  have hregistered : (s.handlers t).isRegistered = false := by
    rw [ht]
    rfl
  unfold MulticastTcp.accept
  split_ifs with hclosing hfull
  · exact h.refuse ht
  · exact h.refuse ht
  all_goals
    have hopen : s.closing = false := by simpa using hclosing
    have hfree : s.active < c.maxConnections := by omega
  · exact h.leave_unregistered hregistered (h.slots.enter ht hfree rfl rfl)
  · exact {
      slots := h.slots.enter ht hfree rfl rfl
      filed := h.filed.update nofun nofun nofun
      listed := h.listed.update fun _ hmem => absurd hmem (h.listed.notMem hopen hregistered)
      accounted := h.accounted
      closed := h.closed }
  · exact h.register hopen (h.slots.enter ht hfree rfl rfl) none

theorem Inv.verified (h : Inv c s) (ht : s.handlers t = .verifying) (verdict : Verdict) :
    Inv c (verified s t verdict) := by
  have hregistered : (s.handlers t).isRegistered = false := by
    rw [ht]
    rfl
  have hleaves : Inv c (leave s t false) :=
    h.leave_unregistered hregistered (h.slots.change (by rw [ht]; rfl) (by rw [ht]; rfl))
  unfold MulticastTcp.verified
  split
  next name =>
    split_ifs with hclosing
    · exact hleaves
    · have hslots :
          Slots c s.connectionTasks s.active (Function.update s.handlers t .reading) :=
        h.slots.change (by rw [ht]; rfl) (by rw [ht]; rfl)
      exact h.register (by simpa using hclosing) hslots (some name)
  next => exact hleaves

/-- A reader ends: it closes its connection, or leaves it to `close`. -/
theorem Inv.leave_true (h : Inv c s) (ht : (s.handlers t).isRegistered = true) :
    Inv c (leave s t true) := by
  have hslot := holdsSlot_of_registered ht
  have hrunning : (s.handlers t).isRunning = true := by
    cases hphase : s.handlers t with
    | reading | queueing payload => rfl
    | _ => rw [hphase] at ht; nomatch ht
  cases hclosing : s.closing with
  | true =>
    rw [leave_closing s t hclosing]
    have hslots := h.slots.exit hrunning
    rw [if_pos hslot] at hslots
    exact {
      slots := hslots
      filed := h.filed.update nofun (fun _ => Or.inl (h.filed.registered t ht)) nofun
      listed := h.listed.update fun hopen => nomatch hopen.symm.trans hclosing
      accounted := h.accounted
      closed := h.closed }
  | false =>
    rw [leave_open s t hclosing]
    exact {
      slots := h.slots.change hslot.symm hrunning.symm
      filed := (h.closeWriter t).filed.update (fun _ => Function.update_self ..) nofun nofun
      listed := (h.listed.erase t).update fun _ hmem => absurd hmem (Finset.notMem_erase t _)
      accounted := h.accounted.expel t
      closed := h.closed.erase t }

theorem Inv.frame (h : Inv c s) (ht : s.handlers t = .reading) (payload : Bytes) :
    Inv c (frame s t payload) := by
  have hregistered : (s.handlers t).isRegistered = true := by
    rw [ht]
    rfl
  unfold MulticastTcp.frame
  split_ifs
  · exact h.leave_true hregistered
  · exact {
      slots := h.slots.change (by rw [ht]; rfl) (by rw [ht]; rfl)
      filed := h.filed.update nofun nofun fun _ => h.filed.registered t hregistered
      listed := h.listed.update fun _ _ => rfl
      accounted := h.accounted
      closed := h.closed }

theorem Inv.queued {payload : Bytes} {queue : List (ℕ × Bytes)} (h : Inv c s)
    (ht : s.handlers t = .queueing payload) :
    Inv c { setHandler s t .reading with queue := queue } := by
  have hregistered : (s.handlers t).isRegistered = true := by
    rw [ht]
    rfl
  exact {
    slots := h.slots.change (by rw [ht]; rfl) (by rw [ht]; rfl)
    filed := h.filed.update nofun nofun fun _ => h.filed.registered t hregistered
    listed := h.listed.update fun _ _ => rfl
    accounted := h.accounted
    closed := h.closed }

theorem Inv.finished (h : Inv c s) (ht : s.handlers t = .refusing ∨ s.handlers t = .leaving) :
    Inv c (finished s t) := by
  have hrunning : (s.handlers t).isRunning = true := by
    obtain ht | ht := ht <;> rw [ht] <;> rfl
  have hregistered : (s.handlers t).isRegistered = false := by
    obtain ht | ht := ht <;> rw [ht] <;> rfl
  exact {
    slots := h.slots.exit hrunning
    filed := h.filed.update nofun (fun _ => Or.inr (h.filed.closed t ht)) nofun
    listed := h.listed.update fun hopen hmem => absurd hmem (h.listed.notMem hopen hregistered)
    accounted := h.accounted
    closed := h.closed }

/-- The calls of `send`, the receive queue and the principals are no part of it. -/
theorem Inv.of_same {inflight : Finset ℕ} {senders : ℕ → Sender} {queue : List (ℕ × Bytes)}
    (h : Inv c s) : Inv c { s with inflight := inflight, senders := senders, queue := queue } where
  slots := h.slots
  filed := h.filed
  listed := h.listed
  accounted := h.accounted
  closed := h.closed

/-- A client is taken from the table and its connection closed. -/
theorem Inv.expel (h : Inv c s) (client : ℕ) :
    Inv c { MulticastTcp.closeWriter s client with clients := s.clients.erase client } where
  slots := h.slots
  filed := (h.closeWriter client).filed
  listed := h.listed.erase client
  accounted := h.accounted.expel client
  closed := h.closed.erase client

theorem Inv.send {client : ℕ} {data : Bytes} (h : Inv c s) (idle : Bool) :
    Inv c (send c s j client data idle) := by
  unfold MulticastTcp.send
  split_ifs
  · exact h.of_same
  · exact (h.expel client).of_same
  · exact h.of_same

theorem Inv.failSend (h : Inv c s) (j client : ℕ) : Inv c (failSend s j client) := by
  unfold MulticastTcp.failSend
  split_ifs
  · exact (h.expel client).of_same
  · exact (h.closeWriter client).of_same

theorem Inv.write (h : Inv c s) (j client : ℕ) : Inv c (write s j client) := by
  unfold MulticastTcp.write
  split_ifs
  · exact h.failSend j client
  · exact h.of_same

/-- A `close` goes on without taking or closing a connection. -/
theorem Inv.setCloser {phase : Closer} (h : Inv c s) (hclosing : s.closing = true)
    (hold : ∀ pending, s.closers k = .closingConnections pending → pending = ∅)
    (hnew : phase.hasTaken = true → s.clients = ∅) : Inv c (setCloser s k phase) where
  slots := h.slots
  filed := h.filed
  listed := h.listed
  accounted := h.accounted.setCloser hold
  closed := h.closed.update hclosing hnew

theorem Inv.beginClose (h : Inv c s) (hk : s.closers k = .absent) : Inv c (beginClose s k) := by
  have hclosing : Inv c { s with closing := true, queue := [] } := {
    slots := h.slots
    filed := h.filed
    listed := h.listed.close
    accounted := h.accounted
    closed := ⟨fun _ _ => rfl, h.closed.taken⟩ }
  exact hclosing.setCloser rfl (fun _ hpending => nomatch hk.symm.trans hpending) nofun

theorem Inv.gathered {tracked : Finset ℕ} (h : Inv c s) (hk : s.closers k = .gathering tracked) :
    Inv c (gathered s k) := by
  have hclosing : s.closing = true := h.closed.closing k (by rw [hk]; nofun)
  have hold : ∀ pending, s.closers k ≠ .closingConnections pending := by
    rw [hk]
    nofun
  unfold MulticastTcp.gathered
  split_ifs with hempty
  · exact h.setCloser hclosing (fun pending hpending => absurd hpending (hold pending))
      fun _ => hempty
  · exact {
      slots := h.slots
      filed := h.filed
      listed := listed_empty
      accounted := h.accounted.take hold
      closed := ⟨fun _ _ => hclosing, fun _ _ => rfl⟩ }

theorem Inv.closeConnection {pending : Finset ℕ} (h : Inv c s)
    (hk : s.closers k = .closingConnections pending) (t : ℕ) :
    Inv c (MulticastTcp.setCloser (MulticastTcp.closeWriter s t) k
      (.closingConnections (pending.erase t))) where
  slots := h.slots
  filed := (h.closeWriter t).filed
  listed := h.listed
  accounted := h.accounted.closeConnection hk t
  closed := h.closed.update (h.closed.closing k (by rw [hk]; nofun))
    fun _ => h.closed.taken k (by rw [hk]; rfl)

theorem Inv.step (h : Inv c s) (hs : step c s e = some s') : Inv c s' := by
  cases happens_of_step hs with
  | accept t refused ht => exact h.accept ht refused
  | verified t verdict ht => exact h.verified ht verdict
  | frame t payload ht => exact h.frame ht payload
  | queued t payload ht _ => exact h.queued ht
  | failed t ht => exact h.leave_true ht
  | finished t ht => exact h.finished ht
  | recv => exact h.of_same
  | send j client data idle => exact h.send idle
  | write j client => exact h.write j client
  | sent => exact h.of_same
  | failSend j client => exact h.failSend j client
  | expelled => exact h.of_same
  | expel t => exact h.closeWriter t
  | beginClose k hk => exact h.beginClose hk
  | drained k tracked hk _ =>
    apply h.setCloser (h.closed.closing k (by rw [hk]; nofun))
    · exact fun _ hpending => nomatch hk.symm.trans hpending
    · nofun
  | gathered k tracked hk _ => exact h.gathered hk
  | closeConnection k t pending hk _ => exact h.closeConnection hk t
  | connectionsClosed k hk =>
    apply h.setCloser (h.closed.closing k (by rw [hk]; nofun))
    · exact fun _ hpending => (Closer.closingConnections.inj (hk.symm.trans hpending)).symm
    · exact fun _ => h.closed.taken k (by rw [hk]; rfl)
  | returned k hk =>
    apply h.setCloser (h.closed.closing k (by rw [hk]; nofun))
    · exact fun _ hpending => nomatch hk.symm.trans hpending
    · exact fun _ => h.closed.taken k (by rw [hk]; rfl)

end

section
variable {c : Config} {s s' : State} {e : Event} {t : ℕ}

/-- Nobody was let in, and the transport still closes. -/
structure Quiet (s s' : State) : Prop where
  registered : s'.registered = s.registered := by rfl
  closing : s.closing = true → s'.closing = true := by exact id

theorem leave_quiet (s : State) (t : ℕ) (registered : Bool) : Quiet s (leave s t registered) := by
  cases registered with
  | false =>
    rw [leave_unregistered]
    exact {}
  | true =>
    cases hclosing : s.closing with
    | true =>
      rw [leave_closing s t hclosing]
      exact {}
    | false =>
      rw [leave_open s t hclosing]
      exact {}

theorem failSend_quiet (s : State) (j client : ℕ) : Quiet s (failSend s j client) := by
  unfold failSend
  split_ifs
  · exact {}
  · exact {}

theorem write_quiet (s : State) (j client : ℕ) : Quiet s (write s j client) := by
  unfold write
  split_ifs
  · exact failSend_quiet s j client
  · exact {}

theorem verified_quiet (hclosing : s.closing = true) (t : ℕ) (verdict : Verdict) :
    Quiet s (verified s t verdict) := by
  unfold verified
  split
  next =>
    rw [if_pos hclosing]
    exact leave_quiet s t false
  next => exact leave_quiet s t false

theorem gathered_quiet (s : State) (k : ℕ) : Quiet s (gathered s k) := by
  unfold gathered
  split_ifs
  · exact {}
  · exact {}

theorem step_quiet (hclosing : s.closing = true) (hs : step c s e = some s') : Quiet s s' := by
  cases happens_of_step hs with
  | accept t refused =>
    rw [accept, if_pos hclosing]
    exact {}
  | verified t verdict => exact verified_quiet hclosing t verdict
  | frame t payload =>
    rw [frame, if_pos hclosing]
    exact leave_quiet s t true
  | queued t payload _ hopen => nomatch hclosing.symm.trans hopen
  | failed t => exact leave_quiet s t true
  | send j client data idle =>
    rw [send, if_pos (by simp [hclosing])]
    exact {}
  | write j client => exact write_quiet s j client
  | failSend j client => exact failSend_quiet s j client
  | gathered k => exact gathered_quiet s k
  | beginClose k => exact { closing := fun _ => rfl }
  | finished | recv | sent | expelled | expel | drained | closeConnection | connectionsClosed
  | returned => exact {}

theorem run_quiet {es : List Event} (hclosing : s.closing = true)
    (h : Machine.run (step c) s es = some s') : s'.registered = s.registered := by
  have hall : s'.closing = true ∧ s'.registered = s.registered := by
    apply Machine.invariant (P := fun x => x.closing = true ∧ x.registered = s.registered) _ _ h
    · rintro x e y ⟨hx, hsame⟩ hstep
      have hquiet := step_quiet hx hstep
      exact ⟨hquiet.closing hx, hquiet.registered.trans hsame⟩
    · exact ⟨hclosing, rfl⟩
  exact hall.2

end

/-- At most as many clients are registered as there may be connections. A connection whose
task has ended is registered, closed, or taken over by a running `close`, which closes it
before it returns. Once `close` has begun nobody is registered any more, and when one
returns no client is registered and each that ever was is closed, unless another call has
taken it over. -/
theorem connections_accounted (c : Config) (es : List Event) (s : State)
    (h : Machine.run (step c) start es = some s) :
    s.clients.card ≤ c.maxConnections ∧
      (∀ t, s.handlers t = .ended →
        t ∈ s.clients ∨ s.writerClosed t = true ∨ InHand s.closers t) ∧
      (∀ fs s', s.closing = true → Machine.run (step c) s fs = some s' →
        s'.registered = s.registered) ∧
      ∀ k, s.closers k = .returned → s.clients = ∅ ∧
        ∀ t ∈ s.registered, s.writerClosed t = true ∨
          ∃ j pending, j ≠ k ∧ s.closers j = .closingConnections pending ∧ t ∈ pending := by
  have hinv : Inv c s := Machine.invariant (fun _ _ _ hs hstep => hs.step hstep) (inv_start c) h
  refine ⟨hinv.listed.card_le, ?_, fun fs s' hclosing hrun => run_quiet hclosing hrun, ?_⟩
  · intro t ht
    obtain hregistered | hclosed := hinv.filed.ended t ht
    · exact hinv.accounted t hregistered
    · exact Or.inr (Or.inl hclosed)
  · intro k hk
    have hempty : s.clients = ∅ := hinv.closed.taken k (by rw [hk]; rfl)
    refine ⟨hempty, fun t ht => ?_⟩
    obtain hclient | hclosed | ⟨j, pending, hj, hpending⟩ := hinv.accounted t ht
    · rw [hempty] at hclient
      exact absurd hclient (Finset.notMem_empty t)
    · exact Or.inl hclosed
    · refine Or.inr ⟨j, pending, ?_, hj, hpending⟩
      rintro rfl
      nomatch hk.symm.trans hj

/-- A client is held by a `close` and then a second call overlaps it. -/
def overlappingRun : List Event :=
  [.accept 0 false, .verified 0 (.principal "alice"), .beginClose 0, .beginClose 1, .drained 0,
    .drained 1, .failed 0, .gathered 0, .gathered 1, .returned 1]

/-- The second call finds the table empty and returns before the first one has closed the
connection it took. -/
theorem overlapping_close_returns :
    ∃ s, Machine.run (step ⟨1, 1024, true, true⟩) start overlappingRun = some s ∧
      s.closers 1 = .returned ∧ 0 ∈ s.registered ∧ s.writerClosed 0 = false :=
  ⟨_, rfl, rfl, by decide, rfl⟩

theorem connections_accounted_overlapping :
    ∃ s, Machine.run (step ⟨1, 1024, true, true⟩) start overlappingRun = some s ∧
      s.clients.card ≤ 1 ∧ s.closers 1 = .returned ∧ s.clients = ∅ := by
  refine ⟨_, rfl, ?_, rfl, ?_⟩
  · exact (connections_accounted ⟨1, 1024, true, true⟩ overlappingRun _ rfl).1
  · exact ((connections_accounted ⟨1, 1024, true, true⟩ overlappingRun _ rfl).2.2.2 1 rfl).1

end WireRpc.MulticastTcp
