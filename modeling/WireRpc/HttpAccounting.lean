import WireRpc.HttpOwnership

/-!
# Admission and byte accounting over HTTP

The byte counter is the size of what is queued, whoever takes a body out of the queue, and the
pending set holds the requests in progress, which are the only ones with a principal.
-/
namespace WireRpc.HttpServer
open Library

def Phase.isWaiting : Phase → Bool
  | waiting .. => true
  | _ => false

/-- Admitted, and not over. -/
def Phase.inProgress : Phase → Bool
  | reading => true
  | waiting .. => true
  | _ => false

/-- The bytes of the bodies in a queue. -/
def totalBytes (queue : List (Bytes × ℕ)) : ℕ := (queue.map fun p => p.1.length).sum

theorem totalBytes_erase {queue : List (Bytes × ℕ)} {p : Bytes × ℕ} (h : p ∈ queue) :
    totalBytes (queue.erase p) + p.1.length = totalBytes queue := by
  have hsum := (List.perm_cons_erase h).map fun p : Bytes × ℕ => p.1.length
  have heq := hsum.sum_eq
  simp only [List.map_cons, List.sum_cons] at heq
  unfold totalBytes
  omega

theorem totalBytes_append (queue queue' : List (Bytes × ℕ)) :
    totalBytes (queue ++ queue') = totalBytes queue + totalBytes queue' := by
  simp [totalBytes]

structure Accounted (c : Config) (s : State) : Prop where
  bytes : s.queuedBytes = totalBytes s.queue
  bytes_le : s.queuedBytes ≤ c.maxQueueBytes
  admitted_le : s.pending.card ≤ c.maxPendingRequests
  pending : ∀ r, r ∈ s.pending ↔ (s.phases r).inProgress = true
  principals : ∀ r, (s.principals r).isSome = (s.phases r).isWaiting
  active : ∀ r, s.active = some r →
    (s.futures r).done = true ∨ (s.phases r).isWaiting = true

theorem accounted_start (c : Config) : Accounted c start where
  bytes := rfl
  bytes_le := Int.natCast_nonneg _
  admitted_le := Nat.zero_le _
  pending := by simp [start, Phase.inProgress]
  principals := fun _ => rfl
  active := by simp [start]

section
variable {c : Config} {s s' : State} {r : ℕ}

/-- Bytes may leave the queue, and requests stay as far as they are. -/
theorem Accounted.quiet (h : Accounted c s) (hbytes : s'.queuedBytes = totalBytes s'.queue)
    (hle : s'.queuedBytes ≤ s.queuedBytes) (hpending : s'.pending = s.pending)
    (hprincipals : s'.principals = s.principals)
    (hwaiting : ∀ k, (s'.phases k).isWaiting = (s.phases k).isWaiting)
    (hprogress : ∀ k, (s'.phases k).inProgress = (s.phases k).inProgress)
    (hactive : ∀ k, s'.active = some k →
      (s'.futures k).done = true ∨ (s'.phases k).isWaiting = true) : Accounted c s' where
  bytes := hbytes
  bytes_le := hle.trans h.bytes_le
  admitted_le := hpending ▸ h.admitted_le
  pending := by
    intro k
    rw [hpending, hprogress]
    exact h.pending k
  principals := by
    intro k
    rw [hprincipals, hwaiting]
    exact h.principals k
  active := hactive

/-- The future of a request that has been given up is done, and so is each that was. -/
theorem setFuture_done {future : Future} (hfuture : future.done = true) {k : ℕ}
    (hk : k = r ∨ (s.futures k).done = true) : ((setFuture s r future).futures k).done = true := by
  unfold setFuture
  split_ifs with hdone
  · obtain rfl | hk := hk
    · exact hdone
    · exact hk
  · show (Function.update s.futures r future k).done = true
    by_cases hkr : k = r
    · subst k
      rw [Function.update_self]
      exact hfuture
    · rw [Function.update_of_ne hkr]
      exact hk.resolve_left hkr

@[simp] theorem setFuture_pending (future : Future) :
    (setFuture s r future).pending = s.pending := by
  unfold setFuture
  split <;> rfl

@[simp] theorem setFuture_queuedBytes (future : Future) :
    (setFuture s r future).queuedBytes = s.queuedBytes := by
  unfold setFuture
  split <;> rfl

theorem release_pending (entry : Option Bytes) :
    (release s r entry).pending = s.pending.erase r := by
  unfold release
  cases entry with
  | none => simp
  | some data => dsimp only; split <;> simp

theorem release_done (entry : Option Bytes) {k : ℕ}
    (hk : k = r ∨ (s.futures k).done = true) :
    ((release s r entry).futures k).done = true := by
  have hset : ((setFuture { s with
      pending := s.pending.erase r
      principals := Function.update s.principals r none } r .cancelled).futures k).done = true :=
    setFuture_done rfl hk
  unfold release
  cases entry with
  | none => exact hset
  | some data =>
    dsimp only
    split
    · exact hset
    · exact hset

/-- The `finally` block subtracts the body exactly if it still is in the queue. -/
theorem release_bytes (entry : Option Bytes) (h : s.queuedBytes = totalBytes s.queue) :
    (release s r entry).queuedBytes = totalBytes (release s r entry).queue ∧
      (release s r entry).queuedBytes ≤ s.queuedBytes := by
  unfold release
  cases entry with
  | none => simpa using h
  | some data =>
    dsimp only
    split_ifs with hmem
    · rw [setFuture_queue] at hmem
      have herase : totalBytes (s.queue.erase (data, r)) + data.length = totalBytes s.queue :=
        totalBytes_erase hmem
      simp only [setFuture_queue, setFuture_queuedBytes, h]
      omega
    · simpa using h

/-- A request ends: it is no longer admitted, and its principal goes. -/
theorem Accounted.finish (h : Accounted c s) (entry : Option Bytes) (response : HttpResponse) :
    Accounted c (respond (release s r entry) r response) where
  bytes := (release_bytes entry h.bytes).1
  bytes_le := (release_bytes entry h.bytes).2.trans h.bytes_le
  admitted_le := by
    show (release s r entry).pending.card ≤ c.maxPendingRequests
    rw [release_pending]
    exact (Finset.card_erase_le).trans h.admitted_le
  pending := by
    intro k
    show k ∈ (release s r entry).pending ↔
      (Function.update (release s r entry).phases r (.ended response) k).inProgress = true
    rw [release_pending, release_phases]
    by_cases hk : k = r
    · subst k
      simp [Phase.inProgress]
    · rw [Finset.mem_erase, Function.update_of_ne hk]
      exact (and_iff_right hk).trans (h.pending k)
  principals := by
    intro k
    show ((release s r entry).principals k).isSome =
      (Function.update (release s r entry).phases r (.ended response) k).isWaiting
    rw [release_principals, release_phases]
    by_cases hk : k = r
    · subst k
      simp [Phase.isWaiting]
    · rw [Function.update_of_ne hk, Function.update_of_ne hk]
      exact h.principals k
  active := by
    intro k hactive
    have hold : s.active = some k := by simpa [respond] using hactive
    by_cases hk : k = r
    · exact .inl (release_done entry (.inl hk))
    · obtain hdone | hwaiting := h.active k hold
      · exact .inl (release_done entry (.inr hdone))
      · refine .inr ?_
        show (Function.update (release s r entry).phases r (.ended response) k).isWaiting = true
        rw [Function.update_of_ne hk, release_phases]
        exact hwaiting

/-- What is the same for the new phase of one request is the same for every request. -/
theorem update_phase (f : Phase → Bool) {phases : ℕ → Phase} {old phase : Phase}
    (hold : phases r = old) (h : f phase = f old) (k : ℕ) :
    f (Function.update phases r phase k) = f (phases k) := by
  by_cases hk : k = r
  · subst k
    rw [Function.update_self, hold, h]
  · rw [Function.update_of_ne hk]

/-- A request that is not admitted ends at once. -/
theorem Accounted.refuse (h : Accounted c s) (hphase : s.phases r = .absent)
    (response : HttpResponse) : Accounted c (respond s r response) := by
  have hwaiting : ∀ k, ((respond s r response).phases k).isWaiting = (s.phases k).isWaiting :=
    update_phase Phase.isWaiting hphase rfl
  have hprogress : ∀ k, ((respond s r response).phases k).inProgress = (s.phases k).inProgress :=
    update_phase Phase.inProgress hphase rfl
  refine h.quiet ?_ le_rfl rfl rfl hwaiting hprogress ?_
  · exact h.bytes
  intro k hactive
  exact (h.active k hactive).imp_right (hwaiting k).trans

theorem Accounted.handle (h : Accounted c s) (originAllowed : Bool)
    (hphase : s.phases r = .absent) : Accounted c (handle c s r originAllowed) := by
  have hnew : r ∉ s.pending := by
    rw [h.pending, hphase]
    exact Bool.false_ne_true
  have hwaiting : ∀ k, (Function.update s.phases r .reading k).isWaiting =
      (s.phases k).isWaiting := update_phase Phase.isWaiting hphase rfl
  unfold WireRpc.HttpServer.handle
  split_ifs with hfull horigin
  · exact h.refuse hphase _
  · exact h.refuse hphase _
  · constructor
    case bytes => exact h.bytes
    case bytes_le => exact h.bytes_le
    case admitted_le =>
      show (insert r s.pending).card ≤ c.maxPendingRequests
      rw [Finset.card_insert_of_notMem hnew]
      omega
    case pending =>
      intro k
      show k ∈ insert r s.pending ↔ (Function.update s.phases r .reading k).inProgress = true
      by_cases hk : k = r
      · subst k
        simp [Phase.inProgress]
      · rw [Finset.mem_insert, Function.update_of_ne hk]
        exact (or_iff_right hk).trans (h.pending k)
    case principals => exact fun k => (h.principals k).trans (hwaiting k).symm
    case active => exact fun k hactive => (h.active k hactive).imp_right (hwaiting k).trans

/-- A body fits the queue: its request gets a principal and waits. -/
theorem Accounted.enqueue (h : Accounted c s) (user : Option String) (data : Bytes)
    (hphase : s.phases r = .reading) (hroom : s.queuedBytes + data.length ≤ c.maxQueueBytes) :
    Accounted c { s with
      principals := Function.update s.principals r (some user)
      queuedBytes := s.queuedBytes + data.length
      queue := s.queue ++ [(data, r)]
      ready := true
      phases := Function.update s.phases r (.waiting data none)
      log := s.log ++ [Entry.queued r data] } where
  bytes := by
    show s.queuedBytes + data.length = (totalBytes (s.queue ++ [(data, r)]) : ℤ)
    rw [totalBytes_append, h.bytes]
    simp [totalBytes]
  bytes_le := hroom
  admitted_le := h.admitted_le
  pending := by
    intro k
    have hprogress : (Function.update s.phases r (.waiting data none) k).inProgress =
        (s.phases k).inProgress := update_phase Phase.inProgress hphase (by rfl) k
    show k ∈ s.pending ↔ (Function.update s.phases r (.waiting data none) k).inProgress = true
    rw [hprogress, h.pending]
  principals := by
    intro k
    show (Function.update s.principals r (some user) k).isSome =
      (Function.update s.phases r (.waiting data none) k).isWaiting
    by_cases hk : k = r
    · subst k
      rw [Function.update_self, Function.update_self]
      rfl
    · rw [Function.update_of_ne hk, Function.update_of_ne hk]
      exact h.principals k
  active := by
    intro k hactive
    show _ ∨ (Function.update s.phases r (.waiting data none) k).isWaiting = true
    by_cases hk : k = r
    · subst k
      rw [Function.update_self]
      exact .inr rfl
    · rw [Function.update_of_ne hk]
      exact h.active k hactive

theorem Accounted.body (h : Accounted c s) (user : Option String) (data : Bytes)
    (hphase : s.phases r = .reading) : Accounted c (body c s r user data) := by
  unfold WireRpc.HttpServer.body
  split_ifs with hclosing hsize hroom
  · exact h.finish none _
  · exact h.finish none _
  · exact h.finish none _
  · exact h.enqueue user data hphase (not_lt.mp hroom)

theorem Accounted.interrupt (h : Accounted c s) {data : Bytes} {interrupted : Option Failure}
    (timedOut : Bool) (hphase : s.phases r = .waiting data interrupted) :
    Accounted c (interrupt s r data interrupted timedOut) := by
  have hwaiting : ∀ k, ((HttpServer.interrupt s r data interrupted timedOut).phases k).isWaiting =
      (s.phases k).isWaiting := update_phase Phase.isWaiting hphase rfl
  have hprogress : ∀ k, ((HttpServer.interrupt s r data interrupted timedOut).phases k).inProgress =
      (s.phases k).inProgress := update_phase Phase.inProgress hphase rfl
  refine h.quiet ?_ (setFuture_queuedBytes ..).le (setFuture_pending ..)
    (setFuture_principals ..) hwaiting hprogress ?_
  · show (setFuture s r .cancelled).queuedBytes = _
    rw [setFuture_queuedBytes]
    simpa [WireRpc.HttpServer.interrupt] using h.bytes
  · intro k hactive
    have hold : s.active = some k := by simpa [WireRpc.HttpServer.interrupt] using hactive
    obtain hdone | hwaits := h.active k hold
    · exact .inl (setFuture_done rfl (.inr hdone))
    · exact .inr ((hwaiting k).trans hwaits)

/-- The counter follows the bodies that `pop` takes from the queue. -/
theorem pop_bytes {futures : ℕ → Future} {queue rest : List (Bytes × ℕ)} {n m : ℤ}
    {found : Option (Bytes × ℕ)} (h : pop futures queue n = (found, rest, m))
    (hn : n = totalBytes queue) : m = totalBytes rest ∧ m ≤ n := by
  induction queue generalizing n with
  | nil =>
    simp only [pop, Prod.mk.injEq] at h
    obtain ⟨-, rfl, rfl⟩ := h
    exact ⟨hn, le_rfl⟩
  | cons p queue ih =>
    obtain ⟨data, k⟩ := p
    have htotal : totalBytes ((data, k) :: queue) = data.length + totalBytes queue := rfl
    have hrest : n - data.length = totalBytes queue := by omega
    simp only [pop] at h
    split_ifs at h
    · obtain ⟨hm, hle⟩ := ih h hrest
      exact ⟨hm, by omega⟩
    · simp only [Prod.mk.injEq] at h
      obtain ⟨-, rfl, rfl⟩ := h
      exact ⟨hrest, by omega⟩

/-- What `recv` takes from the queue is a waiting request with a principal. -/
theorem Inv.popped_waiting (h : Inv s) {futures : ℕ → Future} {n m : ℤ} {p : Bytes × ℕ}
    {rest : List (Bytes × ℕ)} (hpop : pop futures s.queue n = (some p, rest, m)) :
    (s.phases p.2).isWaiting = true := by
  obtain ⟨skipped, hqueue, -⟩ := pop_spec hpop
  obtain ⟨interrupted, hwaiting⟩ := h.queue_waiting p (by simp [hqueue])
  rw [hwaiting]
  rfl

theorem Accounted.waits (h : Accounted c s) (receiving : Bool) :
    Accounted c { s with receiving := receiving } :=
  h.quiet h.bytes le_rfl rfl rfl (fun _ => rfl) (fun _ => rfl) h.active

theorem Accounted.poll (h : Accounted c s) (hinv : Inv s) : Accounted c (poll s) := by
  unfold WireRpc.HttpServer.poll
  split_ifs
  · exact h.waits false
  · cases hpop : pop s.futures s.queue s.queuedBytes with
    | mk found rest =>
      obtain ⟨rest, queuedBytes⟩ := rest
      obtain ⟨hbytes, hle⟩ := pop_bytes hpop h.bytes
      cases found with
      | none => exact h.quiet hbytes hle rfl rfl (fun _ => rfl) (fun _ => rfl) h.active
      | some p =>
        have hwaiting := hinv.popped_waiting hpop
        have hactive : ∀ k, some p.2 = some k →
            (s.futures k).done = true ∨ (s.phases k).isWaiting = true := by
          rintro k ⟨⟩
          exact .inr hwaiting
        cases huser : s.principals p.2 with
        | none =>
          simp only [huser]
          exact h.quiet hbytes hle rfl rfl (fun _ => rfl) (fun _ => rfl) hactive
        | some user =>
          simp only [huser]
          exact h.quiet hbytes hle rfl rfl (fun _ => rfl) (fun _ => rfl) hactive

/-- The turn ends, whatever becomes of its future. -/
theorem Accounted.endTurn (h : Accounted c s) (hactive : s'.active = none)
    (hqueue : s'.queue = s.queue) (hbytes : s'.queuedBytes = s.queuedBytes)
    (hpending : s'.pending = s.pending) (hprincipals : s'.principals = s.principals)
    (hphases : s'.phases = s.phases) : Accounted c s' := by
  refine h.quiet ?_ hbytes.le hpending hprincipals (fun k => ?_) (fun k => ?_) (fun k hk => ?_)
  · rw [hbytes, hqueue]
    exact h.bytes
  · rw [hphases]
  · rw [hphases]
  · rw [hactive] at hk
    cases hk

theorem Accounted.send (h : Accounted c s) {data : Bytes} (hsend : send c s data = .ok s') :
    Accounted c s' := by
  unfold WireRpc.HttpServer.send at hsend
  split_ifs at hsend
  cases hactive : s.active with
  | none => simp [hactive] at hsend
  | some r =>
    simp only [hactive, Except.ok.injEq] at hsend
    subst hsend
    exact h.endTurn rfl (setFuture_queue ..) (setFuture_queuedBytes ..) (setFuture_pending ..)
      (setFuture_principals ..) (setFuture_phases ..)

theorem Accounted.finishNotification (h : Accounted c s) :
    Accounted c (finishNotification s) := by
  unfold WireRpc.HttpServer.finishNotification
  cases hactive : s.active with
  | none => exact h.endTurn rfl rfl rfl rfl rfl rfl
  | some r =>
    exact h.endTurn rfl (setFuture_queue ..) (setFuture_queuedBytes ..) (setFuture_pending ..)
      (setFuture_principals ..) (setFuture_phases ..)

theorem Accounted.close (h : Accounted c s) : Accounted c (close s) := by
  have hnonneg : 0 ≤ s.queuedBytes := by
    rw [h.bytes]
    exact Int.natCast_nonneg _
  exact h.quiet rfl hnonneg rfl rfl (fun _ => rfl) (fun _ => rfl) (fun k hk => nomatch hk)

end

theorem accounted_step {c : Config} {s s' : State} {e : Event} (hinv : Inv s)
    (h : Accounted c s) (hstep : step c s e = some s') : Accounted c s' := by
  cases step_move hstep with
  | handled r originAllowed hphase => exact h.handle originAllowed hphase
  | failed r failure hphase => exact h.finish none _
  | read r user data hphase => exact h.body user data hphase
  | interrupted r data earlier timedOut hphase => exact h.interrupt timedOut hphase
  | resumed r data earlier response hphase hout => exact h.finish (some data) response
  | recvRejected | sendRejected data => exact h
  | received => exact (h.waits true).poll (hinv.waits true)
  | polled => exact h.poll hinv
  | recvCancelled => exact h.waits false
  | sent data _ hsend => exact h.send hsend
  | finished => exact h.finishNotification
  | closed => exact h.close

/-- The invariant of a run and its accounts. -/
theorem accounted_run {c : Config} {es : List Event} {s : State}
    (hrun : Machine.run (step c) start es = some s) : Inv s ∧ Accounted c s := by
  refine Machine.invariant (P := fun s => Inv s ∧ Accounted c s) ?_
    ⟨inv_start, accounted_start c⟩ hrun
  intro s e s' h hstep
  exact ⟨inv_step h.1 hstep, accounted_step h.1 h.2 hstep⟩

/-- A waiting request is admitted and has a principal. -/
theorem Accounted.admitted {c : Config} {s : State} (h : Accounted c s) {r : ℕ}
    (hwaiting : (s.phases r).isWaiting = true) :
    r ∈ s.pending ∧ (s.principals r).isSome = true := by
  constructor
  · rw [h.pending]
    cases hphase : s.phases r with
    | waiting data interrupted => rfl
    | _ => simp [hphase, Phase.isWaiting] at hwaiting
  · rw [h.principals]
    exact hwaiting

/-- The byte counter is the size of the queue and stays in its bounds, the pending set holds
the requests in progress and stays within its limit, a future that `recv` may return has a
principal, and nothing is left when every request has ended. -/
theorem admission_accounted (c : Config) (es : List Event) (s : State)
    (hrun : Machine.run (step c) start es = some s) :
    s.queuedBytes = totalBytes s.queue ∧ 0 ≤ s.queuedBytes ∧ s.queuedBytes ≤ c.maxQueueBytes ∧
    s.pending.card ≤ c.maxPendingRequests ∧
    (∀ r, r ∈ s.pending ↔ (s.phases r).inProgress = true) ∧
    (∀ r, (s.futures r).done = false →
      (∃ data, (data, r) ∈ s.queue) ∨ s.active = some r →
      r ∈ s.pending ∧ (s.principals r).isSome = true) ∧
    (∀ data r rest n, pop s.futures s.queue s.queuedBytes = (some (data, r), rest, n) →
      (s.principals r).isSome = true) ∧
    ((∀ r, (s.phases r).inProgress = false) → s.pending = ∅ ∧ ∀ r, s.principals r = none) := by
  obtain ⟨hinv, h⟩ := accounted_run hrun
  refine ⟨h.bytes, ?_, h.bytes_le, h.admitted_le, h.pending, ?_, ?_, ?_⟩
  · rw [h.bytes]
    exact Int.natCast_nonneg _
  · rintro r hpending (⟨data, hqueued⟩ | hactive)
    · obtain ⟨interrupted, hwaiting⟩ := hinv.queue_waiting (data, r) hqueued
      exact h.admitted (congrArg Phase.isWaiting hwaiting)
    · obtain hdone | hwaiting := h.active r hactive
      · rw [hpending] at hdone
        cases hdone
      · exact h.admitted hwaiting
  · intro data r rest n hpop
    exact (h.admitted (hinv.popped_waiting hpop)).2
  · intro hended
    constructor
    · rw [Finset.eq_empty_iff_forall_notMem]
      intro r hr
      rw [h.pending, hended r] at hr
      cases hr
    · intro r
      rw [← Option.isNone_iff_eq_none, ← Option.not_isSome, h.principals]
      cases hphase : s.phases r with
      | waiting data interrupted => simpa [hphase, Phase.inProgress] using hended r
      | _ => rfl

/-- Request 0 times out while its body is queued, and request 1 ends before `recv` sees it
again. -/
def givenUp : List Event :=
  [.handle 0 true, .body 0 none [1, 2], .handle 1 true, .interrupt 0 true, .body 1 none [3],
    .resume 0, .recv, .interrupt 1 false, .resume 1]

theorem admission_accounted_givenUp : ∃ s,
    Machine.run (step ⟨2, 1024, 4⟩) start givenUp = some s ∧ s.queuedBytes = 0 ∧
      s.active = some 1 ∧ 0 ≤ s.queuedBytes ∧ s.pending.card ≤ 2 := by
  obtain ⟨-, hnonneg, -, hcard, -⟩ := admission_accounted ⟨2, 1024, 4⟩ givenUp _ rfl
  exact ⟨_, rfl, rfl, rfl, hnonneg, hcard⟩

end WireRpc.HttpServer
