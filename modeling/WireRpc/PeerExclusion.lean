import WireRpc.MulticastApp

/-!
# Peers exclude each other, and slots are counted

A task that executes is alone among the unfinished tasks of its peer that may,
the lock table counts the unfinished tasks of every peer, and every slot is
free, with an unfinished task, or with the loop.
-/
namespace WireRpc.MulticastApp
open Library Execution

section
variable {s : State} {t : ℕ} {peer : String}

theorem mem_unfinished : t ∈ unfinished s ↔ t < s.created ∧ (s.phases t).isFinished = false := by
  simp [unfinished]

theorem mem_unfinishedOf :
    t ∈ unfinishedOf s peer ↔ t ∈ unfinished s ∧ (s.tasks t).peer = peer := by
  simp [unfinishedOf]

/-- A task that goes on does not change what is unfinished. -/
theorem unfinished_congr {s' : State} (hcreated : s'.created = s.created)
    (hphases : ∀ k, (s'.phases k).isFinished = (s.phases k).isFinished) :
    unfinished s' = unfinished s := by
  ext k
  rw [mem_unfinished, mem_unfinished, hcreated, hphases]

/-- A task that ends is unfinished no more. -/
theorem unfinished_erase {s' : State} {raised : Bool} (hcreated : s'.created = s.created)
    (hphases : s'.phases = Function.update s.phases t (.finished raised)) :
    unfinished s' = (unfinished s).erase t := by
  ext k
  rw [Finset.mem_erase, mem_unfinished, mem_unfinished, hcreated, hphases]
  by_cases hk : k = t
  · subst k
    rw [Function.update_self]
    simp [Phase.isFinished]
  · rw [Function.update_of_ne hk]
    simp [hk]

/-- A new task is unfinished. -/
theorem unfinished_insert {s' : State} (hcreated : s'.created = s.created + 1)
    (hphases : s'.phases = Function.update s.phases s.created .created) :
    unfinished s' = insert s.created (unfinished s) := by
  ext k
  rw [Finset.mem_insert, mem_unfinished, mem_unfinished, hcreated, hphases]
  by_cases hk : k = s.created
  · subst k
    rw [Function.update_self]
    simp [Phase.isFinished]
  · rw [Function.update_of_ne hk]
    constructor
    · rintro ⟨hlt, hphase⟩
      exact .inr ⟨by omega, hphase⟩
    · rintro (heq | ⟨hlt, hphase⟩)
      · exact absurd heq hk
      · exact ⟨by omega, hphase⟩

end

/-- What the lock table holds for a peer with `n` unfinished tasks. -/
def Counts (entry : Option (ℕ × ℕ)) (n : ℕ) : Prop :=
  (n = 0 ∧ entry = none) ∨ ∃ lock, 0 < n ∧ entry = some (lock, n)

/-- A task that may execute, now or when it has the lock of its peer. -/
def Phase.mayExecute : Phase → Bool
  | waiting | executing => true
  | _ => false

structure Inv (maxConcurrency : ℕ) (s : State) : Prop where
  fresh : ∀ t, s.created ≤ t → s.phases t = .created ∧ s.released t = 0
  not_busy : ∀ t, (s.phases t).mayExecute = true → (s.tasks t).busy = false
  alone : ∀ t ∈ unfinished s, ∀ t' ∈ unfinished s, (s.tasks t).busy = false →
    (s.tasks t').busy = false → (s.tasks t).peer = (s.tasks t').peer → t = t'
  counted : ∀ peer, Counts (s.peerLocks peer) (unfinishedOf s peer).card
  slots : (unfinished s).card + s.free + s.holding.toNat = maxConcurrency
  acquiring : s.loop = .acquiring → s.holding = false
  receiving : s.loop = .receiving → s.holding = true
  released : ∀ t < s.created, s.released t = if (s.phases t).isFinished then 1 else 0
  holders : ∀ l t, s.holder l = some t → s.phases t = .executing ∧ (s.tasks t).lock = l
  lock_made : ∀ t < s.created, (s.tasks t).busy = false → (s.tasks t).lock < s.locks
  lock_own : ∀ t < s.created, ∀ t' < s.created, (s.tasks t).busy = false →
    (s.tasks t').busy = false → (s.tasks t).lock = (s.tasks t').lock → t = t'
  never_waits : ∀ t, s.phases t ≠ .waiting

theorem unfinished_start (n : ℕ) : unfinished (start n) = ∅ :=
  Finset.eq_empty_of_forall_notMem fun t ht => Nat.not_lt_zero t (mem_unfinished.mp ht).1

theorem inv_start (n : ℕ) : Inv n (start n) where
  fresh := fun _ _ => ⟨rfl, rfl⟩
  not_busy := fun _ h => nomatch h
  alone := by simp [unfinished_start]
  counted := fun _ => .inl ⟨by simp [unfinishedOf, unfinished_start], rfl⟩
  slots := by
    rw [unfinished_start]
    simp [start]
  acquiring := fun _ => rfl
  receiving := fun h => nomatch h
  released := fun t ht => absurd ht (Nat.not_lt_zero t)
  holders := fun _ _ h => nomatch h
  lock_made := fun t ht => absurd ht (Nat.not_lt_zero t)
  lock_own := fun t ht => absurd ht (Nat.not_lt_zero t)
  never_waits := fun _ h => nomatch h

section
variable {n : ℕ} {s s' : State} {t : ℕ}

theorem Inv.lt_created (h : Inv n s) (hphase : s.phases t ≠ .created) : t < s.created := by
  by_contra hge
  exact hphase (h.fresh t (Nat.le_of_not_lt hge)).1

/-- The fields that only tasks change. -/
structure SameTasks (s s' : State) : Prop where
  created : s'.created = s.created := by rfl
  tasks : s'.tasks = s.tasks := by rfl
  phases : s'.phases = s.phases := by rfl
  peerLocks : s'.peerLocks = s.peerLocks := by rfl
  locks : s'.locks = s.locks := by rfl
  holder : s'.holder = s.holder := by rfl
  released : s'.released = s.released := by rfl

/-- The loop moves, and a slot goes between it and the semaphore. -/
theorem Inv.loop_moves (h : Inv n s) (hsame : SameTasks s s')
    (hslots : s'.free + s'.holding.toNat = s.free + s.holding.toNat)
    (hacquiring : s'.loop = .acquiring → s'.holding = false)
    (hreceiving : s'.loop = .receiving → s'.holding = true) : Inv n s' := by
  have hunfinished : unfinished s' = unfinished s :=
    unfinished_congr hsame.created fun k => by rw [hsame.phases]
  have hof : ∀ peer, unfinishedOf s' peer = unfinishedOf s peer := by
    intro peer
    rw [unfinishedOf, unfinishedOf, hunfinished, hsame.tasks]
  exact {
    fresh := by
      rw [hsame.created, hsame.phases, hsame.released]
      exact h.fresh
    not_busy := by
      rw [hsame.phases, hsame.tasks]
      exact h.not_busy
    alone := by
      rw [hunfinished, hsame.tasks]
      exact h.alone
    counted := by
      intro peer
      rw [hof, hsame.peerLocks]
      exact h.counted peer
    slots := by
      rw [hunfinished]
      have := h.slots
      omega
    acquiring := hacquiring
    receiving := hreceiving
    released := by
      rw [hsame.created, hsame.phases, hsame.released]
      exact h.released
    holders := by
      rw [hsame.holder, hsame.phases, hsame.tasks]
      exact h.holders
    lock_made := by
      rw [hsame.created, hsame.tasks, hsame.locks]
      exact h.lock_made
    lock_own := by
      rw [hsame.created, hsame.tasks]
      exact h.lock_own
    never_waits := by
      rw [hsame.phases]
      exact h.never_waits }

/-- The locks when task `t` comes to a phase: it holds its own if it executes, and
nobody else takes one. -/
def Passes (s : State) (t : ℕ) (phase : Phase) (holder : ℕ → Option ℕ) : Prop :=
  ∀ l k, holder l = some k →
    (k = t ∧ l = (s.tasks t).lock ∧ phase = .executing) ∨ (k ≠ t ∧ s.holder l = some k)

theorem Passes.holders {phase : Phase} {holder : ℕ → Option ℕ} (hp : Passes s t phase holder)
    (h : Inv n s) (l k : ℕ) (hk : holder l = some k) :
    Function.update s.phases t phase k = .executing ∧ (s.tasks k).lock = l := by
  obtain ⟨rfl, rfl, rfl⟩ | ⟨hne, hold⟩ := hp l k hk
  · exact ⟨Function.update_self .., rfl⟩
  · rw [Function.update_of_ne hne]
    exact h.holders l k hold

/-- A task that does not execute holds no lock. -/
theorem Inv.passes (h : Inv n s) (hphase : s.phases t ≠ .executing) (phase : Phase) :
    Passes s t phase s.holder := by
  intro l k hk
  refine .inr ⟨?_, hk⟩
  rintro rfl
  exact hphase (h.holders l k hk).1

theorem Inv.passes_unlock (h : Inv n s) (phase : Phase) :
    Passes s t phase (unlock s t).holder := by
  intro l k hk
  change Function.update s.holder (s.tasks t).lock none l = some k at hk
  by_cases hl : l = (s.tasks t).lock
  · rw [hl, Function.update_self] at hk
    cases hk
  · rw [Function.update_of_ne hl] at hk
    refine .inr ⟨?_, hk⟩
    rintro rfl
    exact hl (h.holders l k hk).2.symm

/-- A task goes on to its next await. -/
theorem Inv.goes_on (h : Inv n s) {phase : Phase} {holder : ℕ → Option ℕ}
    (ht : t ∈ unfinished s) (hphase : phase.isFinished = false) (hwaits : phase ≠ .waiting)
    (hbusy : phase.mayExecute = true → (s.tasks t).busy = false)
    (hpasses : Passes s t phase holder) : Inv n { setPhase s t phase with holder := holder } := by
  obtain ⟨hlt, hold⟩ := mem_unfinished.mp ht
  have hfinished : ∀ k, (Function.update s.phases t phase k).isFinished =
      (s.phases k).isFinished := by
    intro k
    by_cases hk : k = t
    · rw [hk, Function.update_self, hphase, hold]
    · rw [Function.update_of_ne hk]
  have hunfinished : unfinished { setPhase s t phase with holder := holder } = unfinished s :=
    unfinished_congr rfl hfinished
  have hof : ∀ peer, unfinishedOf { setPhase s t phase with holder := holder } peer =
      unfinishedOf s peer := by
    intro peer
    rw [unfinishedOf, unfinishedOf, hunfinished]
    rfl
  exact {
    fresh := by
      intro k hk
      have hkt : k ≠ t := by
        rintro rfl
        exact absurd hlt (Nat.not_lt_of_le hk)
      refine ⟨?_, (h.fresh k hk).2⟩
      show Function.update s.phases t phase k = .created
      rw [Function.update_of_ne hkt]
      exact (h.fresh k hk).1
    not_busy := (Function.forall_update_iff s.phases fun k phase =>
      phase.mayExecute = true → (s.tasks k).busy = false).mpr ⟨hbusy, fun k _ => h.not_busy k⟩
    alone := by
      rw [hunfinished]
      exact h.alone
    counted := by
      intro peer
      rw [hof]
      exact h.counted peer
    slots := by
      rw [hunfinished]
      exact h.slots
    acquiring := h.acquiring
    receiving := h.receiving
    released := by
      intro k hk
      show s.released k = if (Function.update s.phases t phase k).isFinished then 1 else 0
      rw [hfinished]
      exact h.released k hk
    holders := hpasses.holders h
    lock_made := h.lock_made
    lock_own := h.lock_own
    never_waits := (Function.forall_update_iff s.phases fun _ phase => phase ≠ .waiting).mpr
      ⟨hwaits, fun k _ => h.never_waits k⟩ }

/-- The table has an entry for the peer of an unfinished task. -/
theorem Inv.entry (h : Inv n s) (ht : t ∈ unfinished s) : ∃ lock,
    s.peerLocks (s.tasks t).peer = some (lock, (unfinishedOf s (s.tasks t).peer).card) := by
  have hmem : t ∈ unfinishedOf s (s.tasks t).peer := mem_unfinishedOf.mpr ⟨ht, rfl⟩
  obtain ⟨hzero, -⟩ | ⟨lock, -, hentry⟩ := h.counted (s.tasks t).peer
  · rw [Finset.card_eq_zero] at hzero
    simp [hzero] at hmem
  · exact ⟨lock, hentry⟩

theorem finish_none {raised : Bool} (hentry : s.peerLocks (s.tasks t).peer = none) :
    finish s t raised = setPhase s t (.finished true) := by
  simp only [finish, hentry]

theorem finish_some {raised : Bool} {entry : ℕ × ℕ}
    (hentry : s.peerLocks (s.tasks t).peer = some entry) : finish s t raised =
      { setPhase s t (.finished raised) with
        peerLocks := Function.update s.peerLocks (s.tasks t).peer
          (if entry.2 = 1 then none else some ((s.tasks t).lock, entry.2 - 1))
        free := s.free + 1
        released := Function.update s.released t (s.released t + 1) } := by
  simp only [finish, hentry]

/-- A task ends: it leaves the table and gives its slot back. -/
theorem Inv.ends (h : Inv n s) {raised : Bool} {holder : ℕ → Option ℕ} (ht : t ∈ unfinished s)
    (hpasses : Passes s t (.finished raised) holder) :
    Inv n { finish s t raised with holder := holder } := by
  obtain ⟨hlt, hold⟩ := mem_unfinished.mp ht
  obtain ⟨lock, hentry⟩ := h.entry ht
  have hmem : t ∈ unfinishedOf s (s.tasks t).peer := mem_unfinishedOf.mpr ⟨ht, rfl⟩
  rw [finish_some hentry]
  set s' : State := { setPhase s t (.finished raised) with
    peerLocks := Function.update s.peerLocks (s.tasks t).peer
      (if (unfinishedOf s (s.tasks t).peer).card = 1 then none
      else some ((s.tasks t).lock, (unfinishedOf s (s.tasks t).peer).card - 1))
    free := s.free + 1
    released := Function.update s.released t (s.released t + 1)
    holder := holder } with hs'
  have hunfinished : unfinished s' = (unfinished s).erase t := unfinished_erase rfl rfl
  have hof : ∀ peer, unfinishedOf s' peer = (unfinishedOf s peer).erase t := by
    intro peer
    rw [unfinishedOf, unfinishedOf, hunfinished, Finset.filter_erase]
    rfl
  exact {
    fresh := by
      intro k hk
      have hkt : k ≠ t := by
        rintro rfl
        exact absurd hlt (Nat.not_lt_of_le hk)
      obtain ⟨hphase, hreleased⟩ := h.fresh k hk
      constructor
      · show Function.update s.phases t (.finished raised) k = .created
        rw [Function.update_of_ne hkt, hphase]
      · show Function.update s.released t (s.released t + 1) k = 0
        rw [Function.update_of_ne hkt, hreleased]
    not_busy := (Function.forall_update_iff s.phases fun k phase =>
      phase.mayExecute = true → (s.tasks k).busy = false).mpr ⟨nofun, fun k _ => h.not_busy k⟩
    alone := by
      rw [hunfinished]
      intro k hk k' hk'
      exact h.alone k (Finset.mem_of_mem_erase hk) k' (Finset.mem_of_mem_erase hk')
    counted := by
      intro peer
      rw [hof]
      show Counts (Function.update s.peerLocks (s.tasks t).peer _ peer) _
      by_cases hp : peer = (s.tasks t).peer
      · subst peer
        have hcard := Finset.card_erase_of_mem hmem
        have hpos := Finset.card_pos.mpr ⟨t, hmem⟩
        rw [Function.update_self, hcard]
        split_ifs with hone
        · exact .inl ⟨by omega, rfl⟩
        · exact .inr ⟨_, by omega, rfl⟩
      · have hnot : t ∉ unfinishedOf s peer := fun hin => hp (mem_unfinishedOf.mp hin).2.symm
        rw [Function.update_of_ne hp, Finset.erase_eq_of_notMem hnot]
        exact h.counted peer
    slots := by
      rw [hunfinished, Finset.card_erase_of_mem ht]
      have hpos := Finset.card_pos.mpr ⟨t, ht⟩
      have hslots := h.slots
      show _ + (s.free + 1) + s.holding.toNat = n
      omega
    acquiring := h.acquiring
    receiving := h.receiving
    released := by
      intro k hk
      show Function.update s.released t (s.released t + 1) k =
        if (Function.update s.phases t (.finished raised) k).isFinished then 1 else 0
      by_cases hkt : k = t
      · subst k
        rw [Function.update_self, Function.update_self, h.released t hlt, hold]
        rfl
      · rw [Function.update_of_ne hkt, Function.update_of_ne hkt]
        exact h.released k hk
    holders := hpasses.holders h
    lock_made := h.lock_made
    lock_own := h.lock_own
    never_waits := (Function.forall_update_iff s.phases fun _ phase => phase ≠ .waiting).mpr
      ⟨nofun, fun k _ => h.never_waits k⟩ }

/-- Reaping changes nothing but the set of tasks and the place of the loop. -/
theorem reap_eq (s : State) : ∃ owned loop, reap s = { s with owned := owned, loop := loop } ∧
    (loop = .draining ∨ loop = .acquiring) := by
  unfold reap
  dsimp only
  split_ifs with hraised hstop
  · exact ⟨s.owned, .draining, rfl, .inl rfl⟩
  · exact ⟨_, .draining, rfl, .inl rfl⟩
  · exact ⟨_, .acquiring, rfl, .inr rfl⟩

/-- A message is admitted: one task more, with what is decided about it. -/
theorem admitted_tasks (s : State) (peer : String) (data : Bytes) :
    (reap (startTask s peer data)).created = s.created + 1 ∧
      (reap (startTask s peer data)).tasks =
        Function.update s.tasks s.created ((startTask s peer data).tasks s.created) := by
  obtain ⟨owned, loop, hreap, -⟩ := reap_eq (startTask s peer data)
  rw [hreap]
  constructor
  · rfl
  · show Function.update s.tasks s.created _ = Function.update s.tasks s.created
      (Function.update s.tasks s.created _ s.created)
    rw [Function.update_self]

/-- The busy check: the table has an entry exactly when a task is unfinished. -/
theorem Inv.busy_iff (h : Inv n s) (peer : String) (data : Bytes) :
    ((startTask s peer data).tasks s.created).busy = true ↔ (unfinishedOf s peer).Nonempty := by
  have hbusy : ((startTask s peer data).tasks s.created).busy =
      decide (0 < ((s.peerLocks peer).getD (s.locks, 0)).2) := by
    show (Function.update s.tasks s.created _ s.created).busy = _
    rw [Function.update_self]
  rw [hbusy, decide_eq_true_eq, ← Finset.card_pos]
  obtain ⟨hzero, hentry⟩ | ⟨lock, hpos, hentry⟩ := h.counted peer
  · simp [hentry, hzero]
  · simp [hentry]

/-- What the admission of a message changes. `task` is the new one. -/
structure Admission (s s' : State) (peer : String) (task : Task) : Prop where
  created : s'.created = s.created + 1
  tasks : s'.tasks = Function.update s.tasks s.created task
  phases : s'.phases = Function.update s.phases s.created .created
  peerLocks : ∃ lock, s'.peerLocks =
    Function.update s.peerLocks peer (some (lock, (unfinishedOf s peer).card + 1))
  locks : s'.locks = s.locks + 1
  holder : s'.holder = s.holder
  released : s'.released = s.released
  free : s'.free = s.free
  holding : s'.holding = false
  loop : s'.loop ≠ .receiving
  peer_eq : task.peer = peer
  busy : task.busy = true ↔ (unfinishedOf s peer).Nonempty
  lock : task.busy = false → task.lock = s.locks

theorem Inv.admission (h : Inv n s) (peer : String) (data : Bytes) :
    ∃ task, Admission s (reap (startTask s peer data)) peer task := by
  obtain ⟨owned, loop, hreap, hplace⟩ := reap_eq (startTask s peer data)
  have hbusy := h.busy_iff peer data
  set task := (startTask s peer data).tasks s.created with htask
  have hentry : ((s.peerLocks peer).getD (s.locks, 0)).2 = (unfinishedOf s peer).card := by
    obtain ⟨hzero, hentry⟩ | ⟨lock, -, hentry⟩ := h.counted peer
    · rw [hentry, hzero]
      rfl
    · rw [hentry]
      rfl
  rw [hreap]
  refine ⟨task, {
    created := rfl
    phases := rfl
    locks := rfl
    holder := rfl
    released := rfl
    free := rfl
    holding := rfl
    busy := hbusy
    tasks := ?_
    peerLocks := ?_
    loop := ?_
    peer_eq := ?_
    lock := ?_ }⟩
  · rw [← hreap]
    exact (admitted_tasks s peer data).2
  · rw [← hentry]
    exact ⟨_, rfl⟩
  · obtain rfl | rfl := hplace <;> nofun
  · rw [htask]
    show (Function.update s.tasks s.created _ s.created).peer = peer
    rw [Function.update_self]
  · intro hfree
    have hnone : s.peerLocks peer = none := by
      obtain ⟨-, hnone⟩ | ⟨lock, hpos, -⟩ := h.counted peer
      · exact hnone
      · rw [hbusy.mpr (Finset.card_pos.mp hpos)] at hfree
        cases hfree
    rw [htask]
    show (Function.update s.tasks s.created _ s.created).lock = s.locks
    rw [Function.update_self, hnone]
    rfl

namespace Admission

variable {peer : String} {task : Task}

theorem new (ha : Admission s s' peer task) : s'.tasks s.created = task := by
  rw [ha.tasks, Function.update_self]

theorem old (ha : Admission s s' peer task) (hne : t ≠ s.created) : s'.tasks t = s.tasks t := by
  rw [ha.tasks, Function.update_of_ne hne]

theorem unfinished (ha : Admission s s' peer task) :
    unfinished s' = insert s.created (MulticastApp.unfinished s) :=
  unfinished_insert ha.created ha.phases

theorem unfinishedOf (ha : Admission s s' peer task) (p : String) : unfinishedOf s' p =
    if p = peer then insert s.created (MulticastApp.unfinishedOf s p)
    else MulticastApp.unfinishedOf s p := by
  have hkept : (MulticastApp.unfinished s).filter (fun k => (s'.tasks k).peer = p) =
      MulticastApp.unfinishedOf s p :=
    Finset.filter_congr fun k hk => by rw [ha.old (mem_unfinished.mp hk).1.ne]
  rw [MulticastApp.unfinishedOf, ha.unfinished, Finset.filter_insert, hkept, ha.new, ha.peer_eq]
  by_cases heq : p = peer
  · rw [if_pos heq.symm, if_pos heq]
  · rw [if_neg (Ne.symm heq), if_neg heq]

/-- A new task that is not busy finds none of its peer unfinished. -/
theorem first (ha : Admission s s' peer task) (ht : t ∈ MulticastApp.unfinished s)
    (hfree : task.busy = false) : (s.tasks t).peer ≠ task.peer := by
  intro hpeer
  have hmem : t ∈ MulticastApp.unfinishedOf s peer :=
    mem_unfinishedOf.mpr ⟨ht, hpeer.trans ha.peer_eq⟩
  rw [ha.busy.mpr ⟨t, hmem⟩] at hfree
  cases hfree

theorem alone (ha : Admission s s' peer task) (h : Inv n s) {k k' : ℕ}
    (hk : k ∈ MulticastApp.unfinished s') (hk' : k' ∈ MulticastApp.unfinished s')
    (hfree : (s'.tasks k).busy = false) (hfree' : (s'.tasks k').busy = false)
    (hpeers : (s'.tasks k).peer = (s'.tasks k').peer) : k = k' := by
  rw [ha.unfinished] at hk hk'
  have hold {j : ℕ} (hj : j ∈ MulticastApp.unfinished s) : s'.tasks j = s.tasks j :=
    ha.old (mem_unfinished.mp hj).1.ne
  obtain rfl | hk := Finset.mem_insert.mp hk <;> obtain rfl | hk' := Finset.mem_insert.mp hk'
  · rfl
  · rw [ha.new] at hfree hpeers
    rw [hold hk'] at hpeers
    exact absurd hpeers.symm (ha.first hk' hfree)
  · rw [ha.new] at hfree' hpeers
    rw [hold hk] at hpeers
    exact absurd hpeers (ha.first hk hfree')
  · rw [hold hk] at hfree hpeers
    rw [hold hk'] at hfree' hpeers
    exact h.alone k hk k' hk' hfree hfree' hpeers

theorem counted (ha : Admission s s' peer task) (h : Inv n s) (p : String) :
    Counts (s'.peerLocks p) (MulticastApp.unfinishedOf s' p).card := by
  obtain ⟨lock, hlocks⟩ := ha.peerLocks
  rw [ha.unfinishedOf, hlocks]
  by_cases hp : p = peer
  · subst p
    have hnew : s.created ∉ MulticastApp.unfinishedOf s peer := fun hin =>
      (mem_unfinished.mp (mem_unfinishedOf.mp hin).1).1.false
    rw [Function.update_self, if_pos rfl, Finset.card_insert_of_notMem hnew]
    exact .inr ⟨lock, Nat.succ_pos _, rfl⟩
  · rw [Function.update_of_ne hp, if_neg hp]
    exact h.counted p

/-- The lock of a new task that is not busy is a new lock. -/
theorem lock_made (ha : Admission s s' peer task) (h : Inv n s) (ht : t < s'.created)
    (hfree : (s'.tasks t).busy = false) : (s'.tasks t).lock < s'.locks := by
  rw [ha.created] at ht
  rw [ha.locks]
  by_cases hnew : t = s.created
  · subst t
    rw [ha.new] at hfree ⊢
    rw [ha.lock hfree]
    exact Nat.lt_succ_self _
  · rw [ha.old hnew] at hfree ⊢
    exact (h.lock_made t (by omega) hfree).trans (Nat.lt_succ_self _)

theorem lock_own (ha : Admission s s' peer task) (h : Inv n s) {k k' : ℕ}
    (hk : k < s'.created) (hk' : k' < s'.created) (hfree : (s'.tasks k).busy = false)
    (hfree' : (s'.tasks k').busy = false) (hlocks : (s'.tasks k).lock = (s'.tasks k').lock) :
    k = k' := by
  rw [ha.created] at hk hk'
  have hfirst {j : ℕ} (hj : j < s.created) (hjfree : (s.tasks j).busy = false)
      (hnew : task.busy = false) : (s.tasks j).lock ≠ task.lock := by
    rw [ha.lock hnew]
    exact (h.lock_made j hj hjfree).ne
  by_cases hnew : k = s.created <;> by_cases hnew' : k' = s.created
  · exact hnew.trans hnew'.symm
  · rw [hnew, ha.new] at hfree hlocks
    rw [ha.old hnew'] at hfree' hlocks
    exact absurd hlocks.symm (hfirst (by omega) hfree' hfree)
  · rw [hnew', ha.new] at hfree' hlocks
    rw [ha.old hnew] at hfree hlocks
    exact absurd hlocks (hfirst (by omega) hfree hfree')
  · rw [ha.old hnew] at hfree hlocks
    rw [ha.old hnew'] at hfree' hlocks
    exact h.lock_own k (by omega) k' (by omega) hfree hfree' hlocks

theorem inv (ha : Admission s s' peer task) (h : Inv n s) (hholding : s.holding = true) :
    Inv n s' where
  fresh := by
    intro k hk
    rw [ha.created] at hk
    obtain ⟨hphase, hreleased⟩ := h.fresh k (by omega)
    rw [ha.phases, ha.released, Function.update_of_ne (by omega)]
    exact ⟨hphase, hreleased⟩
  not_busy := by
    intro k hk
    rw [ha.phases] at hk
    by_cases hnew : k = s.created
    · subst k
      rw [Function.update_self] at hk
      cases hk
    · rw [Function.update_of_ne hnew] at hk
      rw [ha.old hnew]
      exact h.not_busy k hk
  alone _ hk _ hk' hfree hfree' hpeers := ha.alone h hk hk' hfree hfree' hpeers
  counted := ha.counted h
  slots := by
    have hslots := h.slots
    have hnew : s.created ∉ MulticastApp.unfinished s := fun hin =>
      (mem_unfinished.mp hin).1.false
    rw [hholding, Bool.toNat_true] at hslots
    rw [ha.unfinished, ha.free, ha.holding, Finset.card_insert_of_notMem hnew, Bool.toNat_false]
    omega
  acquiring _ := ha.holding
  receiving hloop := absurd hloop ha.loop
  released := by
    intro k hk
    rw [ha.created] at hk
    rw [ha.released, ha.phases]
    by_cases hnew : k = s.created
    · subst k
      rw [Function.update_self, (h.fresh s.created le_rfl).2]
      rfl
    · rw [Function.update_of_ne hnew]
      exact h.released k (by omega)
  holders := by
    intro l k hk
    rw [ha.holder] at hk
    obtain ⟨hphase, hlock⟩ := h.holders l k hk
    have hold : k ≠ s.created := (h.lt_created (by simp [hphase])).ne
    rw [ha.phases, Function.update_of_ne hold, ha.old hold]
    exact ⟨hphase, hlock⟩
  lock_made _ hk hfree := ha.lock_made h hk hfree
  lock_own _ hk _ hk' hfree hfree' hlocks := ha.lock_own h hk hk' hfree hfree' hlocks
  never_waits := by
    rw [ha.phases]
    exact (Function.forall_update_iff s.phases fun _ phase => phase ≠ .waiting).mpr
      ⟨nofun, fun k _ => h.never_waits k⟩

end Admission

/-- A message is admitted, and its task has the slot of the loop. -/
theorem Inv.admits (h : Inv n s) (hloop : s.loop = .receiving) (peer : String) (data : Bytes) :
    Inv n (reap (startTask s peer data)) := by
  obtain ⟨task, ha⟩ := h.admission peer data
  exact ha.inv h (h.receiving hloop)

end

section
variable {W : Type} {app : ExecutionHost W} {n : ℕ} {s s' : State} {t : ℕ} {e : Event W}

/-- Every way one step can change the state. -/
inductive Moves (s : State) : Event W → State → Prop
  | loop {e : Event W} {s' : State} (he : ∀ peer data, e ≠ .receive peer data)
      (hsame : SameTasks s s')
      (hslots : s'.free + s'.holding.toNat = s.free + s.holding.toNat)
      (hacquiring : s'.loop = .acquiring → s'.holding = false)
      (hreceiving : s'.loop = .receiving → s'.holding = true) : Moves s e s'
  | goes {e : Event W} (t : ℕ) (phase : Phase) (holder : ℕ → Option ℕ)
      (he : ∀ peer data, e ≠ .receive peer data) (ht : t ∈ unfinished s)
      (hphase : phase.isFinished = false) (hwaits : phase ≠ .waiting)
      (hbusy : phase.mayExecute = true → (s.tasks t).busy = false)
      (hpasses : Passes s t phase holder) :
      Moves s e { setPhase s t phase with holder := holder }
  | ends {e : Event W} (t : ℕ) (raised : Bool) (holder : ℕ → Option ℕ)
      (he : ∀ peer data, e ≠ .receive peer data) (ht : t ∈ unfinished s)
      (hpasses : Passes s t (.finished raised) holder) :
      Moves s e { finish s t raised with holder := holder }
  | admits (peer : String) (data : Bytes) (hloop : s.loop = .receiving) :
      Moves s (.receive peer data) (reap (startTask s peer data))

theorem finish_unlock (s : State) (t : ℕ) (raised : Bool) : finish (unlock s t) t raised =
    { finish s t raised with holder := (unlock s t).holder } := by
  cases hentry : s.peerLocks (s.tasks t).peer with
  | none =>
    rw [finish_none hentry, finish_none (show (unlock s t).peerLocks _ = none from hentry)]
    rfl
  | some entry =>
    rw [finish_some hentry, finish_some (show (unlock s t).peerLocks _ = some entry from hentry)]
    rfl

/-- The fields that the end of a task leaves alone. -/
structure SameLoop (s s' : State) : Prop where
  loop : s'.loop = s.loop := by rfl
  stopping : s'.stopping = s.stopping := by rfl
  closed : s'.closed = s.closed := by rfl
  holder : s'.holder = s.holder := by rfl
  created : s'.created = s.created := by rfl
  tasks : s'.tasks = s.tasks := by rfl

theorem finish_sameLoop (s : State) (t : ℕ) (raised : Bool) :
    SameLoop s (finish s t raised) := by
  cases hentry : s.peerLocks (s.tasks t).peer with
  | none =>
    rw [finish_none hentry]
    exact {}
  | some entry =>
    rw [finish_some hentry]
    exact {}

/-- What is known of a task in a phase that is neither its first nor its last. -/
theorem Inv.unfinished_of (h : Inv n s) (hcreated : s.phases t ≠ .created)
    (hfinished : (s.phases t).isFinished = false) : t ∈ unfinished s :=
  mem_unfinished.mpr ⟨h.lt_created hcreated, hfinished⟩

theorem Inv.ends_here (h : Inv n s) (he : ∀ peer data, e ≠ .receive peer data)
    (ht : t ∈ unfinished s) (hphase : s.phases t ≠ .executing) (raised : Bool) :
    Moves s e (finish s t raised) := by
  have hmoves := Moves.ends (e := e) t raised s.holder he ht (h.passes hphase _)
  rwa [← (finish_sameLoop s t raised).holder] at hmoves

theorem Inv.ends_unlock (h : Inv n s) (he : ∀ peer data, e ≠ .receive peer data)
    (ht : t ∈ unfinished s) (raised : Bool) : Moves s e (finish (unlock s t) t raised) := by
  rw [finish_unlock]
  exact .ends t raised _ he ht (h.passes_unlock _)

theorem Inv.settles (h : Inv n s) (he : ∀ peer data, e ≠ .receive peer data)
    (ht : t ∈ unfinished s) (hphase : s.phases t ≠ .executing)
    (outcome : Outcome (Option Bytes)) : Moves s e (settle s t outcome) := by
  cases outcome with
  | value response =>
    cases response with
    | none => exact h.ends_here he ht hphase false
    | some b => exact .goes t (.sending b) s.holder he ht rfl nofun nofun (h.passes hphase _)
  | raised e => exact h.ends_here he ht hphase true
  | cancelled => exact h.ends_here he ht hphase true

theorem Inv.settles_unlock (h : Inv n s) (he : ∀ peer data, e ≠ .receive peer data)
    (ht : t ∈ unfinished s) (outcome : Outcome (Option Bytes)) :
    Moves s e (settle (unlock s t) t outcome) := by
  cases outcome with
  | value response =>
    cases response with
    | none => exact h.ends_unlock he ht false
    | some b => exact .goes t (.sending b) _ he ht rfl nofun nofun (h.passes_unlock _)
  | raised e => exact h.ends_unlock he ht true
  | cancelled => exact h.ends_unlock he ht true

/-- The lock of a task that is about to begin is free: it is the task's own. -/
theorem Inv.lock_free (h : Inv n s) (hlt : t < s.created) (hphase : s.phases t = .created)
    (hbusy : (s.tasks t).busy = false) : s.holder (s.tasks t).lock = none := by
  by_contra hheld
  obtain ⟨k, hk⟩ := Option.ne_none_iff_exists'.mp hheld
  obtain ⟨hexecutes, hlock⟩ := h.holders _ k hk
  have hfree : (s.tasks k).busy = false := h.not_busy k (by rw [hexecutes]; rfl)
  obtain rfl := h.lock_own k (h.lt_created (by simp [hexecutes])) t hlt hfree hbusy hlock
  rw [hphase] at hexecutes
  cases hexecutes

/-- A task begins: a busy one rejects, any other executes at once. -/
theorem Inv.begins (h : Inv n s) (hlt : t < s.created) (hphase : s.phases t = .created) :
    MulticastApp.begin s t = if (s.tasks t).busy then setPhase s t .rejecting
      else { setPhase s t .executing with
        holder := Function.update s.holder (s.tasks t).lock (some t) } := by
  unfold MulticastApp.begin
  split_ifs with hbusy
  · rfl
  · rw [h.lock_free hlt hphase (Bool.eq_false_iff.mpr hbusy)]

theorem step_moves (hinv : Inv n s) (h : step app s e = some s') : Moves s e s' := by
  cases step_way h with
  | acquired noticed hloop hfree hnoticed =>
    refine .loop nofun {} ?_ (fun hacquiring => ?_) (fun _ => rfl)
    · show s.free - 1 + 1 = s.free + s.holding.toNat
      rw [hinv.acquiring hloop, Bool.toNat_false]
      omega
    · cases noticed <;> cases hacquiring
  | received peer data hloop => exact .admits peer data hloop
  | noticedAcquiring hstop hloop => exact .loop nofun {} rfl nofun nofun
  | noticedReceiving hstop hloop | transportClosed hloop =>
    refine .loop nofun {} ?_ nofun nofun
    rw [hinv.receiving hloop]
    rfl
  | transportFailed hloop => exact .loop nofun {} rfl nofun nofun
  | stopped => exact .loop nofun {} rfl hinv.acquiring hinv.receiving
  | begun t hlt hphase =>
    have ht : t ∈ unfinished s := mem_unfinished.mpr ⟨hlt, by rw [hphase]; rfl⟩
    have hidle : s.phases t ≠ .executing := by simp [hphase]
    rw [hinv.begins hlt hphase]
    split_ifs with hbusy
    · exact .goes t .rejecting s.holder nofun ht rfl nofun nofun (hinv.passes hidle _)
    · refine .goes t .executing _ nofun ht rfl nofun (fun _ => Bool.eq_false_iff.mpr hbusy) ?_
      intro l k hk
      by_cases hl : l = (s.tasks t).lock
      · rw [hl, Function.update_self] at hk
        exact .inl ⟨(Option.some.inj hk).symm, hl, rfl⟩
      · rw [Function.update_of_ne hl] at hk
        exact hinv.passes hidle .executing l k hk
  | granted t hphase => exact absurd hphase (hinv.never_waits t)
  | executed t dispatch host hphase =>
    have ht := hinv.unfinished_of (t := t) (by simp [hphase]) (by rw [hphase]; rfl)
    exact hinv.settles_unlock (by nofun) ht _
  | rejected t dispatch host hphase =>
    have ht := hinv.unfinished_of (t := t) (by simp [hphase]) (by rw [hphase]; rfl)
    exact hinv.settles (by nofun) ht (by simp [hphase]) _
  | sent t response hphase =>
    have ht := hinv.unfinished_of (t := t) (by simp [hphase]) (by rw [hphase]; rfl)
    exact hinv.ends_here (by nofun) ht (by simp [hphase]) false
  | cancelledExecuting t hloop hphase =>
    have ht := hinv.unfinished_of (t := t) (by simp [hphase]) (by rw [hphase]; rfl)
    exact hinv.ends_unlock (by nofun) ht true
  | cancelled t hloop hcreated hfinished hexecuting =>
    exact hinv.ends_here (by nofun) (hinv.unfinished_of hcreated hfinished) hexecuting true
  | drained hloop hnone => exact .loop nofun {} rfl nofun nofun

theorem Moves.inv (hm : Moves s e s') (h : Inv n s) : Inv n s' := by
  cases hm with
  | loop _ hsame hslots hacquiring hreceiving =>
    exact h.loop_moves hsame hslots hacquiring hreceiving
  | goes t phase holder _ ht hphase hwaits hbusy hpasses =>
    exact h.goes_on ht hphase hwaits hbusy hpasses
  | ends t raised holder _ ht hpasses => exact h.ends ht hpasses
  | admits peer data hloop => exact h.admits hloop peer data

theorem inv_run {es : List (Event W)} (hrun : Machine.run (step app) (start n) es = some s) :
    Inv n s :=
  Machine.invariant (fun _ _ _ h hstep => (step_moves h hstep).inv h) (inv_start n) hrun

end

/-- One task of a peer executes at most, the lock table counts the unfinished tasks of
each peer, and each of them has one slot until it is over. When no task is unfinished
the table is empty, and every slot is free but one that the loop itself has taken. -/
structure Accounted (maxConcurrency : ℕ) (s : State) : Prop where
  admitted : ∀ t, s.phases t = .executing → t ∈ unfinished s ∧ (s.tasks t).busy = false
  exclusive : ∀ t ∈ unfinished s, ∀ t' ∈ unfinished s, (s.tasks t).busy = false →
    (s.tasks t').busy = false → (s.tasks t).peer = (s.tasks t').peer → t = t'
  counted : ∀ peer, Counts (s.peerLocks peer) (unfinishedOf s peer).card
  bounded : (unfinished s).card ≤ maxConcurrency
  slots : (unfinished s).card + s.free + s.holding.toNat = maxConcurrency
  released_once : ∀ t < s.created, s.released t = if (s.phases t).isFinished then 1 else 0
  at_rest : unfinished s = ∅ → (∀ peer, s.peerLocks peer = none) ∧
    s.free + s.holding.toNat = maxConcurrency
  acquiring_holds_none : s.loop = .acquiring → s.holding = false

theorem Inv.accounted {n : ℕ} {s : State} (h : Inv n s) : Accounted n s where
  admitted := by
    intro t ht
    constructor
    · exact h.unfinished_of (by simp [ht]) (by rw [ht]; rfl)
    · exact h.not_busy t (by rw [ht]; rfl)
  exclusive := h.alone
  counted := h.counted
  bounded := by
    have hslots := h.slots
    omega
  slots := h.slots
  released_once := h.released
  at_rest := by
    intro hnone
    constructor
    · intro peer
      obtain ⟨-, hentry⟩ | ⟨lock, hpos, -⟩ := h.counted peer
      · exact hentry
      · rw [unfinishedOf, hnone, Finset.filter_empty, Finset.card_empty] at hpos
        exact absurd hpos (Nat.lt_irrefl 0)
    · have hslots := h.slots
      rw [hnone, Finset.card_empty] at hslots
      omega
  acquiring_holds_none := h.acquiring

theorem step_processed {W : Type} {app : ExecutionHost W} {s : State} {t : ℕ}
    {dispatch : Dispatch W} {host : Execution.State W} {outcome : Outcome (Option Bytes)}
    (hphase : s.phases t = .executing)
    (hp : (process app dispatch (some (s.tasks t).peer) (s.tasks t).data host).2 = outcome) :
    step app s (.processed t dispatch host) = some (settle (unlock s t) t outcome) := by
  simp only [step, hphase, hp]

/-- One message is served in silence, and the loop waits for the next. -/
def servedOne {W : Type} (data : Bytes) (dispatch : Dispatch W) (host : Execution.State W) :
    List (Event W) :=
  [.acquire false, .receive "a" data, .begin 0, .processed 0 dispatch host, .acquire false]

theorem run_servedOne {W : Type} {app : ExecutionHost W} {data : Bytes} {dispatch : Dispatch W}
    {host : Execution.State W}
    (hp : (process app dispatch (some "a") data host).2 = .value none) :
    ∃ s, Machine.run (step app) (start 1) (servedOne data dispatch host) = some s ∧
      s.created = 1 ∧ unfinished s = ∅ ∧ s.free = 0 := by
  iterate 3 refine Machine.exists_run_cons rfl ?_
  refine Machine.exists_run_cons (step_processed rfl hp) ?_
  exact ⟨_, rfl, rfl, rfl, rfl⟩

/-- The slot that the loop takes for the next message is not free while all tasks are
over. -/
theorem receiving_takes_slot : ∃ s, Machine.run (step (leastHost 1)) (start 1)
    (servedOne noteData failing Execution.initial) = some s ∧ unfinished s = ∅ ∧ s.free ≠ 1 := by
  obtain ⟨s, hrun, -, hnone, hfree⟩ := run_servedOne (process_noteData (some "a"))
  exact ⟨s, hrun, hnone, by simp [hfree]⟩

/-- Peers exclude their own requests and slots are accounted for in every state. -/
theorem peers_accounted {W : Type} (app : ExecutionHost W) (maxConcurrency : ℕ)
    (es : List (Event W)) (s : State)
    (hrun : Machine.run (step app) (start maxConcurrency) es = some s) :
    Accounted maxConcurrency s := (inv_run hrun).accounted

theorem peers_accounted_served : ∃ s, Machine.run (step (leastHost 1)) (start 1)
    (servedOne noteData failing Execution.initial) = some s ∧ s.created = 1 ∧ Accounted 1 s := by
  obtain ⟨s, hrun, hcreated, -, -⟩ := run_servedOne (process_noteData (some "a"))
  exact ⟨s, hrun, hcreated, peers_accounted (leastHost 1) 1 _ s hrun⟩

end WireRpc.MulticastApp
