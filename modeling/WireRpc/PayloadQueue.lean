import WireRpc.Codec
import WireRpc.Library.Machine
import WireRpc.Library.Queues

/-!
# The payload queue

Any number of tasks put and get, peers are dropped and the queue is closed. An event is
a stretch between two awaits: a call, or a waiting one that goes on or is cancelled.
-/
namespace WireRpc.PayloadQueue
open Library

/-- The constructor refuses limits that are not positive. -/
structure Config where
  maxsize : ℕ
  maxBytes : ℕ
  perPeer : ℕ
  maxsize_pos : 0 < maxsize
  maxBytes_pos : 0 < maxBytes
  perPeer_pos : 0 < perPeer

inductive Item where
  | plain (data : Bytes)
  | sent (peer : String) (data : Bytes)
  deriving DecidableEq

/-- Plain bytes count against one anonymous peer. -/
def Item.parts : Item → Option String × Bytes
  | plain data => (none, data)
  | sent peer data => (some peer, data)

def Item.peer (item : Item) : Option String := item.parts.1

def Item.size (item : Item) : ℕ := item.parts.2.length

inductive Outcome where
  | admitted
  | returned (item : Item)
  | valueError
  | connectionError
  | cancelled
  deriving DecidableEq

/-- A call of `put` or `get`: not made, in `wait` (`woken` once the event was set), or over. -/
inductive Task where
  | absent
  | putting (item : Item) (woken : Bool)
  | getting (woken : Bool)
  | over (outcome : Outcome)
  deriving DecidableEq

def Task.wake : Task → Task
  | putting item _ => putting item true
  | getting _ => getting true
  | task => task

def Task.asleep : Task → Bool
  | putting _ woken => !woken
  | getting woken => !woken
  | _ => false

/-- `changed` is the flag of the event. What `get` has returned and the ledger of all
that was ever admitted belong to the history. -/
structure State where
  items : List Item
  bytes : ℤ
  counts : Counter (Option String)
  changed : Bool
  closed : Bool
  tasks : ℕ → Task
  returned : List Item
  ledger : Ledger Item

def start : State where
  items := []
  bytes := 0
  counts := ∅
  changed := false
  closed := false
  tasks := fun _ => .absent
  returned := []
  ledger := []

inductive Event where
  | put (t : ℕ) (item : Item)
  | get (t : ℕ)
  | resume (t : ℕ)
  | cancel (t : ℕ)
  | dropPeer (peer : Option String)
  | close

section
variable (c : Config) (s : State) (t : ℕ)

/-- `_changed.set()` wakes every call that waits, unless the flag is already up. -/
def set : State :=
  if s.changed then s else { s with changed := true, tasks := fun t => (s.tasks t).wake }

/-- `_changed.clear()` and then `_changed.wait()`. -/
def wait (task : Task) : State :=
  { s with changed := false, tasks := Function.update s.tasks t task }

def finish (outcome : Outcome) : State :=
  { s with tasks := Function.update s.tasks t (.over outcome) }

def Room (item : Item) : Prop :=
  s.items.length < c.maxsize ∧ s.bytes + item.size ≤ c.maxBytes ∧
    s.counts.get item.peer < c.perPeer

instance (item : Item) : Decidable (Room c s item) := inferInstanceAs (Decidable (_ ∧ _))

def admitItem (item : Item) : State :=
  { s with
    items := s.items ++ [item]
    bytes := s.bytes + item.size
    counts := s.counts.increment item.peer
    ledger := s.ledger.enter item }

/-- One turn of the loop in `put`. -/
def tryPut (item : Item) : State :=
  if s.closed then finish s t .connectionError
  else if Room c s item then set (finish (admitItem s item) t .admitted)
  else wait s t (.putting item false)

def put (item : Item) : State :=
  if c.maxBytes < item.size then finish s t .valueError else tryPut c s t item

def popLeft (item : Item) (rest : List Item) : State :=
  { s with
    items := rest
    bytes := s.bytes - item.size
    counts := s.counts.decrement item.peer
    returned := s.returned ++ [item]
    ledger := s.ledger.take }

/-- One turn of the loop in `get`. -/
def tryGet : State :=
  if s.closed then finish s t .connectionError
  else
    match s.items with
    | item :: rest => set (finish (popLeft s item rest) t (.returned item))
    | [] => wait s t (.getting false)

/-- One turn of the loop in `drop_peer`: what remains, and the byte total. -/
def sift (peer : Option String) (acc : List Item × ℤ) (item : Item) : List Item × ℤ :=
  if item.peer = peer then (acc.1, acc.2 - item.size) else (acc.1 ++ [item], acc.2)

def discardPeer (peer : Option String) : State :=
  { s with
    items := (s.items.foldl (sift peer) ([], s.bytes)).1
    bytes := (s.items.foldl (sift peer) ([], s.bytes)).2
    counts := AList.erase peer s.counts
    ledger := s.ledger.discard (·.peer = peer) }

def dropPeer (peer : Option String) : State := set (discardPeer s peer)

def discardAll : State :=
  { s with
    closed := true
    items := []
    counts := ∅
    bytes := 0
    ledger := s.ledger.discard fun _ => True }

def close : State := set (discardAll s)

def step : Event → Option State
  | .put t item => if s.tasks t = .absent then some (put c s t item) else none
  | .get t => if s.tasks t = .absent then some (tryGet s t) else none
  | .resume t =>
    match s.tasks t with
    | .putting item true => some (tryPut c s t item)
    | .getting true => some (tryGet s t)
    | _ => none
  | .cancel t =>
    match s.tasks t with
    | .putting _ _ => some (finish s t .cancelled)
    | .getting _ => some (finish s t .cancelled)
    | _ => none
  | .dropPeer peer => some (dropPeer s peer)
  | .close => some (close s)

end

inductive Move (c : Config) (s : State) : State → Prop
  | ends (t : ℕ) (outcome : Outcome) : Move c s (finish s t outcome)
  | admits (t : ℕ) (item : Item) (hopen : s.closed = false) (hroom : Room c s item) :
      Move c s (set (finish (admitItem s item) t .admitted))
  | returns (t : ℕ) (item : Item) (rest : List Item) (hopen : s.closed = false)
      (hitems : s.items = item :: rest) :
      Move c s (set (finish (popLeft s item rest) t (.returned item)))
  | awaitsRoom (t : ℕ) (item : Item) (hopen : s.closed = false) (hroom : ¬ Room c s item) :
      Move c s (wait s t (.putting item false))
  | awaitsItem (t : ℕ) (hopen : s.closed = false) (hitems : s.items = []) :
      Move c s (wait s t (.getting false))
  | drops (peer : Option String) : Move c s (dropPeer s peer)
  | closes : Move c s (close s)

section
variable {c : Config} {s s' : State} {e : Event}

theorem tryPut_move (c : Config) (s : State) (t : ℕ) (item : Item) :
    Move c s (tryPut c s t item) := by
  unfold tryPut
  split_ifs with hclosed hroom
  · exact .ends t _
  · exact .admits t item (by simpa using hclosed) hroom
  · exact .awaitsRoom t item (by simpa using hclosed) hroom

theorem put_move (c : Config) (s : State) (t : ℕ) (item : Item) : Move c s (put c s t item) := by
  unfold put
  split_ifs
  · exact .ends t _
  · exact tryPut_move c s t item

theorem tryGet_move (c : Config) (s : State) (t : ℕ) : Move c s (tryGet s t) := by
  unfold tryGet
  split_ifs with hclosed
  · exact .ends t _
  · have hopen : s.closed = false := by simpa using hclosed
    split
    next item rest hitems => exact .returns t item rest hopen hitems
    next hitems => exact .awaitsItem t hopen hitems

theorem step_move (hs : step c s e = some s') : Move c s s' := by
  cases e with
  | put t item =>
    obtain ⟨-, hs⟩ := Option.ite_none_right_eq_some.mp hs
    exact Option.some.inj hs ▸ put_move c s t item
  | get t =>
    obtain ⟨-, hs⟩ := Option.ite_none_right_eq_some.mp hs
    exact Option.some.inj hs ▸ tryGet_move c s t
  | resume t =>
    simp only [step] at hs
    split at hs
    next item _ => exact Option.some.inj hs ▸ tryPut_move c s t item
    next => exact Option.some.inj hs ▸ tryGet_move c s t
    next => nomatch hs
  | cancel t =>
    simp only [step] at hs
    split at hs
    next => exact Option.some.inj hs ▸ .ends t _
    next => exact Option.some.inj hs ▸ .ends t _
    next => nomatch hs
  | dropPeer peer => exact Option.some.inj hs ▸ .drops peer
  | close => exact Option.some.inj hs ▸ .closes

end

/-- The payload bytes of the items. -/
def total (items : List Item) : ℕ := (items.map Item.size).sum

theorem total_append (xs ys : List Item) : total (xs ++ ys) = total xs + total ys := by
  unfold total
  rw [List.map_append, List.sum_append]

/-- The three representations agree and keep their limits, and the ledger accounts for
every item that was ever admitted. -/
structure Inv (c : Config) (s : State) : Prop where
  bytes_eq : s.bytes = total s.items
  counts_exact : s.counts.Exact (s.items.map Item.peer)
  length_le : s.items.length ≤ c.maxsize
  bytes_le : s.bytes ≤ c.maxBytes
  peer_le : ∀ peer, (s.items.map Item.peer).count peer ≤ c.perPeer
  ordered : s.ledger.InOrder
  queued_eq : s.ledger.queued = s.items
  taken_eq : s.ledger.taken = s.returned

section
variable {c : Config} {s s' : State} {e : Event}

/-- The event and the tasks are no part of what the queue holds. -/
theorem Inv.of_same (h : Inv c s) {changed : Bool} {tasks : ℕ → Task} :
    Inv c { s with changed := changed, tasks := tasks } where
  __ := h

theorem Inv.set (h : Inv c s) : Inv c (set s) := by
  unfold PayloadQueue.set
  split_ifs
  · exact h
  · exact h.of_same

theorem Inv.wait (h : Inv c s) (t : ℕ) (task : Task) : Inv c (wait s t task) := h.of_same

theorem Inv.finish (h : Inv c s) (t : ℕ) (outcome : Outcome) : Inv c (finish s t outcome) :=
  h.of_same

theorem Inv.admitItem {item : Item} (h : Inv c s) (hroom : Room c s item) :
    Inv c (admitItem s item) where
  bytes_eq := by
    show s.bytes + item.size = (total (s.items ++ [item]) : ℤ)
    rw [h.bytes_eq, total_append]
    simp [total]
  counts_exact := by
    show (s.counts.increment item.peer).Exact ((s.items ++ [item]).map Item.peer)
    rw [List.map_append]
    exact h.counts_exact.increment item.peer
  length_le := by
    show (s.items ++ [item]).length ≤ c.maxsize
    rw [List.length_append, List.length_singleton]
    exact hroom.1
  bytes_le := hroom.2.1
  peer_le := by
    intro peer
    show ((s.items ++ [item]).map Item.peer).count peer ≤ c.perPeer
    rw [List.map_append, List.count_append]
    by_cases hpeer : item.peer = peer
    · subst hpeer
      have hlt := hroom.2.2
      rw [h.counts_exact.get, Nat.cast_lt] at hlt
      rw [List.map_singleton, List.count_singleton_self]
      exact Nat.succ_le_of_lt hlt
    · rw [List.count_eq_zero_of_not_mem (l := [item].map Item.peer) (by simpa using Ne.symm hpeer)]
      exact h.peer_le peer
  ordered := h.ordered.enter item
  queued_eq := (Ledger.queued_enter _ _).trans (congrArg (· ++ [item]) h.queued_eq)
  taken_eq := (Ledger.taken_enter _ _).trans h.taken_eq

theorem Inv.popLeft {item : Item} {rest : List Item} (h : Inv c s)
    (hitems : s.items = item :: rest) : Inv c (popLeft s item rest) := by
  have hqueued : s.ledger.queued = item :: rest := h.queued_eq.trans hitems
  have hbytes := h.bytes_eq
  have hcounts := h.counts_exact
  have hlength := h.length_le
  rw [hitems] at hbytes hcounts hlength
  constructor
  · show s.bytes - item.size = (total rest : ℤ)
    rw [hbytes]
    simp [total]
  · exact hcounts.decrement
  · exact Nat.le_of_succ_le hlength
  · show s.bytes - item.size ≤ c.maxBytes
    have := h.bytes_le
    omega
  · intro peer
    have hpeer := h.peer_le peer
    rw [hitems, List.map_cons] at hpeer
    exact (List.count_le_count_cons).trans hpeer
  · exact h.ordered.take
  · exact (h.ordered.taken_take hqueued).1
  · exact (h.ordered.taken_take hqueued).2.trans (congrArg (· ++ [item]) h.taken_eq)

/-- The loop of `drop_peer` keeps the items of the other peers and takes the bytes of
the dropped ones off the total. -/
theorem foldl_sift (peer : Option String) (items kept : List Item) (n : ℤ) :
    items.foldl (sift peer) (kept, n) =
      (kept ++ items.filter (·.peer ≠ peer),
        n - (total items - total (items.filter (·.peer ≠ peer)))) := by
  induction items generalizing kept n with
  | nil => simp [total]
  | cons item items ih =>
    by_cases hpeer : item.peer = peer
    · rw [List.foldl_cons, sift, if_pos hpeer, ih, List.filter_cons_of_neg (by simpa using hpeer)]
      congr 1
      simp only [total, List.map_cons, List.sum_cons]
      push_cast
      omega
    · rw [List.foldl_cons, sift, if_neg hpeer, ih, List.filter_cons_of_pos (by simpa using hpeer)]
      simp only [total, List.map_cons, List.sum_cons, List.append_assoc, List.singleton_append]
      push_cast
      congr 1
      omega

theorem map_peer_filter (peer : Option String) (items : List Item) :
    (items.filter (·.peer ≠ peer)).map Item.peer = (items.map Item.peer).filter (· ≠ peer) := by
  rw [List.filter_map]
  rfl

theorem total_filter_le (p : Item → Bool) (items : List Item) :
    total (items.filter p) ≤ total items :=
  ((List.filter_sublist (p := p)).map Item.size).sum_le_sum fun _ _ => Nat.zero_le _

theorem items_discardPeer (s : State) (peer : Option String) :
    (discardPeer s peer).items = s.items.filter (·.peer ≠ peer) := by
  show (s.items.foldl (sift peer) ([], s.bytes)).1 = _
  rw [foldl_sift, List.nil_append]

theorem Inv.discardPeer (h : Inv c s) (peer : Option String) : Inv c (discardPeer s peer) := by
  have hitems := items_discardPeer s peer
  have hbytes : (PayloadQueue.discardPeer s peer).bytes =
      total (s.items.filter (·.peer ≠ peer)) := by
    show (s.items.foldl (sift peer) ([], s.bytes)).2 = _
    rw [foldl_sift, h.bytes_eq]
    omega
  constructor
  · rw [hbytes, hitems]
  · rw [hitems, map_peer_filter]
    exact h.counts_exact.erase peer
  · rw [hitems]
    exact (List.length_filter_le _ _).trans h.length_le
  · rw [hbytes]
    have := total_filter_le (·.peer ≠ peer) s.items
    have := h.bytes_le
    have := h.bytes_eq
    omega
  · intro p
    rw [hitems, map_peer_filter]
    exact (List.filter_sublist.count_le p).trans (h.peer_le p)
  · exact h.ordered.discard (·.peer = peer)
  · rw [hitems, ← h.queued_eq]
    exact Ledger.queued_discard (·.peer = peer) s.ledger
  · exact (Ledger.taken_discard (·.peer = peer) _).trans h.taken_eq

theorem Inv.discardAll (h : Inv c s) : Inv c (discardAll s) where
  bytes_eq := rfl
  counts_exact := Counter.exact_empty
  length_le := Nat.zero_le _
  bytes_le := Int.natCast_nonneg _
  peer_le _ := Nat.zero_le _
  ordered := h.ordered.discard fun _ => True
  queued_eq := by
    show (s.ledger.discard fun _ => True).queued = []
    simp
  taken_eq := (Ledger.taken_discard (fun _ => True) _).trans h.taken_eq

theorem Inv.move (h : Inv c s) (hm : Move c s s') : Inv c s' := by
  cases hm with
  | ends t outcome => exact h.finish t outcome
  | admits t item _ hroom => exact ((h.admitItem hroom).finish t _).set
  | returns t item rest _ hitems => exact ((h.popLeft hitems).finish t _).set
  | awaitsRoom t item _ _ => exact h.wait t _
  | awaitsItem t _ _ => exact h.wait t _
  | drops peer => exact (h.discardPeer peer).set
  | closes => exact h.discardAll.set

end

theorem inv_start (c : Config) : Inv c start where
  bytes_eq := rfl
  counts_exact := Counter.exact_empty
  length_le := Nat.zero_le _
  bytes_le := Int.natCast_nonneg _
  peer_le _ := Nat.zero_le _
  ordered := List.Pairwise.nil
  queued_eq := rfl
  taken_eq := rfl

theorem inv_run {c : Config} {es : List Event} {s : State}
    (h : Machine.run (step c) start es = some s) : Inv c s :=
  Machine.invariant (fun _ _ _ hs hstep => hs.move (step_move hstep)) (inv_start c) h

@[simp] theorem items_set (s : State) : (set s).items = s.items := by
  unfold set
  split_ifs <;> rfl

@[simp] theorem counts_set (s : State) : (set s).counts = s.counts := by
  unfold set
  split_ifs <;> rfl

theorem items_dropPeer (s : State) (peer : Option String) :
    (dropPeer s peer).items = s.items.filter (·.peer ≠ peer) := by
  rw [dropPeer, items_set, items_discardPeer]

theorem counts_dropPeer (s : State) (peer : Option String) :
    (dropPeer s peer).counts = AList.erase peer s.counts := counts_set _

/-- In every reachable state the byte total and the counts per peer are those of the
queued items, the three limits are kept, and the items returned so far followed by those
still queued are the admitted items, in order of admission, without the discarded ones. -/
theorem fifo_bounded (c : Config) (es : List Event) (s : State)
    (h : Machine.run (step c) start es = some s) :
    s.bytes = total s.items ∧
      (∀ peer, s.counts.lookup peer = Counter.entry ((s.items.map Item.peer).count peer)) ∧
      (∀ peer, s.counts.lookup peer ≠ some 0) ∧
      s.items.length ≤ c.maxsize ∧ total s.items ≤ c.maxBytes ∧
      (∀ peer, (s.items.map Item.peer).count peer ≤ c.perPeer) ∧
      s.ledger.kept = s.returned ++ s.items := by
  have hinv := inv_run h
  refine ⟨hinv.bytes_eq, fun peer => hinv.counts_exact peer, hinv.counts_exact.lookup_ne,
    hinv.length_le, ?_, hinv.peer_le, ?_⟩
  · have := hinv.bytes_le
    have := hinv.bytes_eq
    omega
  · rw [hinv.ordered.kept_eq, hinv.taken_eq, hinv.queued_eq]

/-- One item of a peer at a time: the second of peer `a` waits for the first to leave. -/
def droppingRun : List Event :=
  [.put 0 (.sent "a" [1]), .put 1 (.sent "a" [2]), .put 2 (.sent "b" [3, 4]), .get 3, .resume 1,
    .dropPeer (some "b")]

theorem fifo_bounded_dropped :
    ∃ s, Machine.run (step ⟨2, 4, 1, by decide, by decide, by decide⟩) start droppingRun = some s ∧
      s.returned = [.sent "a" [1]] ∧ s.items = [.sent "a" [2]] ∧
      s.ledger.kept = s.returned ++ s.items :=
  ⟨_, rfl, rfl, rfl, (fifo_bounded ⟨2, 4, 1, by decide, by decide, by decide⟩ droppingRun _
    rfl).2.2.2.2.2.2⟩

/-- A call is asleep only while it could not go on: `set` has woken everyone since. -/
structure Awake (c : Config) (s : State) : Prop where
  changed : s.changed = true → ∀ t, (s.tasks t).asleep = false
  putting : ∀ t item, s.tasks t = .putting item false → s.closed = false ∧ ¬ Room c s item
  getting : ∀ t, s.tasks t = .getting false → s.closed = false ∧ s.items = []

section
variable {c : Config} {s s' : State} {e : Event}

theorem asleep_wake (task : Task) : task.wake.asleep = false := by
  cases task <;> rfl

theorem Awake.of_set (h : s.changed = true → ∀ t, (s.tasks t).asleep = false) :
    Awake c (set s) := by
  have hall : ∀ t, ((set s).tasks t).asleep = false := by
    intro t
    unfold set
    split_ifs with hchanged
    · exact h hchanged t
    · exact asleep_wake (s.tasks t)
  constructor
  · exact fun _ => hall
  · intro t item htask
    have := hall t
    rw [htask] at this
    nomatch this
  · intro t htask
    have := hall t
    rw [htask] at this
    nomatch this

theorem Awake.finish (h : Awake c s) (t : ℕ) (outcome : Outcome) :
    Awake c (finish s t outcome) := by
  have htasks : ∀ u, (PayloadQueue.finish s t outcome).tasks u = s.tasks u ∨
      (PayloadQueue.finish s t outcome).tasks u = .over outcome := by
    intro u
    by_cases hu : u = t
    · subst hu
      exact Or.inr (Function.update_self ..)
    · exact Or.inl (Function.update_of_ne hu ..)
  constructor
  · intro hchanged u
    obtain hu | hu := htasks u
    · rw [hu]
      exact h.changed hchanged u
    · rw [hu]
      rfl
  · intro u item htask
    obtain hu | hu := htasks u
    · exact h.putting u item (hu.symm.trans htask)
    · nomatch hu.symm.trans htask
  · intro u htask
    obtain hu | hu := htasks u
    · exact h.getting u (hu.symm.trans htask)
    · nomatch hu.symm.trans htask

theorem Awake.wait (h : Awake c s) (t : ℕ) {task : Task}
    (hputting : ∀ item, task = .putting item false → s.closed = false ∧ ¬ Room c s item)
    (hgetting : task = .getting false → s.closed = false ∧ s.items = []) :
    Awake c (wait s t task) := by
  constructor
  · nofun
  · intro u item htask
    by_cases hu : u = t
    · subst hu
      exact hputting item ((Function.update_self ..).symm.trans htask)
    · exact h.putting u item ((Function.update_of_ne hu ..).symm.trans htask)
  · intro u htask
    by_cases hu : u = t
    · subst hu
      exact hgetting ((Function.update_self ..).symm.trans htask)
    · exact h.getting u ((Function.update_of_ne hu ..).symm.trans htask)

theorem Awake.move (h : Awake c s) (hm : Move c s s') : Awake c s' := by
  cases hm with
  | ends t outcome => exact h.finish t outcome
  | admits t item _ _ => exact .of_set (h.finish t .admitted).changed
  | returns t item rest _ _ => exact .of_set (h.finish t (.returned item)).changed
  | awaitsRoom t item hopen hroom =>
    apply h.wait t
    · intro item' hitem
      obtain ⟨rfl, -⟩ := Task.putting.inj hitem
      exact ⟨hopen, hroom⟩
    · nofun
  | awaitsItem t hopen hitems => exact h.wait t nofun fun _ => ⟨hopen, hitems⟩
  | drops peer => exact .of_set h.changed
  | closes => exact .of_set h.changed

theorem awake_start (c : Config) : Awake c start where
  changed h := nomatch h
  putting _ _ h := nomatch (h : Task.absent = _)
  getting _ h := nomatch (h : Task.absent = _)

end

/-- In every reachable state a call of `put` that nobody has woken has no room, one of
`get` has nothing to return, and the queue is open. -/
theorem no_lost_wakeup (c : Config) (es : List Event) (s : State)
    (h : Machine.run (step c) start es = some s) : Awake c s :=
  Machine.invariant (fun _ _ _ hs hstep => hs.move (step_move hstep)) (awake_start c) h

/-- The second of peer `a` goes to sleep. -/
def blockedRun : List Event := [.get 3, .put 0 (.sent "a" [1]), .put 1 (.sent "a" [2])]

theorem no_lost_wakeup_blocked :
    ∃ s, Machine.run (step ⟨2, 4, 1, by decide, by decide, by decide⟩) start blockedRun = some s ∧
      s.tasks 3 = .getting true ∧ s.tasks 1 = .putting (.sent "a" [2]) false ∧
      s.closed = false ∧
      ¬ Room ⟨2, 4, 1, by decide, by decide, by decide⟩ s (.sent "a" [2]) := by
  refine ⟨_, rfl, rfl, rfl, ?_⟩
  exact (no_lost_wakeup ⟨2, 4, 1, by decide, by decide, by decide⟩ blockedRun _ rfl).putting 1 _ rfl

end WireRpc.PayloadQueue
