import WireRpc.TcpClient

/-!
# What lasts in the TCP client

What a step cannot take back, and what holds of the tasks, the sockets and the calls of `close`
in each state.
-/
namespace WireRpc.TcpClient
open Library

section
variable {c : Config} {s s' s'' : State} {t u w : ℕ} {e : Event}

/-- The frames written to a connection. -/
def framesOn (s : State) (w : ℕ) : List Bytes :=
  s.wrote.filterMap fun f => if f.1 = w then some f.2 else none

/-- A socket that is closed stays so and is not written to. From `close` on no operation begins
and no connection is kept, and when the operations in progress are over, nothing is opened or
written. -/
structure Follows (s s' : State) : Prop where
  closed : ∀ w, s.closed w = true → s'.closed w = true
  frames : ∀ w, s.closed w = true → framesOn s' w = framesOn s w
  closing : s.closing = true → s'.closing = true
  inflight : s.closing = true → s'.inflight ⊆ s.inflight
  connection : s.closing = true → ∀ w, s'.connection = some w → s.connection = some w
  quiet : s.closing = true → s.inflight = ∅ → s'.opened = s.opened ∧ s'.wrote = s.wrote

theorem Follows.refl (s : State) : Follows s s :=
  ⟨fun _ h => h, fun _ _ => rfl, id, fun _ => subset_rfl, fun _ _ h => h, fun _ _ => ⟨rfl, rfl⟩⟩

theorem Follows.trans (h : Follows s s') (h' : Follows s' s'') : Follows s s'' where
  closed w hw := h'.closed w (h.closed w hw)
  frames w hw := (h'.frames w (h.closed w hw)).trans (h.frames w hw)
  closing hc := h'.closing (h.closing hc)
  inflight hc := (h'.inflight (h.closing hc)).trans (h.inflight hc)
  connection hc w hw := h.connection hc w (h'.connection (h.closing hc) w hw)
  quiet hc hnone := by
    obtain ⟨hopened, hwrote⟩ := h.quiet hc hnone
    have hnone' : s'.inflight = ∅ := Finset.subset_empty.mp (hnone ▸ h.inflight hc)
    obtain ⟨hopened', hwrote'⟩ := h'.quiet (h.closing hc) hnone'
    exact ⟨hopened'.trans hopened, hwrote'.trans hwrote⟩

theorem follows_leave (s : State) (t : ℕ) (p : Task) : Follows s (leave s t p) :=
  { Follows.refl s with inflight := fun _ => Finset.erase_subset t s.inflight }

theorem follows_enter (hopen : s.closing = false) (t : ℕ) (p : Task) :
    Follows s (enter s t p) :=
  { Follows.refl s with inflight := fun hc => absurd (hopen.symm.trans hc) Bool.false_ne_true }

theorem follows_closeWriter (s : State) (w : ℕ) : Follows s (closeWriter s w) := by
  refine { Follows.refl s with closed := fun v hv => ?_ }
  by_cases hvw : v = w
  · exact hvw ▸ Function.update_self ..
  · exact (Function.update_of_ne hvw ..).trans hv

theorem Follows.closeWriter (h : Follows s s') (w : ℕ) : Follows s (closeWriter s' w) :=
  h.trans (follows_closeWriter s' w)

theorem follows_dismiss (s : State) (t w : ℕ) : Follows s (dismiss s t w) :=
  (follows_leave s t (.dismissing w)).closeWriter w

theorem follows_keep (s : State) (t w : ℕ) : Follows s (keep s t w) := by
  unfold keep
  split_ifs with hclosing
  · exact follows_dismiss s t w
  · exact { Follows.refl s with
      inflight := fun hc => absurd hc hclosing
      connection := fun hc => absurd hc hclosing }

theorem follows_tasksDrained (s : State) (k : ℕ) : Follows s (tasksDrained s k) := by
  unfold tasksDrained
  split
  · exact { follows_closeWriter s _ with }
  · exact { Follows.refl _ with }

theorem follows_beginClose (s : State) (k : ℕ) : Follows s (beginClose s k) := by
  have hclosing : Follows s { s with closing := true } :=
    { Follows.refl s with closing := fun _ => rfl }
  refine hclosing.trans ?_
  unfold beginClose
  dsimp only
  split_ifs
  · exact follows_tasksDrained { s with closing := true } k
  · exact { Follows.refl _ with }

/-- A socket is opened within an operation. -/
theorem follows_openedSocket {refused : Bool} (ht : t ∈ s.inflight) :
    Follows s (openedSocket c s t refused) := by
  have hopened : Follows s { s with opened := s.opened + 1 } :=
    { Follows.refl s with quiet := fun _ hnone => absurd (hnone ▸ ht) (Finset.notMem_empty t) }
  refine hopened.trans ?_
  unfold openedSocket
  dsimp only
  split_ifs
  · exact follows_dismiss _ t s.opened
  · exact { Follows.refl _ with }
  · exact follows_keep _ t s.opened

/-- A frame is written within an operation, and to an open connection. -/
theorem follows_takesWrite {data : Bytes} (ht : t ∈ s.inflight) (hopen : s.closed w = false) :
    Follows s { setWriteLock (goto s t (.draining w)) w (some t) with
      wrote := s.wrote ++ [(w, data)] } := by
  refine { Follows.refl s with
    frames := fun v hv => ?_
    quiet := fun _ hnone => absurd (hnone ▸ ht) (Finset.notMem_empty t) }
  have hvw : w ≠ v := by
    rintro rfl
    exact absurd (hopen.symm.trans hv) Bool.false_ne_true
  simp [framesOn, hvw]

/-- Every tracked task is in flight. -/
theorem follows_step (hinflight : ∀ t, (s.tasks t).tracked = true → t ∈ s.inflight)
    (hs : step c s e = some s') : Follows s s' := by
  cases step_way hs with
  | refused => exact { Follows.refl s with }
  | connects t ht _ _ hopen =>
    exact { follows_enter hopen t .opening with }
  | opens t refused ht => exact follows_openedSocket (hinflight t (by rw [ht]; rfl))
  | openFails t ht => exact { follows_leave s t .idle with }
  | authenticates t w ht => exact follows_keep s t w
  | authFails t w ht => exact follows_dismiss s t w
  | dismisses t w ht => exact { Follows.refl s with }
  | receives t w ht _ hopen => exact follows_enter hopen t (.beforeRead w)
  | takesRead t w ht hfree => exact { Follows.refl s with }
  | readEnds _ t w ht => exact { follows_leave s t .idle with }
  | readFails t w ht => exact { follows_closeWriter s w with }
  | sends t w data ht _ hopen => exact follows_enter hopen t (.beforeWrite w data)
  | sendIsLate t w data ht _ hopen =>
    exact (follows_enter hopen t (.failedWrite w)).closeWriter w
  | takesWrite t w data ht _ hopen =>
    exact follows_takesWrite (hinflight t (by rw [ht]; rfl)) hopen
  | writeEnds t w ht => exact { follows_leave s t .idle with }
  | drainFails t w ht => exact { follows_closeWriter s w with }
  | writeFails _ t w data ht => exact { follows_closeWriter s w with }
  | leaves _ t w ht => exact follows_leave s t .idle
  | finishes t ht => exact { Follows.refl s with }
  | loses w => exact follows_closeWriter s w
  | begins k hk => exact follows_beginClose s k
  | drains k tracked hk hended => exact follows_tasksDrained s k
  | closes k hk => exact { Follows.refl s with connection := fun _ w h => by cases h }
  | gaveUp k hk => exact { Follows.refl s with }

/-- What holds of a task in its phase. -/
structure Fits (c : Config) (s : State) (t : ℕ) (p : Task) : Prop where
  inflight : t ∈ s.inflight ↔ p.tracked = true
  connecting : p.connects = true → s.connecting = true ∧ s.kept = []
  uses : ∀ w, p.uses = some w → s.kept = [w]
  failed : ∀ w, p.failed = some w → s.closed w = true
  data : ∀ w data, p = .beforeWrite w data → Sendable c data
  reads : ∀ w, p.readsFrom = some w ↔ s.readLock w = some t
  writes : ∀ w, p.writesTo = some w ↔ s.writeLock w = some t

/-- What holds of a call of `close` in its phase. -/
def Closer.Ok (s : State) : Closer → Prop
  | absent => True
  | draining tracked => s.closing = true ∧ s.inflight ⊆ tracked
  | closingConnection =>
    s.closing = true ∧ s.inflight = ∅ ∧ ∀ w, s.connection = some w → s.closed w = true
  | returned => s.closing = true ∧ s.inflight = ∅ ∧ s.connection = none
  | cancelled => s.closing = true

/-- The socket is closed, is the connection, or is being authenticated. -/
def Accounted (s : State) (w : ℕ) : Prop :=
  s.closed w = true ∨ s.connection = some w ∨ ∃ t, s.tasks t = .authenticating w

structure Inv (c : Config) (s : State) : Prop where
  fits : ∀ t, Fits c s t (s.tasks t)
  alone : ∀ t u, (s.tasks t).connects = true → (s.tasks u).connects = true → t = u
  connection : ∀ w, s.connection = some w → s.kept = [w]
  unkept : s.closing = false → s.connection = none → s.kept = []
  kept : s.kept.length ≤ 1
  sockets : ∀ w < s.opened, Accounted s w
  wrote : ∀ f ∈ s.wrote, s.kept = [f.1] ∧ Sendable c f.2
  closers : ∀ k, (s.closers k).Ok s

theorem inv_start (c : Config) : Inv c {} where
  fits t :=
    { inflight := by simp [Task.tracked]
      connecting := by rintro ⟨⟩
      uses := by rintro _ ⟨⟩
      failed := by rintro _ ⟨⟩
      data := by rintro _ _ ⟨⟩
      reads := fun w => by simp [Task.readsFrom]
      writes := fun w => by simp [Task.writesTo] }
  alone := by rintro _ _ ⟨⟩
  connection := by rintro _ ⟨⟩
  unkept _ _ := rfl
  kept := Nat.zero_le 1
  sockets _ h := absurd h (Nat.not_lt_zero _)
  wrote _ h := absurd h List.not_mem_nil
  closers _ := trivial

/-- What the step of another task leaves to a task. -/
structure Beside (s s' : State) (u : ℕ) : Prop where
  task : s'.tasks u = s.tasks u
  inflight : u ∈ s'.inflight ↔ u ∈ s.inflight
  connecting : (s.tasks u).connects = true → s'.connecting = s.connecting ∧ s'.kept = s.kept
  uses : ∀ w, (s.tasks u).uses = some w → s'.kept = s.kept
  closed : ∀ w, s.closed w = true → s'.closed w = true
  reads : ∀ w, s'.readLock w = some u ↔ s.readLock w = some u
  writes : ∀ w, s'.writeLock w = some u ↔ s.writeLock w = some u

theorem Beside.refl (s : State) (u : ℕ) : Beside s s u :=
  ⟨rfl, Iff.rfl, fun _ => ⟨rfl, rfl⟩, fun _ _ => rfl, fun _ h => h, fun _ => Iff.rfl,
    fun _ => Iff.rfl⟩

theorem Beside.trans (h : Beside s s' u) (h' : Beside s' s'' u) : Beside s s'' u where
  task := h'.task.trans h.task
  inflight := h'.inflight.trans h.inflight
  connecting hu := by
    obtain ⟨hconnecting, hkept⟩ := h.connecting hu
    obtain ⟨hconnecting', hkept'⟩ := h'.connecting (by rw [h.task]; exact hu)
    exact ⟨hconnecting'.trans hconnecting, hkept'.trans hkept⟩
  uses w hw := (h'.uses w (by rw [h.task]; exact hw)).trans (h.uses w hw)
  closed w hw := h'.closed w (h.closed w hw)
  reads w := (h'.reads w).trans (h.reads w)
  writes w := (h'.writes w).trans (h.writes w)

theorem Fits.beside (h : Fits c s u (s.tasks u)) (hbeside : Beside s s' u) :
    Fits c s' u (s'.tasks u) := by
  rw [hbeside.task]
  refine ⟨hbeside.inflight.trans h.inflight, fun hu => ?_, fun w hw => ?_, fun w hw => ?_, h.data,
    fun w => (h.reads w).trans (hbeside.reads w).symm,
    fun w => (h.writes w).trans (hbeside.writes w).symm⟩
  · obtain ⟨hconnecting, hkept⟩ := hbeside.connecting hu
    rw [hconnecting, hkept]
    exact h.connecting hu
  · exact (hbeside.uses w hw).trans (h.uses w hw)
  · exact hbeside.closed w (h.failed w hw)

@[simp] theorem closeWriter_tasks (s : State) (w : ℕ) : (closeWriter s w).tasks = s.tasks := rfl

theorem closeWriter_closed (s : State) (w : ℕ) : (closeWriter s w).closed w = true :=
  Function.update_self ..

theorem beside_goto (p : Task) (hu : u ≠ t) : Beside s (goto s t p) u :=
  { Beside.refl s u with task := Function.update_of_ne hu .. }

theorem beside_enter (p : Task) (hu : u ≠ t) : Beside s (enter s t p) u :=
  { Beside.refl s u with
    task := Function.update_of_ne hu ..
    inflight := by simp [enter, hu] }

theorem beside_leave (p : Task) (hu : u ≠ t) : Beside s (leave s t p) u :=
  { Beside.refl s u with
    task := Function.update_of_ne hu ..
    inflight := by simp [leave, hu] }

theorem beside_closeWriter (s : State) (u w : ℕ) : Beside s (closeWriter s w) u :=
  { Beside.refl s u with closed := (follows_closeWriter s w).closed }

/-- A lock is taken or released by a task that is alone to have held it. -/
theorem update_lock_iff {lock : ℕ → Option ℕ} {holder : Option ℕ}
    (hheld : lock w = none ∨ lock w = some t) (hholder : holder = none ∨ holder = some t)
    (hu : u ≠ t) (v : ℕ) : Function.update lock w holder v = some u ↔ lock v = some u := by
  by_cases hv : v = w
  · subst hv
    rw [Function.update_self]
    grind
  · rw [Function.update_of_ne hv]

theorem beside_setReadLock {holder : Option ℕ} (hheld : s.readLock w = none ∨ s.readLock w = some t)
    (hholder : holder = none ∨ holder = some t) (hu : u ≠ t) :
    Beside s (setReadLock s w holder) u :=
  { Beside.refl s u with reads := update_lock_iff hheld hholder hu }

theorem beside_setWriteLock {holder : Option ℕ}
    (hheld : s.writeLock w = none ∨ s.writeLock w = some t)
    (hholder : holder = none ∨ holder = some t) (hu : u ≠ t) :
    Beside s (setWriteLock s w holder) u :=
  { Beside.refl s u with writes := update_lock_iff hheld hholder hu }

/-- What the step of a task leaves of the rest. -/
structure Steady (s s' : State) (t : ℕ) : Prop where
  opened : s'.opened = s.opened
  connection : s'.connection = s.connection
  kept : s'.kept = s.kept
  wrote : s'.wrote = s.wrote
  closing : s'.closing = s.closing
  closers : s'.closers = s.closers
  authenticating : ∀ w, s.tasks t = .authenticating w → s'.closed w = true

theorem Closer.Ok.follows {p : Closer} (h : p.Ok s) (hfollows : Follows s s') : p.Ok s' := by
  cases p with
  | absent => trivial
  | draining tracked => exact ⟨hfollows.closing h.1, (hfollows.inflight h.1).trans h.2⟩
  | closingConnection =>
    obtain ⟨hclosing, hnone, hclosed⟩ := h
    refine ⟨hfollows.closing hclosing, Finset.subset_empty.mp ?_, fun w hw => ?_⟩
    · exact hnone ▸ hfollows.inflight hclosing
    · exact hfollows.closed w (hclosed w (hfollows.connection hclosing w hw))
  | returned =>
    obtain ⟨hclosing, hnone, hconnection⟩ := h
    refine ⟨hfollows.closing hclosing, Finset.subset_empty.mp ?_, ?_⟩
    · exact hnone ▸ hfollows.inflight hclosing
    · rw [Option.eq_none_iff_forall_ne_some] at hconnection ⊢
      exact fun w hw => hconnection w (hfollows.connection hclosing w hw)
  | cancelled => exact hfollows.closing h

theorem Inv.fits_of (h : Inv c s) {p : Task} (hp : s'.tasks t = p) (hown : Fits c s' t p)
    (hbeside : ∀ u ≠ t, Beside s s' u) (u : ℕ) : Fits c s' u (s'.tasks u) := by
  by_cases hu : u = t
  · rw [hu, hp]
    exact hown
  · exact (h.fits u).beside (hbeside u hu)

theorem Inv.alone_of (h : Inv c s) {p : Task} (hp : s'.tasks t = p)
    (hbeside : ∀ u ≠ t, Beside s s' u)
    (hconnects : p.connects = true → ∀ u, (s.tasks u).connects = true → u = t)
    (u v : ℕ) (hu : (s'.tasks u).connects = true) (hv : (s'.tasks v).connects = true) : u = v := by
  subst hp
  by_cases hut : u = t <;> by_cases hvt : v = t
  · exact hut.trans hvt.symm
  · rw [(hbeside v hvt).task] at hv
    exact absurd (hconnects (hut ▸ hu) v hv) hvt
  · rw [(hbeside u hut).task] at hu
    exact absurd (hconnects (hvt ▸ hv) u hu) hut
  · rw [(hbeside u hut).task] at hu
    rw [(hbeside v hvt).task] at hv
    exact h.alone u v hu hv

/-- A task goes on, and the others and the rest stay as they are. -/
theorem Inv.moves (h : Inv c s) {p : Task} (hp : s'.tasks t = p) (hfollows : Follows s s')
    (hsteady : Steady s s' t) (hown : Fits c s' t p) (hbeside : ∀ u ≠ t, Beside s s' u)
    (hconnects : p.connects = true → ∀ u, (s.tasks u).connects = true → u = t) : Inv c s' where
  fits := h.fits_of hp hown hbeside
  alone := h.alone_of hp hbeside hconnects
  connection := by
    rw [hsteady.connection, hsteady.kept]
    exact h.connection
  unkept := by
    rw [hsteady.closing, hsteady.connection, hsteady.kept]
    exact h.unkept
  kept := by
    rw [hsteady.kept]
    exact h.kept
  sockets w hw := by
    rw [hsteady.opened] at hw
    unfold Accounted
    rw [hsteady.connection]
    rcases h.sockets w hw with hclosed | hconnection | ⟨u, hu⟩
    · exact Or.inl (hfollows.closed w hclosed)
    · exact Or.inr (Or.inl hconnection)
    · by_cases hut : u = t
      · exact Or.inl (hsteady.authenticating w (hut ▸ hu))
      · exact Or.inr (Or.inr ⟨u, (hbeside u hut).task.trans hu⟩)
  wrote := by
    rw [hsteady.wrote, hsteady.kept]
    exact h.wrote
  closers k := by
    rw [hsteady.closers]
    exact (h.closers k).follows hfollows

end

end WireRpc.TcpClient
