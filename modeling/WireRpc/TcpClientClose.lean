import WireRpc.TcpClientSockets

/-!
# What becomes of the sockets of the TCP client

A transport keeps one connection in its life, and each socket it opens is closed, is that
connection or is still being authenticated. `close` waits for the tasks that were in flight, and
then nothing of the transport is left.
-/
namespace WireRpc.TcpClient
open Library

section
variable {c : Config} {s s' : State} {t u w : ℕ} {e : Event}

section
variable {p p' : Task}

theorem Fits.unread (h : Fits c s t p) (hp : p.readsFrom = none) (w : ℕ) :
    s.readLock w ≠ some t := by
  intro hw
  have hreads := (h.reads w).mpr hw
  rw [hp] at hreads
  cases hreads

theorem Fits.unwritten (h : Fits c s t p) (hp : p.writesTo = none) (w : ℕ) :
    s.writeLock w ≠ some t := by
  intro hw
  have hwrites := (h.writes w).mpr hw
  rw [hp] at hwrites
  cases hwrites

theorem taken_iff {lock : ℕ → Option ℕ} (hfree : ∀ v, lock v ≠ some t) (w v : ℕ) :
    some w = some v ↔ Function.update lock w (some t) v = some t := by
  by_cases hv : v = w
  · subst hv
    simp
  · rw [Function.update_of_ne hv]
    exact iff_of_false (fun h => hv (Option.some.inj h).symm) (hfree v)

theorem released_ne {lock : ℕ → Option ℕ} (honly : ∀ v, lock v = some t → v = w) (v : ℕ) :
    Function.update lock w none v ≠ some t := by
  by_cases hv : v = w
  · subst hv
    simp
  · rw [Function.update_of_ne hv]
    exact fun h => hv (honly v h)

theorem iff_of_ne {lock : ℕ → Option ℕ} (hfree : ∀ v, lock v ≠ some t) (v : ℕ) :
    none = some v ↔ lock v = some t :=
  iff_of_false (Option.some_ne_none v).symm (hfree v)

/-- A task outside of `_track_operation` holds no lock. -/
theorem fits_outside (hp : p.tracked = false) (hout : t ∉ s.inflight)
    (hconnecting : p.connects = true → s.connecting = true ∧ s.kept = [])
    (hreads : ∀ w, s.readLock w ≠ some t) (hwrites : ∀ w, s.writeLock w ≠ some t) :
    Fits c s t p where
  inflight := iff_of_false hout (by rw [hp]; exact Bool.false_ne_true)
  connecting := hconnecting
  uses w hw := absurd ((Task.outside hp).1.symm.trans hw) (Option.some_ne_none w).symm
  failed w hw := absurd ((Task.outside hp).2.1.symm.trans hw) (Option.some_ne_none w).symm
  data w data hw := by
    rw [hw] at hp
    cases hp
  reads := by
    rw [(Task.outside hp).2.2.1]
    exact iff_of_ne hreads
  writes := by
    rw [(Task.outside hp).2.2.2]
    exact iff_of_ne hwrites

/-- A task in `recv` or `send`. -/
theorem fits_using (hp : p.uses = some w) (hin : t ∈ s.inflight) (hkept : s.kept = [w])
    (hfailed : ∀ v, p.failed = some v → s.closed v = true)
    (hdata : ∀ v data, p = .beforeWrite v data → Sendable c data)
    (hreads : ∀ v, p.readsFrom = some v ↔ s.readLock v = some t)
    (hwrites : ∀ v, p.writesTo = some v ↔ s.writeLock v = some t) : Fits c s t p where
  inflight := iff_of_true hin (Task.tracked_of_uses hp)
  connecting hconnects := absurd hconnects (Task.not_connects hp)
  uses v hv := by rw [hkept, Option.some.inj (hp.symm.trans hv)]
  failed := hfailed
  data := hdata
  reads := hreads
  writes := hwrites

theorem goto_tasks (s : State) (t : ℕ) (p : Task) : (goto s t p).tasks t = p :=
  Function.update_self ..

theorem enter_tasks (s : State) (t : ℕ) (p : Task) : (enter s t p).tasks t = p :=
  Function.update_self ..

theorem leave_tasks (s : State) (t : ℕ) (p : Task) : (leave s t p).tasks t = p :=
  Function.update_self ..

theorem Inv.unconnected (h : Inv c s) (hconnecting : s.connecting = false) (u : ℕ) :
    ¬ (s.tasks u).connects = true := by
  intro hu
  exact absurd (hconnecting.symm.trans ((h.fits u).connecting hu).1) Bool.false_ne_true

theorem Inv.connects (h : Inv c s) (ht : s.tasks t = .idle) (hconnecting : s.connecting = false)
    (hnone : s.connection = none) (hopen : s.closing = false) :
    Inv c { enter s t .opening with connecting := true } := by
  have hfits : Fits c s t .idle := ht ▸ h.fits t
  refine h.moves (enter_tasks s t .opening) { follows_enter hopen t .opening with }
    ⟨rfl, rfl, rfl, rfl, rfl, rfl, ?_⟩ ?_ ?_ ?_
  · simp [ht]
  · exact
      { inflight := iff_of_true (Finset.mem_insert_self t s.inflight) rfl
        connecting := fun _ => ⟨rfl, h.unkept hopen hnone⟩
        uses := by rintro _ ⟨⟩
        failed := by rintro _ ⟨⟩
        data := by rintro _ _ ⟨⟩
        reads := iff_of_ne (hfits.unread rfl)
        writes := iff_of_ne (hfits.unwritten rfl) }
  · intro u hu
    exact { beside_enter .opening hu with
      connecting := fun hconnects => absurd hconnects (h.unconnected hconnecting u) }
  · exact fun _ u hu => absurd hu (h.unconnected hconnecting u)

/-- The end of a `connect` without a connection. -/
theorem Inv.disconnects (h : Inv c s) (hconnects : (s.tasks t).connects = true)
    (hauth : ∀ w, s.tasks t ≠ .authenticating w) :
    Inv c { leave s t .idle with connecting := false } := by
  have hlocks := Task.connects_holds hconnects
  refine h.moves (leave_tasks s t .idle) { follows_leave s t .idle with }
    ⟨rfl, rfl, rfl, rfl, rfl, rfl, ?_⟩ ?_ ?_ ?_
  · exact fun w hw => absurd hw (hauth w)
  · exact fits_outside rfl (Finset.notMem_erase t s.inflight) (by rintro ⟨⟩)
      ((h.fits t).unread hlocks.1) ((h.fits t).unwritten hlocks.2)
  · intro u hu
    exact { beside_leave .idle hu with
      connecting := fun hu' => absurd (h.alone u t hu' hconnects) hu }
  · rintro ⟨⟩

theorem Inv.dismiss (h : Inv c s) (ht : s.tasks t = .authenticating w) :
    Inv c (dismiss s t w) := by
  have hfits : Fits c s t (.authenticating w) := ht ▸ h.fits t
  refine h.moves (leave_tasks s t (.dismissing w)) (follows_dismiss s t w)
    ⟨rfl, rfl, rfl, rfl, rfl, rfl, ?_⟩ ?_ ?_ ?_
  · intro v hv
    obtain rfl := Task.authenticating.inj (ht.symm.trans hv)
    exact Function.update_self ..
  · exact fits_outside rfl (Finset.notMem_erase t s.inflight) (fun _ => hfits.connecting rfl)
      (hfits.unread rfl) (hfits.unwritten rfl)
  · exact fun u hu => (beside_leave (.dismissing w) hu).trans (beside_closeWriter _ u w)
  · exact fun _ u hu => h.alone u t hu (by rw [ht]; rfl)

theorem Inv.keep (h : Inv c s) (ht : s.tasks t = .authenticating w) : Inv c (keep s t w) := by
  by_cases hclosing : s.closing = true
  · rw [TcpClient.keep, if_pos hclosing]
    exact h.dismiss ht
  have hfits : Fits c s t (.authenticating w) := ht ▸ h.fits t
  obtain ⟨hconnecting, hkept⟩ := hfits.connecting rfl
  have hconnects : (s.tasks t).connects = true := by rw [ht]; rfl
  have hfollows := follows_keep s t w
  rw [TcpClient.keep, if_neg hclosing] at hfollows ⊢
  have hkeeps : s.kept ++ [w] = [w] := by rw [hkept]; rfl
  have hunkept : ∀ {P : Prop} (v : ℕ), s.kept = [v] → P := fun v hv =>
    absurd (hkept.symm.trans hv) (List.cons_ne_nil v []).symm
  have hbeside : ∀ u ≠ t, Beside s
      { leave s t .idle with connection := some w, connecting := false, kept := s.kept ++ [w] } u :=
    fun u hu =>
      { beside_leave .idle hu with
        connecting := fun hu' => absurd (h.alone u t hu' hconnects) hu
        uses := fun v hv => hunkept v ((h.fits u).uses v hv) }
  refine ⟨h.fits_of (leave_tasks s t .idle) ?_ hbeside,
    h.alone_of (leave_tasks s t .idle) hbeside (by rintro ⟨⟩), ?_, ?_, ?_, ?_, ?_,
    fun k => (h.closers k).follows hfollows⟩
  · exact fits_outside rfl (Finset.notMem_erase t s.inflight) (by rintro ⟨⟩) (hfits.unread rfl)
      (hfits.unwritten rfl)
  · intro v hv
    obtain rfl := Option.some.inj hv
    exact hkeeps
  · rintro _ ⟨⟩
  · exact (congrArg List.length hkeeps).le
  · intro v hv
    rcases h.sockets v hv with hclosed | hconnection | ⟨u, hu⟩
    · exact Or.inl hclosed
    · exact hunkept v (h.connection v hconnection)
    · obtain rfl := h.alone u t (by rw [hu]; rfl) hconnects
      obtain rfl := Task.authenticating.inj (ht.symm.trans hu)
      exact Or.inr (Or.inl rfl)
  · intro f hf
    exact hunkept f.1 (h.wrote f hf).1

/-- A socket is opened, and is authenticated if need be. -/
theorem Inv.opens (h : Inv c s) (ht : s.tasks t = .opening) :
    Inv c { goto s t (.authenticating s.opened) with opened := s.opened + 1 } := by
  have hfits : Fits c s t .opening := ht ▸ h.fits t
  have hin : t ∈ s.inflight := hfits.inflight.mpr rfl
  have hbeside : ∀ u ≠ t, Beside s
      { goto s t (.authenticating s.opened) with opened := s.opened + 1 } u :=
    fun u hu => { beside_goto (.authenticating s.opened) hu with }
  have htask := goto_tasks s t (.authenticating s.opened)
  have hfollows : Follows s { goto s t (.authenticating s.opened) with opened := s.opened + 1 } :=
    { Follows.refl s with quiet := fun _ hnone => absurd (hnone ▸ hin) (Finset.notMem_empty t) }
  refine ⟨h.fits_of htask ?_ hbeside, h.alone_of htask hbeside fun _ u hu => ?_, h.connection,
    h.unkept, h.kept, ?_, h.wrote, fun k => (h.closers k).follows hfollows⟩
  · exact
      { inflight := iff_of_true hin rfl
        connecting := fun _ => hfits.connecting rfl
        uses := by rintro _ ⟨⟩
        failed := by rintro _ ⟨⟩
        data := by rintro _ _ ⟨⟩
        reads := iff_of_ne (hfits.unread rfl)
        writes := iff_of_ne (hfits.unwritten rfl) }
  · exact h.alone u t hu (by rw [ht]; rfl)
  · intro v hv
    rcases Nat.lt_succ_iff_lt_or_eq.mp hv with hold | rfl
    · rcases h.sockets v hold with hclosed | hconnection | ⟨u, hu⟩
      · exact Or.inl hclosed
      · exact Or.inr (Or.inl hconnection)
      · have hut : u ≠ t := by
          rintro rfl
          exact absurd (ht.symm.trans hu) (by rintro ⟨⟩)
        exact Or.inr (Or.inr ⟨u, (hbeside u hut).task.trans hu⟩)
    · exact Or.inr (Or.inr ⟨t, htask⟩)

theorem Inv.openedSocket (h : Inv c s) {refused : Bool} (ht : s.tasks t = .opening) :
    Inv c (openedSocket c s t refused) := by
  have hopens := h.opens ht
  have htask := goto_tasks s t (.authenticating s.opened)
  unfold TcpClient.openedSocket
  dsimp only
  split_ifs
  · simpa [TcpClient.dismiss, leave, goto] using hopens.dismiss htask
  · exact hopens
  · simpa [TcpClient.keep, TcpClient.dismiss, leave, goto] using hopens.keep htask

/-- `recv` or `send` begins. -/
theorem Inv.enters (h : Inv c s) (ht : s.tasks t = .idle) (hconnected : s.connection = some w)
    (hopen : s.closing = false) (hp : p.uses = some w)
    (hfailed : ∀ v, p.failed = some v → s.closed v = true)
    (hdata : ∀ v data, p = .beforeWrite v data → Sendable c data)
    (hreads : p.readsFrom = none) (hwrites : p.writesTo = none) : Inv c (enter s t p) := by
  have hfits : Fits c s t .idle := ht ▸ h.fits t
  refine h.moves (enter_tasks s t p) (follows_enter hopen t p)
    ⟨rfl, rfl, rfl, rfl, rfl, rfl, ?_⟩ ?_ ?_ ?_
  · simp [ht]
  · refine fits_using hp (Finset.mem_insert_self t s.inflight) (h.connection w hconnected) hfailed
      hdata ?_ ?_
    · rw [hreads]
      exact iff_of_ne (hfits.unread rfl)
    · rw [hwrites]
      exact iff_of_ne (hfits.unwritten rfl)
  · exact fun u hu => beside_enter p hu
  · exact fun hconnects => absurd hconnects (Task.not_connects hp)

theorem Inv.closeWriter (h : Inv c s) (w : ℕ) : Inv c (closeWriter s w) where
  fits u := (h.fits u).beside (beside_closeWriter s u w)
  alone := h.alone
  connection := h.connection
  unkept := h.unkept
  kept := h.kept
  sockets v hv := (h.sockets v hv).imp_left ((follows_closeWriter s w).closed v)
  wrote := h.wrote
  closers k := (h.closers k).follows (follows_closeWriter s w)

/-- A task in `recv` or `send` goes on. -/
theorem Inv.continues (h : Inv c s) (ht : (s.tasks t).uses = some w) (htask : s'.tasks t = p)
    (hp : p.uses = some w) (hfollows : Follows s s')
    (hsteady : (∀ v, s.tasks t = .authenticating v → s'.closed v = true) → Steady s s' t)
    (hin : s'.inflight = s.inflight) (hfailed : ∀ v, p.failed = some v → s'.closed v = true)
    (hdata : ∀ v data, p = .beforeWrite v data → Sendable c data)
    (hreads : ∀ v, p.readsFrom = some v ↔ s'.readLock v = some t)
    (hwrites : ∀ v, p.writesTo = some v ↔ s'.writeLock v = some t)
    (hbeside : ∀ u ≠ t, Beside s s' u) : Inv c s' := by
  have hfits := h.fits t
  have hsteady := hsteady fun v hv => by
    rw [hv] at ht
    cases ht
  refine h.moves htask hfollows hsteady (fits_using hp ?_ ?_ hfailed hdata hreads hwrites) hbeside
    fun hconnects => absurd hconnects (Task.not_connects hp)
  · rw [hin]
    exact hfits.inflight.mpr (Task.tracked_of_uses ht)
  · rw [hsteady.kept]
    exact hfits.uses w ht

/-- A task is done with an operation, or with all of them. -/
theorem Inv.ends (h : Inv c s) (hconnects : ¬ (s.tasks t).connects = true)
    (htask : s'.tasks t = p) (hp : p.tracked = false) (hquiet : ¬ p.connects = true)
    (hfollows : Follows s s')
    (hsteady : (∀ v, s.tasks t = .authenticating v → s'.closed v = true) → Steady s s' t)
    (hout : t ∉ s'.inflight) (hreads : ∀ v, s'.readLock v ≠ some t)
    (hwrites : ∀ v, s'.writeLock v ≠ some t) (hbeside : ∀ u ≠ t, Beside s s' u) : Inv c s' := by
  refine h.moves htask hfollows (hsteady fun v hv => ?_)
    (fits_outside hp hout (fun hp => absurd hp hquiet) hreads hwrites) hbeside
    fun hp => absurd hp hquiet
  rw [hv] at hconnects
  exact absurd rfl hconnects

theorem Inv.takesRead (h : Inv c s) (ht : s.tasks t = .beforeRead w)
    (hfree : s.readLock w = none) :
    Inv c (setReadLock (goto s t (.reading w)) w (some t)) := by
  have hfits : Fits c s t (.beforeRead w) := ht ▸ h.fits t
  refine h.continues (w := w) (by rw [ht]; rfl) (goto_tasks s t (.reading w)) rfl
    { Follows.refl s with }
    (fun hauth => ⟨rfl, rfl, rfl, rfl, rfl, rfl, hauth⟩) rfl (by rintro _ ⟨⟩) (by rintro _ _ ⟨⟩)
    (taken_iff (hfits.unread rfl) w) (iff_of_ne (hfits.unwritten rfl)) fun u hu => ?_
  exact (beside_goto (.reading w) hu).trans (beside_setReadLock (Or.inl hfree) (Or.inr rfl) hu)

/-- A failure closes the connection. -/
theorem Inv.fails (h : Inv c s) (ht : (s.tasks t).uses = some w) (hp : p.uses = some w)
    (hfailed : p.failed = some w) (hreads : p.readsFrom = (s.tasks t).readsFrom)
    (hwrites : p.writesTo = (s.tasks t).writesTo) :
    Inv c (TcpClient.closeWriter (goto s t p) w) := by
  have hgoes : Inv c (goto (TcpClient.closeWriter s w) t p) := by
    refine (h.closeWriter w).continues ht (goto_tasks _ t p) hp { Follows.refl _ with }
      (fun hauth => ⟨rfl, rfl, rfl, rfl, rfl, rfl, hauth⟩) rfl (fun v hv => ?_)
      (fun v data hv => ?_) ?_ ?_ fun u hu => beside_goto p hu
    · obtain rfl := Option.some.inj (hfailed.symm.trans hv)
      exact closeWriter_closed s w
    · rw [hv] at hfailed
      cases hfailed
    · rw [hreads]
      exact (h.fits t).reads
    · rw [hwrites]
      exact (h.fits t).writes
  exact hgoes

theorem Inv.drainFails (h : Inv c s) (ht : s.tasks t = .draining w) :
    Inv c (TcpClient.closeWriter (setWriteLock (goto s t (.failedWrite w)) w none) w) := by
  have hfits : Fits c s t (.draining w) := ht ▸ h.fits t
  have hheld : s.writeLock w = some t := (hfits.writes w).mp rfl
  have hgoes : Inv c
        (setWriteLock (goto (TcpClient.closeWriter s w) t (.failedWrite w)) w none) := by
    refine (h.closeWriter w).continues (t := t) (w := w) (by rw [closeWriter_tasks, ht]; rfl)
      (goto_tasks _ t (.failedWrite w)) rfl { Follows.refl _ with }
      (fun hauth => ⟨rfl, rfl, rfl, rfl, rfl, rfl, hauth⟩) rfl ?_
      (by rintro _ _ ⟨⟩) hfits.reads (iff_of_ne (released_ne fun v hv => ?_)) fun u hu => ?_
    · rintro _ ⟨⟩
      exact closeWriter_closed s w
    · exact (Option.some.inj ((hfits.writes v).mpr hv)).symm
    · exact (beside_goto (.failedWrite w) hu).trans
        (beside_setWriteLock (Or.inr hheld) (Or.inl rfl) hu)
  exact hgoes

theorem Inv.takesWrite {data : Bytes} (h : Inv c s) (ht : s.tasks t = .beforeWrite w data)
    (hfree : s.writeLock w = none) (hopen : s.closed w = false) :
    Inv c { setWriteLock (goto s t (.draining w)) w (some t) with
      wrote := s.wrote ++ [(w, data)] } := by
  have hfits : Fits c s t (.beforeWrite w data) := ht ▸ h.fits t
  have hin : t ∈ s.inflight := hfits.inflight.mpr rfl
  have hgoes : Inv c (setWriteLock (goto s t (.draining w)) w (some t)) := by
    refine h.continues (w := w) (by rw [ht]; rfl) (goto_tasks s t (.draining w)) rfl
      { Follows.refl s with }
      (fun hauth => ⟨rfl, rfl, rfl, rfl, rfl, rfl, hauth⟩) rfl (by rintro _ ⟨⟩) (by rintro _ _ ⟨⟩)
      (iff_of_ne (hfits.unread rfl)) (taken_iff (hfits.unwritten rfl) w) fun u hu => ?_
    exact (beside_goto (.draining w) hu).trans (beside_setWriteLock (Or.inl hfree) (Or.inr rfl) hu)
  have hfollows : Follows s { setWriteLock (goto s t (.draining w)) w (some t) with
      wrote := s.wrote ++ [(w, data)] } := follows_takesWrite hin hopen
  refine ⟨fun u => { hgoes.fits u with }, hgoes.alone, hgoes.connection, hgoes.unkept, hgoes.kept,
    hgoes.sockets, fun f hf => ?_, fun k => (h.closers k).follows hfollows⟩
  rcases List.mem_append.mp hf with hold | hnew
  · exact hgoes.wrote f hold
  · obtain rfl := List.mem_singleton.mp hnew
    exact ⟨hfits.uses w rfl, hfits.data w data rfl⟩

theorem Inv.readEnds (h : Inv c s) (ht : (s.tasks t).readsFrom = some w) :
    Inv c (setReadLock (leave s t .idle) w none) := by
  have hheld : s.readLock w = some t := ((h.fits t).reads w).mp ht
  have hphase := Task.reads_holds ht
  refine h.ends hphase.1 (leave_tasks s t .idle) rfl (by rintro ⟨⟩)
    { follows_leave s t .idle with } (fun hauth => ⟨rfl, rfl, rfl, rfl, rfl, rfl, hauth⟩)
    (Finset.notMem_erase t s.inflight) (released_ne fun v hv => ?_)
    ((h.fits t).unwritten hphase.2) fun u hu => ?_
  · exact Option.some.inj ((((h.fits t).reads v).mpr hv).symm.trans ht)
  · exact (beside_leave .idle hu).trans (beside_setReadLock (Or.inr hheld) (Or.inl rfl) hu)

theorem Inv.writeEnds (h : Inv c s) (ht : s.tasks t = .draining w) :
    Inv c (setWriteLock (leave s t .idle) w none) := by
  have hfits : Fits c s t (.draining w) := ht ▸ h.fits t
  have hheld : s.writeLock w = some t := (hfits.writes w).mp rfl
  refine h.ends (by rw [ht]; rintro ⟨⟩) (leave_tasks s t .idle) rfl (by rintro ⟨⟩)
    { follows_leave s t .idle with } (fun hauth => ⟨rfl, rfl, rfl, rfl, rfl, rfl, hauth⟩)
    (Finset.notMem_erase t s.inflight) (hfits.unread rfl) (released_ne fun v hv => ?_)
    fun u hu => ?_
  · exact (Option.some.inj ((hfits.writes v).mpr hv)).symm
  · exact (beside_leave .idle hu).trans (beside_setWriteLock (Or.inr hheld) (Or.inl rfl) hu)

theorem Inv.leaves (h : Inv c s) (hconnects : ¬ (s.tasks t).connects = true)
    (hreads : (s.tasks t).readsFrom = none) (hwrites : (s.tasks t).writesTo = none) :
    Inv c (leave s t .idle) :=
  h.ends hconnects (leave_tasks s t .idle) rfl (by rintro ⟨⟩) (follows_leave s t .idle)
    (fun hauth => ⟨rfl, rfl, rfl, rfl, rfl, rfl, hauth⟩) (Finset.notMem_erase t s.inflight)
    ((h.fits t).unread hreads) ((h.fits t).unwritten hwrites) fun _ hu => beside_leave .idle hu

theorem Inv.finishes (h : Inv c s) (ht : s.tasks t = .idle) : Inv c (goto s t .ended) := by
  have hfits : Fits c s t .idle := ht ▸ h.fits t
  refine h.ends (by rw [ht]; rintro ⟨⟩) (goto_tasks s t .ended) rfl (by rintro ⟨⟩)
    { Follows.refl s with }
    (fun hauth => ⟨rfl, rfl, rfl, rfl, rfl, rfl, hauth⟩) (fun hin => ?_) (hfits.unread rfl)
    (hfits.unwritten rfl) fun u hu => beside_goto .ended hu
  exact absurd (hfits.inflight.mp hin) (by rintro ⟨⟩)

theorem Inv.setCloser (h : Inv c s) {k : ℕ} {phase : Closer} (hphase : phase.Ok s) :
    Inv c (setCloser s k phase) := by
  refine ⟨fun u => { h.fits u with }, h.alone, h.connection, h.unkept, h.kept, h.sockets, h.wrote,
    fun j => ?_⟩
  have hok : (Function.update s.closers k phase j).Ok s := by
    by_cases hj : j = k
    · subst hj
      rwa [Function.update_self]
    · rw [Function.update_of_ne hj]
      exact h.closers j
  exact hok.follows { Follows.refl s with }

theorem Inv.tasksDrained (h : Inv c s) {k : ℕ} (hclosing : s.closing = true)
    (hnone : s.inflight = ∅) : Inv c (tasksDrained s k) := by
  unfold TcpClient.tasksDrained
  split
  case h_1 w hconnected =>
    have hcloses : Inv c
        (TcpClient.setCloser (TcpClient.closeWriter s w) k .closingConnection) := by
      refine (h.closeWriter w).setCloser ⟨hclosing, hnone, fun v hv => ?_⟩
      obtain rfl := Option.some.inj (hconnected.symm.trans hv)
      exact closeWriter_closed s w
    exact hcloses
  case h_2 hconnected => exact h.setCloser ⟨hclosing, hnone, hconnected⟩

theorem Inv.shuts (h : Inv c s) : Inv c { s with closing := true } := by
  have hfollows : Follows s { s with closing := true } :=
    { Follows.refl s with closing := fun _ => rfl }
  exact ⟨fun u => { h.fits u with }, h.alone, h.connection, by rintro ⟨⟩, h.kept, h.sockets,
    h.wrote, fun k => (h.closers k).follows hfollows⟩

theorem Inv.beginClose (h : Inv c s) {k : ℕ} : Inv c (beginClose s k) := by
  unfold TcpClient.beginClose
  dsimp only
  split_ifs with hnone
  · exact h.shuts.tasksDrained rfl hnone
  · exact h.shuts.setCloser ⟨rfl, subset_rfl⟩

/-- The tasks that were in flight at the beginning have ended, and no other has followed. -/
theorem Inv.drains (h : Inv c s) {k : ℕ} {tracked : Finset ℕ} (hk : s.closers k = .draining tracked)
    (hended : ∀ t ∈ tracked, s.tasks t = .ended) : Inv c (TcpClient.tasksDrained s k) := by
  obtain ⟨hclosing, hsubset⟩ : Closer.Ok s (.draining tracked) := hk ▸ h.closers k
  refine h.tasksDrained hclosing (Finset.eq_empty_of_forall_notMem fun t ht => ?_)
  have htracked := (h.fits t).inflight.mp ht
  rw [hended t (hsubset ht)] at htracked
  cases htracked

theorem Inv.closes (h : Inv c s) {k : ℕ} (hk : s.closers k = .closingConnection) :
    Inv c (connectionClosed s k) := by
  obtain ⟨hclosing, hnone, hclosed⟩ : Closer.Ok s .closingConnection := hk ▸ h.closers k
  have hdrops : Inv c { s with connection := none } := by
    have hfollows : Follows s { s with connection := none } :=
      { Follows.refl s with connection := fun _ _ h => by cases h }
    refine ⟨fun u => { h.fits u with }, h.alone, by rintro _ ⟨⟩, fun hopen => ?_, h.kept,
      fun w hw => ?_, h.wrote, fun j => (h.closers j).follows hfollows⟩
    · exact absurd (hopen.symm.trans hclosing) Bool.false_ne_true
    · rcases h.sockets w hw with hshut | hconnection | hauth
      · exact Or.inl hshut
      · exact Or.inl (hclosed w hconnection)
      · exact Or.inr (Or.inr hauth)
  exact hdrops.setCloser ⟨hclosing, hnone, rfl⟩

theorem Inv.step (h : Inv c s) (hs : step c s e = some s') : Inv c s' := by
  cases step_way hs with
  | refused => exact h
  | connects t ht hconnecting hnone hopen => exact h.connects ht hconnecting hnone hopen
  | opens t refused ht => exact h.openedSocket ht
  | openFails t ht =>
    exact h.disconnects (by rw [ht]; rfl) fun w hw => absurd (ht.symm.trans hw) (by rintro ⟨⟩)
  | authenticates t w ht => exact h.keep ht
  | authFails t w ht => exact h.dismiss ht
  | dismisses t w ht =>
    have hout : t ∉ s.inflight := fun hin => by
      have htracked := (h.fits t).inflight.mp hin
      rw [ht] at htracked
      cases htracked
    have hleaves := h.disconnects (t := t) (by rw [ht]; rfl)
      fun w hw => absurd (ht.symm.trans hw) (by rintro ⟨⟩)
    simpa [leave, goto, Finset.erase_eq_of_notMem hout] using hleaves
  | receives t w ht hconnected hopen =>
    exact h.enters ht hconnected hopen rfl (by rintro _ ⟨⟩) (by rintro _ _ ⟨⟩) rfl rfl
  | takesRead t w ht hfree => exact h.takesRead ht hfree
  | readEnds _ t w ht => exact h.readEnds ht
  | readFails t w ht => exact h.fails (by rw [ht]; rfl) rfl rfl (by rw [ht]; rfl) (by rw [ht]; rfl)
  | sends t w data ht hconnected hopen hdata =>
    refine h.enters ht hconnected hopen rfl (by rintro _ ⟨⟩) ?_ rfl rfl
    rintro _ _ ⟨⟩
    exact hdata
  | sendIsLate t w data ht hconnected hopen =>
    have henters : Inv c (enter (TcpClient.closeWriter s w) t (.failedWrite w)) := by
      refine (h.closeWriter w).enters ht hconnected hopen rfl ?_ (by rintro _ _ ⟨⟩) rfl rfl
      rintro _ ⟨⟩
      exact closeWriter_closed s w
    exact henters
  | takesWrite t w data ht hfree hopen => exact h.takesWrite ht hfree hopen
  | writeEnds t w ht => exact h.writeEnds ht
  | drainFails t w ht => exact h.drainFails ht
  | writeFails _ t w data ht =>
    exact h.fails (by rw [ht]; rfl) rfl rfl (by rw [ht]; rfl) (by rw [ht]; rfl)
  | leaves _ t w ht =>
    rcases ht with ht | ht
    · exact h.leaves (by rw [ht]; rintro ⟨⟩) (by rw [ht]; rfl) (by rw [ht]; rfl)
    · exact h.leaves (by rw [ht]; rintro ⟨⟩) (by rw [ht]; rfl) (by rw [ht]; rfl)
  | finishes t ht => exact h.finishes ht
  | loses w => exact h.closeWriter w
  | begins k hk => exact h.beginClose
  | drains k tracked hk hended => exact h.drains hk hended
  | closes k hk => exact h.closes hk
  | gaveUp k hk =>
    refine h.setCloser ?_
    have hok := h.closers k
    cases hphase : s.closers k with
    | absent => exact absurd hphase hk
    | draining tracked => exact (hphase ▸ hok : Closer.Ok s (.draining tracked)).1
    | closingConnection => exact (hphase ▸ hok : Closer.Ok s .closingConnection).1
    | returned => exact (hphase ▸ hok : Closer.Ok s .returned).1
    | cancelled => exact (hphase ▸ hok : Closer.Ok s .cancelled)

end

end

section
variable {c : Config} {s s' : State} {es : List Event}

theorem Inv.run (h : Inv c s) (hrun : Machine.run (TcpClient.step c) s es = some s') : Inv c s' :=
  Machine.invariant (P := Inv c) (fun _ _ _ h hs => h.step hs) h hrun

theorem Inv.follows {e : Event} (h : Inv c s) (hs : TcpClient.step c s e = some s') :
    Follows s s' :=
  follows_step (fun t ht => (h.fits t).inflight.mpr ht) hs

theorem Inv.follows_run (h : Inv c s) (hrun : Machine.run (TcpClient.step c) s es = some s') :
    Follows s s' := by
  have hboth : Inv c s' ∧ Follows s s' := by
    refine Machine.invariant (P := fun s' => Inv c s' ∧ Follows s s') ?_ ⟨h, Follows.refl s⟩ hrun
    exact fun u e u' hu hs => ⟨hu.1.step hs, hu.2.trans (hu.1.follows hs)⟩
  exact hboth.2

/-- Nothing of the transport is left. -/
structure Shut (s : State) : Prop where
  connection : s.connection = none
  sockets : ∀ w < s.opened, s.closed w = true
  tasks : ∀ t, (s.tasks t).tracked = false

theorem Inv.shut (h : Inv c s) (hok : Closer.Ok s .returned) : Shut s := by
  obtain ⟨-, hnone, hconnection⟩ := hok
  have htasks : ∀ t, (s.tasks t).tracked = false := fun t => by
    have hiff := (h.fits t).inflight
    rw [hnone] at hiff
    simpa using hiff
  refine ⟨hconnection, fun w hw => ?_, htasks⟩
  rcases h.sockets w hw with hclosed | hconnected | ⟨t, ht⟩
  · exact hclosed
  · exact absurd (hconnection.symm.trans hconnected) (Option.some_ne_none w).symm
  · have htracked := htasks t
    rw [ht] at htracked
    cases htracked
end

/-- A transport keeps at most one connection in its life, and accounts for every socket that it
opens. At most one task reads from the connection and at most one writes to it, only frames of a
valid size are written to it, and when an operation on it has failed it is closed. A socket that
is closed stays so, and nothing is written to it any more. -/
theorem sockets_accounted (c : Config) (es : List Event) (s : State)
    (hrun : Machine.run (step c) {} es = some s) :
    s.kept.length ≤ 1 ∧ (∀ w < s.opened, Accounted s w) ∧
      (∀ t u w, (s.tasks t).readsFrom = some w → (s.tasks u).readsFrom = some w → t = u) ∧
      (∀ t u w, (s.tasks t).writesTo = some w → (s.tasks u).writesTo = some w → t = u) ∧
      (∀ w data, (w, data) ∈ s.wrote → s.kept = [w] ∧ Sendable c data) ∧
      (∀ t w, (s.tasks t).failed = some w → s.closed w = true) ∧
      ∀ rest s', Machine.run (step c) s rest = some s' → ∀ w, s.closed w = true →
        s'.closed w = true ∧ framesOn s' w = framesOn s w := by
  have hinv := (inv_start c).run hrun
  refine ⟨hinv.kept, hinv.sockets, fun t u w ht hu => ?_, fun t u w ht hu => ?_,
    fun w data hf => hinv.wrote (w, data) hf, fun t w ht => (hinv.fits t).failed w ht,
    fun rest s' hrest w hw => ?_⟩
  · have hheld := ((hinv.fits t).reads w).mp ht
    exact Option.some.inj (hheld.symm.trans (((hinv.fits u).reads w).mp hu))
  · have hheld := ((hinv.fits t).writes w).mp ht
    exact Option.some.inj (hheld.symm.trans (((hinv.fits u).writes w).mp hu))
  · have hfollows := hinv.follows_run hrest
    exact ⟨hfollows.closed w hw, hfollows.frames w hw⟩

/-- A task keeps a connection and fails to read, another one writes meanwhile, and `close` waits
for both. -/
def closedRun : List Event :=
  [.connect 0, .opened 0 false, .authenticated 0, .recv 0, .takeRead 0, .send 1 [7] false,
    .takeWrite 1, .beginClose 2, .drained 1, .finish 1, .readFailed 0, .readClosed 0, .finish 0,
    .tasksDrained 2, .connectionClosed 2]

theorem sockets_accounted_closed : ∃ s, Machine.run (step ⟨true, true, 4⟩) {} closedRun = some s ∧
    s.opened = 1 ∧ s.wrote = [(0, [7])] ∧ s.kept.length ≤ 1 ∧ Accounted s 0 := by
  refine ⟨_, rfl, rfl, rfl, ?_, ?_⟩
  · exact (sockets_accounted ⟨true, true, 4⟩ closedRun _ rfl).1
  · exact (sockets_accounted ⟨true, true, 4⟩ closedRun _ rfl).2.1 0 Nat.one_pos

/-- Once a `close` has returned, the transport has no connection, all of its sockets are closed,
and no task is in an operation. It opens no socket and writes nothing ever after. -/
theorem close_final (c : Config) (es : List Event) (s : State) (k : ℕ)
    (hrun : Machine.run (step c) {} es = some s) (hk : s.closers k = .returned) :
    Shut s ∧ ∀ rest s', Machine.run (step c) s rest = some s' →
      Shut s' ∧ s'.opened = s.opened ∧ s'.wrote = s.wrote := by
  have hinv := (inv_start c).run hrun
  have hok : Closer.Ok s .returned := hk ▸ hinv.closers k
  refine ⟨hinv.shut hok, fun rest s' hrest => ?_⟩
  have hfollows := hinv.follows_run hrest
  exact ⟨(hinv.run hrest).shut (hok.follows hfollows), hfollows.quiet hok.1 hok.2.1⟩

theorem close_final_waited : ∃ s, Machine.run (step ⟨true, true, 4⟩) {} closedRun = some s ∧
    s.closers 2 = .returned ∧ s.closed 0 = true ∧ (s.tasks 0).tracked = false := by
  refine ⟨_, rfl, rfl, ?_, ?_⟩
  · exact (close_final ⟨true, true, 4⟩ closedRun _ 2 rfl rfl).1.sockets 0 Nat.one_pos
  · exact (close_final ⟨true, true, 4⟩ closedRun _ 2 rfl rfl).1.tasks 0

end WireRpc.TcpClient
