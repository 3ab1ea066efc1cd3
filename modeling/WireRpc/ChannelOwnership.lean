import WireRpc.ClientChannel
import WireRpc.Library.Machine

/-!
# Channel ownership

An exchange that has the call lock is alone with the transport. A failure closes
the client before the lock is free again, and a task that only waits can leave
without a trace.
-/
namespace WireRpc.ClientChannel
open Library Client

variable {α : Type}

/-- At most one exchange has the channel, the last ones in the history are its own, and
after a failure nobody uses the transport. -/
structure Inv (s : State α) : Prop where
  turns : Grouped (s.io.map Prod.fst)
  last : ∀ k, s.lock = some k → EndsWith (s.io.map Prod.fst) k
  fresh : ∀ k, s.phases k = .absent ∨ s.phases k = .waiting → k ∉ s.io.map Prod.fst
  holder : ∀ k, (s.phases k).holds = true → s.lock = some k
  failed : ∀ k, (s.phases k).failed = true → s.closed = true ∧ ∀ j, (s.phases j).active = false

section
variable {s : State α} {k : ℕ}

theorem Phase.holds_of_active {p : Phase} (h : p.active = true) : p.holds = true := by
  cases p <;> first | rfl | cases h

/-- It is the task's turn: it has the channel, or it gets it while the client is open. -/
def MyTurn (s : State α) (k : ℕ) : Prop :=
  (s.phases k).active = true ∨ s.phases k = .aborting ∨
    (s.phases k = .waiting ∧ s.lock = none ∧ s.closed = false)

theorem Inv.last_of_turn (h : Inv s) (hturn : MyTurn s k) : EndsWith (s.io.map Prod.fst) k := by
  obtain hactive | hab | ⟨hwait, -, -⟩ := hturn
  · exact h.last k (h.holder k (Phase.holds_of_active hactive))
  · exact h.last k (h.holder k (by rw [hab]; rfl))
  · exact endsWith_of_notMem (h.fresh k (.inr hwait))

/-- While it is the task's turn no other task has the channel. -/
theorem Inv.alone (h : Inv s) (hturn : MyTurn s k) (j : ℕ) (hj : j ≠ k) :
    (s.phases j).holds = false := by
  cases hheld : (s.phases j).holds with
  | false => rfl
  | true =>
    have hlock := h.holder j hheld
    obtain hactive | hab | ⟨-, hfree, -⟩ := hturn
    · rw [h.holder k (Phase.holds_of_active hactive)] at hlock
      exact absurd (Option.some.inj hlock).symm hj
    · rw [h.holder k (by rw [hab]; rfl)] at hlock
      exact absurd (Option.some.inj hlock).symm hj
    · cases hfree.symm.trans hlock

/-- Entries of one task keep the history grouped. -/
theorem grouped_append {ids : List ℕ} (h : Grouped ids) (hlast : EndsWith ids k) (io : List Io) :
    Grouped (ids ++ (io.map (k, ·)).map Prod.fst) ∧
      EndsWith (ids ++ (io.map (k, ·)).map Prod.fst) k := by
  induction io generalizing ids with
  | nil => simpa using ⟨h, hlast⟩
  | cons x io ih =>
    have hrest := ih (h.concat hlast) hlast.concat
    simpa using hrest

/-- The task whose turn it is moves on. It closes the client when it fails. -/
theorem Inv.advance (h : Inv s) (hturn : MyTurn s k) (phase : Phase) (io : List Io) {closed : Bool}
    (hphase : phase ≠ .absent ∧ phase ≠ .waiting)
    (hactive : phase.active = true → s.phases k ≠ .aborting)
    (hfailed : phase.failed = true → closed = true) (hclosed : s.closed = true → closed = true) :
    Inv { advance s k phase io with closed := closed } := by
  obtain ⟨hgrouped, hends⟩ := grouped_append h.turns (h.last_of_turn hturn) io
  have hids : (s.io ++ io.map (k, ·)).map Prod.fst =
      s.io.map Prod.fst ++ (io.map (k, ·)).map Prod.fst := List.map_append
  have hother : ∀ j, j ≠ k → Function.update s.phases k phase j = s.phases j :=
    fun j hj => Function.update_of_ne hj ..
  exact {
    turns := hids ▸ hgrouped
    last := by
      intro j hj
      show EndsWith ((s.io ++ io.map (k, ·)).map Prod.fst) j
      have hjk : phase.holds = true ∧ k = j := by
        simpa [WireRpc.ClientChannel.advance] using hj
      rw [hids, ← hjk.2]
      exact hends
    fresh := by
      intro j hj
      show j ∉ (s.io ++ io.map (k, ·)).map Prod.fst
      have hjk : j ≠ k := by
        rintro rfl
        change Function.update s.phases j phase j = _ ∨ Function.update s.phases j phase j = _ at hj
        rw [Function.update_self] at hj
        exact hj.elim hphase.1 hphase.2
      change Function.update s.phases k phase j = _ ∨ Function.update s.phases k phase j = _ at hj
      rw [hother j hjk] at hj
      simp only [List.map_append, List.map_map, List.mem_append, List.mem_map, Function.comp_apply,
        not_or]
      exact ⟨by simpa using h.fresh j hj, fun ⟨_, _, heq⟩ => hjk heq.symm⟩
    holder := by
      intro j hj
      show (if phase.holds then some k else none) = some j
      change (Function.update s.phases k phase j).holds = true at hj
      by_cases hjk : j = k
      · subst j
        rw [Function.update_self] at hj
        rw [if_pos hj]
      · rw [hother j hjk, h.alone hturn j hjk] at hj
        cases hj
    failed := by
      intro j hj
      change (Function.update s.phases k phase j).failed = true at hj
      have hquiet : ∀ i, i ≠ k → (Function.update s.phases k phase i).active = false := by
        intro i hi
        rw [hother i hi]
        cases hact : (s.phases i).active with
        | false => rfl
        | true =>
          have halone := h.alone hturn i hi
          rw [Phase.holds_of_active hact] at halone
          cases halone
      have hall : phase.active = false →
          ∀ i, (Function.update s.phases k phase i).active = false := by
        intro hinactive i
        by_cases hi : i = k
        · rw [hi, Function.update_self, hinactive]
        · exact hquiet i hi
      by_cases hjk : j = k
      · subst j
        rw [Function.update_self] at hj
        refine ⟨hfailed hj, hall ?_⟩
        cases phase <;> first | rfl | cases hj
      · rw [hother j hjk] at hj
        obtain ⟨hshut, hinactive⟩ := h.failed j hj
        refine ⟨hclosed hshut, hall ?_⟩
        cases hact : phase.active with
        | false => rfl
        | true =>
          obtain hk | hk | ⟨-, -, hopen⟩ := hturn
          · rw [hinactive k] at hk
            cases hk
          · exact absurd hk (hactive hact)
          · rw [hshut] at hopen
            cases hopen }

/-- A task without the channel changes its phase, or the client closes. -/
theorem Inv.aside (h : Inv s) {s' : State α} (hlock : s'.lock = s.lock) (hio : s'.io = s.io)
    (hclosed : s.closed = true → s'.closed = true)
    (hphases : ∀ j, s'.phases j = s.phases j ∨ (s'.phases j).holds = false ∧
      (s'.phases j).failed = false ∧
      (s'.phases j = .absent ∨ s'.phases j = .waiting → s.phases j = .absent)) : Inv s' where
  turns := hio ▸ h.turns
  last := hlock ▸ hio ▸ h.last
  fresh := by
    intro j hj
    rw [hio]
    obtain hsame | ⟨-, -, hbefore⟩ := hphases j
    · exact h.fresh j (hsame ▸ hj)
    · exact h.fresh j (.inl (hbefore hj))
  holder := by
    intro j hj
    rw [hlock]
    obtain hsame | ⟨hfree, -⟩ := hphases j
    · exact h.holder j (hsame ▸ hj)
    · rw [hfree] at hj
      cases hj
  failed := by
    intro j hj
    obtain hsame | ⟨-, hnot, -⟩ := hphases j
    · obtain ⟨hshut, hinactive⟩ := h.failed j (hsame ▸ hj)
      refine ⟨hclosed hshut, fun i => ?_⟩
      obtain hi | ⟨hfree, -⟩ := hphases i
      · rw [hi]
        exact hinactive i
      · cases hact : (s'.phases i).active with
        | false => rfl
        | true =>
          rw [Phase.holds_of_active hact] at hfree
          cases hfree
    · rw [hnot] at hj
      cases hj

theorem Inv.withdraw (h : Inv s) {outcome : Outcome} (houtcome : outcome ≠ .failed) :
    Inv (withdraw s k outcome) := by
  refine h.aside rfl rfl id fun j => ?_
  by_cases hj : j = k
  · subst j
    have hself : (WireRpc.ClientChannel.withdraw s k outcome).phases k = .over outcome :=
      Function.update_self ..
    rw [hself]
    refine .inr ⟨rfl, ?_, fun hor => ?_⟩
    · cases outcome <;> first | rfl | exact absurd rfl houtcome
    · obtain hover | hover := hor <;> cases hover
  · exact .inl (Function.update_of_ne hj ..)

theorem inv_start : Inv (start : State α) where
  turns := grouped_nil
  last := by simp [start]
  fresh := by simp [start]
  holder := by simp [start, Phase.holds, Phase.active]
  failed := by simp [start, Phase.failed]

end

variable {c : Config} {s s' : State α}

/-- What becomes of the messages among the entries of `k`. -/
def handovers (c : Config) (s : State α) (k : ℕ) (io : List Io) : List (ℕ × Notification) :=
  (io.map (k, ·)).filterMap (handover c s.exchanges)

/-- The task whose turn it is goes from one await to the next. -/
structure Advance (c : Config) (s : State α) (k : ℕ) (phase : Phase) (io : List Io)
    (s' : State α) : Prop where
  turn : MyTurn s k
  phase_ne : phase ≠ .absent ∧ phase ≠ .waiting
  aborting : s.phases k = .aborting → phase.active = false ∧ io = []
  closes : phase.failed = true → s'.closed = true
  closed : s.closed = true → s'.closed = true
  lock_eq : s'.lock = (advance s k phase io).lock
  phases_eq : s'.phases = (advance s k phase io).phases
  io_eq : s'.io = (advance s k phase io).io
  exchanges_eq : s'.exchanges = s.exchanges
  handed_eq : s'.handed = s.handed ++ handovers c s k io
  accepted : ∀ p ∈ s'.accepted, p ∈ s.accepted ∨ notice c.codec p.2 = none

inductive Moves (c : Config) (s : State α) : State α → Prop
  | begun (k : ℕ) (exchange : Exchange α) (hk : s.phases k = .absent) :
      Moves c s { s with
        exchanges := Function.update s.exchanges k (some exchange)
        phases := Function.update s.phases k .waiting }
  | withdrew (k : ℕ) (outcome : Outcome) (houtcome : outcome ≠ .failed) :
      Moves c s (withdraw s k outcome)
  | shut : Moves c s { s with closed := true }
  | advanced (k : ℕ) (phase : Phase) (io : List Io) {s' : State α}
      (h : Advance c s k phase io s') : Moves c s s'

section
variable {k : ℕ} {phase : Phase} {io : List Io}

/-- Entries without a message hand nothing over. -/
theorem handovers_of_no_message (h : ∀ data, .received data ∉ io) : handovers c s k io = [] := by
  unfold handovers
  rw [List.filterMap_eq_nil_iff]
  intro p hp
  obtain ⟨x, hx, rfl⟩ := List.mem_map.mp hp
  cases x with
  | received data => exact absurd hx (h data)
  | _ => rfl

theorem advance_quiet (hturn : MyTurn s k) (hphase : phase ≠ .absent ∧ phase ≠ .waiting)
    (haborting : s.phases k = .aborting → phase.active = false ∧ io = [])
    (hfailed : phase.failed = true → s.closed = true) (hio : ∀ data, .received data ∉ io) :
    Advance c s k phase io (advance s k phase io) where
  turn := hturn
  phase_ne := hphase
  aborting := haborting
  closes := hfailed
  closed := id
  lock_eq := rfl
  phases_eq := rfl
  io_eq := rfl
  exchanges_eq := rfl
  handed_eq := by
    rw [handovers_of_no_message hio, List.append_nil]
    rfl
  accepted := fun _ hp => .inl hp

/-- A message read from the transport. -/
theorem advance_received {data : Bytes} (hphase : s.phases k = .receiving)
    (hne : phase ≠ .absent ∧ phase ≠ .waiting) (hio : io = [] ∨ io = [.recv])
    (hs' : s'.lock = (advance s k phase (.received data :: io)).lock ∧
      s'.phases = (advance s k phase (.received data :: io)).phases ∧
      s'.io = (advance s k phase (.received data :: io)).io ∧ s'.exchanges = s.exchanges)
    (hcloses : phase.failed = true → s'.closed = true)
    (hclosed : s.closed = true → s'.closed = true)
    (hhanded : s'.handed = s.handed ++ (handover c s.exchanges (k, .received data)).toList)
    (haccepted : ∀ p ∈ s'.accepted, p ∈ s.accepted ∨ notice c.codec p.2 = none) :
    Advance c s k phase (.received data :: io) s' where
  turn := .inl (by rw [hphase]; rfl)
  phase_ne := hne
  aborting := by
    rw [hphase]
    exact nofun
  closes := hcloses
  closed := hclosed
  lock_eq := hs'.1
  phases_eq := hs'.2.1
  io_eq := hs'.2.2.1
  exchanges_eq := hs'.2.2.2
  handed_eq := by
    have hrest : handovers c s k io = [] := by
      apply handovers_of_no_message
      obtain rfl | rfl := hio <;> simp
    have hcons : handovers c s k (.received data :: io) =
        (handover c s.exchanges (k, .received data)).toList ++ handovers c s k io := by
      unfold handovers
      rw [List.map_cons, List.filterMap_cons]
      cases handover c s.exchanges (k, .received data) <;> rfl
    rw [hhanded, hcons, hrest, List.append_nil]
  accepted := haccepted

theorem received_moves {exchange : Exchange α} {data : Bytes} (hphase : s.phases k = .receiving)
    (hexchange : s.exchanges k = some exchange) (h : received c s k data exchange = some s') :
    Moves c s s' := by
  cases exchange with
  | locked sent accept =>
    cases accept with
    | none => cases h
    | some accept =>
      have hlisten : (s.exchanges k).any Exchange.isReceive = false := by rw [hexchange]; rfl
      simp only [received] at h
      cases hread : readMessage c.codec accept data with
      | delivers n =>
        have hnotice := notice_of_delivers hread
        simp only [hread] at h
        split_ifs at h with hset <;> obtain rfl := Option.some.inj h
        · refine .advanced k .delivering _ (advance_received hphase ⟨nofun, nofun⟩ (.inl rfl)
            ⟨rfl, rfl, rfl, rfl⟩ nofun id ?_ (fun _ hp => .inl hp))
          simp [handover, hset, hnotice]
        · refine .advanced k .receiving _ (advance_received hphase ⟨nofun, nofun⟩ (.inr rfl)
            ⟨rfl, rfl, rfl, rfl⟩ nofun id ?_ (fun _ hp => .inl hp))
          simp [handover, hset, hlisten, advance]
      | returns r =>
        have hnotice := notice_of_returns hread
        have hnone : handover c s.exchanges (k, .received data) = none := by
          simp [handover, hnotice]
        simp only [hread] at h
        cases r with
        | ok v =>
          obtain rfl := Option.some.inj h
          refine .advanced k (.over .returned) _ (advance_received hphase ⟨nofun, nofun⟩ (.inl rfl)
            ⟨rfl, rfl, rfl, rfl⟩ nofun id ?_ (fun p hp => ?_))
          · simp [hnone, advance]
          · obtain hp | hp := List.mem_append.mp hp
            · exact .inl hp
            · rw [List.mem_singleton.mp hp]
              exact .inr hnotice
        | error e =>
          obtain rfl := Option.some.inj h
          refine .advanced k .aborting _ (advance_received hphase ⟨nofun, nofun⟩ (.inl rfl)
            ⟨rfl, rfl, rfl, rfl⟩ (fun _ => rfl) (fun _ => rfl) ?_ (fun _ hp => .inl hp))
          simp [hnone, advance, abort]
  | receiveNotification =>
    have hlisten : (s.exchanges k).any Exchange.isReceive = true := by rw [hexchange]; rfl
    have hnotice := notice_eq_toOption c.codec data
    simp only [received] at h
    cases hread : receiveNotification c.codec data with
    | ok n =>
      simp only [hread] at h
      obtain rfl := Option.some.inj h
      refine .advanced k (.over .returned) _ (advance_received hphase ⟨nofun, nofun⟩ (.inl rfl)
        ⟨rfl, rfl, rfl, rfl⟩ nofun id ?_ (fun _ hp => .inl hp))
      simp [handover, hlisten, hnotice, hread, Except.toOption]
    | error e =>
      simp only [hread] at h
      obtain rfl := Option.some.inj h
      refine .advanced k .aborting _ (advance_received hphase ⟨nofun, nofun⟩ (.inl rfl)
        ⟨rfl, rfl, rfl, rfl⟩ (fun _ => rfl) (fun _ => rfl) ?_ (fun _ hp => .inl hp))
      simp [handover, hnotice, hread, advance, abort, Except.toOption]

theorem step_moves {event : Event α} (hinv : Inv s) (h : step c s event = some s') :
    Moves c s s' := by
  cases event with
  | begin k exchange =>
    simp only [step] at h
    split at h
    · exact Option.some.inj h ▸ .begun k exchange ‹_›
    · cases h
  | acquire k =>
    simp only [step] at h
    split at h
    · rename_i exchange hwait hlock _
      split_ifs at h with hclosed
      · exact Option.some.inj h ▸ .withdrew k .refused nofun
      · have hturn : MyTurn s k := .inr (.inr ⟨hwait, hlock, Bool.eq_false_iff.mpr hclosed⟩)
        cases exchange with
        | locked data accept =>
          obtain rfl := Option.some.inj h
          exact .advanced k .sending _ (advance_quiet hturn ⟨nofun, nofun⟩ (by simp [hwait]) nofun
            (by simp))
        | receiveNotification =>
          obtain rfl := Option.some.inj h
          exact .advanced k .receiving _ (advance_quiet hturn ⟨nofun, nofun⟩ (by simp [hwait]) nofun
            (by simp))
    · cases h
  | sent k =>
    simp only [step] at h
    split at h
    · rename_i hphase _
      obtain rfl := Option.some.inj h
      exact .advanced k (.over .returned) _ (advance_quiet (.inl (by rw [hphase]; rfl))
        ⟨nofun, nofun⟩ (by simp [hphase]) nofun (by simp))
    · rename_i hphase _
      obtain rfl := Option.some.inj h
      exact .advanced k .receiving _ (advance_quiet (.inl (by rw [hphase]; rfl))
        ⟨nofun, nofun⟩ (by simp [hphase]) nofun (by simp))
    · cases h
  | received k data =>
    simp only [step] at h
    split at h
    · obtain ⟨exchange, hexchange, hreceived⟩ := Option.bind_eq_some_iff.mp h
      exact received_moves ‹_› hexchange hreceived
    · cases h
  | delivered k =>
    simp only [step] at h
    split at h
    · rename_i hphase
      obtain rfl := Option.some.inj h
      exact .advanced k .receiving _ (advance_quiet (.inl (by rw [hphase]; rfl))
        ⟨nofun, nofun⟩ (by simp [hphase]) nofun (by simp))
    · cases h
  | fail k =>
    simp only [step] at h
    split_ifs at h with hactive
    obtain rfl := Option.some.inj h
    have hquiet : Advance c s k .aborting [] { advance s k .aborting [] with closed := true } :=
      { turn := .inl hactive
        phase_ne := ⟨nofun, nofun⟩
        aborting := fun _ => ⟨rfl, rfl⟩
        closes := fun _ => rfl
        closed := fun _ => rfl
        lock_eq := rfl
        phases_eq := rfl
        io_eq := rfl
        exchanges_eq := rfl
        handed_eq := (List.append_nil _).symm
        accepted := fun _ hp => .inl hp }
    exact .advanced k .aborting [] hquiet
  | aborted k =>
    simp only [step] at h
    split at h
    · rename_i hphase
      obtain rfl := Option.some.inj h
      have hshut := (hinv.failed k (by rw [hphase]; rfl)).1
      exact .advanced k (.over .failed) [] (advance_quiet (.inr (.inl hphase)) ⟨nofun, nofun⟩
        (fun _ => ⟨rfl, rfl⟩) (fun _ => hshut) (by simp))
    · cases h
  | cancel k =>
    simp only [step] at h
    split at h
    · exact Option.some.inj h ▸ .withdrew k .cancelled nofun
    · cases h
  | close => exact Option.some.inj h ▸ .shut

end

theorem Moves.inv (hm : Moves c s s') (h : Inv s) : Inv s' := by
  cases hm with
  | begun k exchange hk =>
    refine h.aside rfl rfl id fun j => ?_
    show Function.update s.phases k .waiting j = _ ∨ _
    by_cases hj : j = k
    · refine .inr ?_
      subst j
      show (Function.update s.phases k .waiting k).holds = false ∧
        (Function.update s.phases k .waiting k).failed = false ∧ _
      rw [Function.update_self]
      exact ⟨rfl, rfl, fun _ => hk⟩
    · exact .inl (Function.update_of_ne hj ..)
  | withdrew k outcome houtcome => exact h.withdraw houtcome
  | shut => exact h.aside rfl rfl (fun _ => rfl) (fun _ => .inl rfl)
  | advanced k phase io hadv =>
    have hmoved := h.advance hadv.turn phase io hadv.phase_ne
      (fun hactive hab => by simp [(hadv.aborting hab).1] at hactive) hadv.closes hadv.closed
    exact hmoved.aside hadv.lock_eq hadv.io_eq id fun j => .inl (congrFun hadv.phases_eq j)

theorem Moves.closed (hm : Moves c s s') (h : s.closed = true) : s'.closed = true := by
  cases hm with
  | shut => rfl
  | advanced k phase io hadv => exact hadv.closed h
  | _ => exact h

/-- The notifications read so far are those handed over. -/
structure Exact (c : Config) (s : State α) : Prop where
  handed : s.handed = s.io.filterMap (handover c s.exchanges)
  not_reply : ∀ p ∈ s.accepted, notice c.codec p.2 = none

/-- What was read before a task began does not depend on its exchange. -/
theorem filterMap_handover_update {exchange : Option (Exchange α)} {k : ℕ}
    {io : List (ℕ × Io)} (h : k ∉ io.map Prod.fst) :
    io.filterMap (handover c (Function.update s.exchanges k exchange)) =
      io.filterMap (handover c s.exchanges) := by
  apply List.filterMap_congr
  intro p hp
  have hne : p.1 ≠ k := by
    rintro rfl
    exact h (List.mem_map_of_mem hp)
  obtain ⟨j, x⟩ := p
  cases x with
  | received data => simp only [handover, Function.update_of_ne hne]
  | _ => rfl

theorem Moves.exact (hm : Moves c s s') (hinv : Inv s) (h : Exact c s) : Exact c s' := by
  cases hm with
  | begun k exchange hk =>
    refine ⟨?_, h.not_reply⟩
    show s.handed = s.io.filterMap (handover c (Function.update s.exchanges k (some exchange)))
    rw [filterMap_handover_update (hinv.fresh k (.inl hk))]
    exact h.handed
  | withdrew k outcome houtcome => exact ⟨h.handed, h.not_reply⟩
  | shut => exact ⟨h.handed, h.not_reply⟩
  | advanced k phase io hadv =>
    refine ⟨?_, fun p hp => (hadv.accepted p hp).elim (h.not_reply p) id⟩
    rw [hadv.handed_eq, hadv.io_eq, hadv.exchanges_eq, h.handed]
    exact List.filterMap_append.symm

/-- The client is closed and no exchange uses the transport. -/
def Quiet (s : State α) : Prop := s.closed = true ∧ ∀ j, (s.phases j).active = false

/-- Then no exchange will use it again. -/
theorem Moves.quiet (hm : Moves c s s') (h : Quiet s) : Quiet s' ∧ s'.io = s.io := by
  obtain ⟨hclosed, hinactive⟩ := h
  have hupdate : ∀ k (phase : Phase), phase.active = false →
      ∀ j, (Function.update s.phases k phase j).active = false := by
    intro k phase hphase j
    by_cases hj : j = k
    · rw [hj, Function.update_self, hphase]
    · rw [Function.update_of_ne hj]
      exact hinactive j
  cases hm with
  | begun k exchange hk => exact ⟨⟨hclosed, hupdate k _ rfl⟩, rfl⟩
  | withdrew k outcome houtcome => exact ⟨⟨hclosed, hupdate k _ rfl⟩, rfl⟩
  | shut => exact ⟨⟨rfl, hinactive⟩, rfl⟩
  | advanced k phase io hadv =>
    have hab : s.phases k = .aborting := by
      obtain hk | hk | ⟨-, -, hopen⟩ := hadv.turn
      · rw [hinactive k] at hk
        cases hk
      · exact hk
      · rw [hclosed] at hopen
        cases hopen
    obtain ⟨hphase, rfl⟩ := hadv.aborting hab
    refine ⟨⟨hadv.closed hclosed, ?_⟩, ?_⟩
    · rw [hadv.phases_eq]
      exact hupdate k phase hphase
    · rw [hadv.io_eq]
      exact List.append_nil _

theorem advance_withdraw {k j : ℕ} (hj : j ≠ k) (phase : Phase) (io : List Io) (outcome : Outcome) :
    advance (withdraw s k outcome) j phase io = withdraw (advance s j phase io) k outcome := by
  unfold advance withdraw
  simp only [State.mk.injEq, true_and, and_true]
  exact Function.update_comm hj.symm ..

theorem withdraw_phases {k j : ℕ} (hj : j ≠ k) (outcome : Outcome) :
    (withdraw s k outcome).phases j = s.phases j := Function.update_of_ne hj ..

theorem received_withdraw {k j : ℕ} (hj : j ≠ k) (outcome : Outcome) (data : Bytes)
    (exchange : Exchange α) : received c (withdraw s k outcome) j data exchange =
      (received c s j data exchange).map (withdraw · k outcome) := by
  have hadvance := fun phase io => advance_withdraw (s := s) hj phase io outcome
  cases exchange with
  | locked sent accept =>
    cases accept with
    | none => rfl
    | some accept =>
      simp only [received]
      cases readMessage c.codec accept data with
      | delivers n =>
        simp only [hadvance]
        split_ifs <;> rfl
      | returns r => cases r <;> simp only [abort, hadvance] <;> rfl
  | receiveNotification =>
    simp only [received]
    cases receiveNotification c.codec data <;> simp only [abort, hadvance] <;> rfl

theorem withdraw_comm {k j : ℕ} (hj : j ≠ k) (outcome outcome' : Outcome) :
    withdraw (withdraw s k outcome) j outcome' = withdraw (withdraw s j outcome') k outcome := by
  simp only [withdraw, State.mk.injEq, true_and, and_true]
  exact Function.update_comm hj.symm ..

/-- The step of another task does not see that the task is gone. -/
theorem step_withdraw {k : ℕ} {event : Event α} (hk : event.task ≠ some k) (outcome : Outcome) :
    step c (withdraw s k outcome) event = (step c s event).map (withdraw · k outcome) := by
  have hlock : (withdraw s k outcome).lock = s.lock := rfl
  have hclosed : (withdraw s k outcome).closed = s.closed := rfl
  have hexchanges : (withdraw s k outcome).exchanges = s.exchanges := rfl
  cases event with
  | begin j exchange =>
    have hj : j ≠ k := fun hjk => hk (congrArg some hjk)
    simp only [step, withdraw_phases hj]
    split
    · simp only [withdraw, Option.map_some, Option.some.injEq, State.mk.injEq, true_and, and_true]
      exact Function.update_comm hj.symm ..
    · rfl
  | acquire j =>
    have hj : j ≠ k := fun hjk => hk (congrArg some hjk)
    simp only [step, withdraw_phases hj, hlock, hclosed, hexchanges]
    split
    · split_ifs
      · exact congrArg some (withdraw_comm hj outcome .refused)
      · split <;> exact congrArg some (advance_withdraw hj _ _ outcome)
    · rfl
  | sent j =>
    have hj : j ≠ k := fun hjk => hk (congrArg some hjk)
    simp only [step, withdraw_phases hj, hexchanges]
    split
    · exact congrArg some (advance_withdraw hj _ _ outcome)
    · exact congrArg some (advance_withdraw hj _ _ outcome)
    · rfl
  | received j data =>
    have hj : j ≠ k := fun hjk => hk (congrArg some hjk)
    simp only [step, withdraw_phases hj, hexchanges]
    split
    · cases s.exchanges j with
      | none => rfl
      | some exchange => exact received_withdraw hj outcome data exchange
    · rfl
  | delivered j =>
    have hj : j ≠ k := fun hjk => hk (congrArg some hjk)
    simp only [step, withdraw_phases hj]
    split
    · exact congrArg some (advance_withdraw hj _ _ outcome)
    · rfl
  | fail j =>
    have hj : j ≠ k := fun hjk => hk (congrArg some hjk)
    simp only [step, withdraw_phases hj, abort, advance_withdraw hj]
    split_ifs <;> rfl
  | aborted j =>
    have hj : j ≠ k := fun hjk => hk (congrArg some hjk)
    simp only [step, withdraw_phases hj]
    split
    · exact congrArg some (advance_withdraw hj _ _ outcome)
    · rfl
  | cancel j =>
    have hj : j ≠ k := fun hjk => hk (congrArg some hjk)
    simp only [step, withdraw_phases hj]
    split
    · exact congrArg some (withdraw_comm hj outcome .cancelled)
    · rfl
  | close => rfl

/-- The other tasks run on as if the task had never waited. -/
theorem run_withdraw {k : ℕ} {es : List (Event α)} (hk : ∀ e ∈ es, e.task ≠ some k)
    (outcome : Outcome) (s : State α) : Machine.run (step c) (withdraw s k outcome) es =
      (Machine.run (step c) s es).map (withdraw · k outcome) := by
  induction es generalizing s with
  | nil => rfl
  | cons e es ih =>
    rw [Machine.run_cons, Machine.run_cons, step_withdraw (hk e List.mem_cons_self)]
    cases step c s e with
    | none => rfl
    | some t => exact ih (fun e he => hk e (List.mem_cons_of_mem _ he)) t

theorem inv_exact_run {es : List (Event α)} (hrun : Machine.run (step c) start es = some s) :
    Inv s ∧ Exact c s := by
  refine Machine.invariant (P := fun s => Inv s ∧ Exact c s) (fun t e t' ht hstep => ?_)
    ⟨inv_start, by simp [start], by simp [start]⟩ hrun
  have hmoves := step_moves ht.1 hstep
  exact ⟨hmoves.inv ht.1, hmoves.exact ht.1 ht.2⟩

/-- In every interleaving exchanges take turns with the transport and notifications
are handed over. After an exchange with the channel has failed, nobody uses the
transport. A waiting task that is cancelled leaves no trace with the others. -/
theorem channel_owned (c : Config) (es : List (Event α)) (s : State α)
    (hrun : Machine.run (step c) start es = some s) :
    Owned c s ∧
    (∀ k, (s.phases k).failed = true →
      ∀ fs s', Machine.run (step c) s fs = some s' → s'.closed = true ∧ s'.io = s.io) ∧
    (∀ k t, s.phases k = .waiting → step c s (.cancel k) = some t →
      t.closed = s.closed ∧ ∀ fs : List (Event α), (∀ e ∈ fs, e.task ≠ some k) →
        Machine.run (step c) t fs =
          (Machine.run (step c) s fs).map (withdraw · k .cancelled)) := by
  obtain ⟨hinv, hexact⟩ := inv_exact_run hrun
  refine ⟨⟨hinv.turns, hexact.handed, hexact.not_reply⟩, fun k hk fs s' hrest => ?_,
    fun k t hk hcancel => ?_⟩
  · have hend : Inv s' ∧ Quiet s' ∧ s'.io = s.io := by
      refine Machine.invariant (P := fun t => Inv t ∧ Quiet t ∧ t.io = s.io)
        (fun t e t' ht hstep => ?_) ⟨hinv, hinv.failed k hk, rfl⟩ hrest
      have hmoves := step_moves ht.1 hstep
      obtain ⟨hquiet, hio⟩ := hmoves.quiet ht.2.1
      exact ⟨hmoves.inv ht.1, hquiet, hio.trans ht.2.2⟩
    exact ⟨hend.2.1.1, hend.2.2⟩
  · simp only [step, hk, Option.some.injEq] at hcancel
    subst hcancel
    exact ⟨rfl, fun fs hfs => run_withdraw hfs .cancelled s⟩

/-- Task 1 waits while task 0 is in its exchange and task 2 is cancelled. A deadline
ends task 0, and task 1 is refused. -/
def overlapping : List (Event Unit) :=
  [.begin 0 (.locked [1] (some fun _ => .ok ())), .acquire 0, .begin 1 (.locked [2] none),
    .begin 2 .receiveNotification, .sent 0, .cancel 2, .fail 0, .aborted 0, .acquire 1]

theorem channel_owned_overlapping : ∃ s : State Unit,
    Machine.run (step ⟨msgSpecJsonCodec, true⟩) start overlapping = some s ∧
      s.io = [(0, .send [1]), (0, .sent), (0, .recv)] ∧ s.phases 1 = .over .refused ∧
      Owned ⟨msgSpecJsonCodec, true⟩ s :=
  ⟨_, rfl, rfl, rfl, (channel_owned ⟨msgSpecJsonCodec, true⟩ overlapping _ rfl).1⟩

end WireRpc.ClientChannel
