import WireRpc.HttpClient

/-!
# Sending and receiving in turn over HTTP

When a `recv` or a `close` begins only after the one before has ended, as under the lock of
a client, each body is the whole body of the response to the last message.
-/
namespace WireRpc.HttpClient
open Library

/-- A `recv` or a `close` is at its await. -/
def Busy : Call → Prop
  | .reading .. => True
  | .closing _ => True
  | _ => False

/-- No `recv` or `close` begins while another one is at its await. -/
def Exclusive (s : State) : Event → Prop
  | .recv _ | .close _ => ∀ k, ¬ Busy (s.calls k)
  | _ => True

/-- The responses that `send` has returned for. -/
def sentIds (log : List Entry) : List ℕ :=
  log.filterMap fun
    | .accepted n | .held n => some n
    | _ => none

/-- A body is returned right after its own response was held, whole and within the limit. The
responses are in the order of the messages, and none is lost. -/
structure InOrder (maxBodySize : ℕ) (s : State) : Prop where
  follows : AtEach (fun before entry _ => ∀ n body, entry = .returned n body →
    ∃ earlier, before = earlier ++ [.held n]) s.log
  whole : ∀ n body, .returned n body ∈ s.log →
    body = s.delivered n ∧ body.length ≤ maxBodySize
  increasing : (sentIds s.log).Pairwise (· < ·)
  accounted : Accounted s

structure Alternates (maxBodySize : ℕ) (s : State) : Prop where
  alone : ∀ k j, Busy (s.calls k) → Busy (s.calls j) → k = j
  reading : ∀ k n body, s.calls k = .reading n body →
    s.pending = some n ∧ body = s.delivered n ∧ body.length ≤ maxBodySize
  closing : ∀ k i, s.calls k = .closing i → s.session = some i
  held : ∀ n, s.pending = some n → ∃ earlier, s.log = earlier ++ [.held n]
  fresh : ∀ n, s.pending = some n → (∀ k body, s.calls k ≠ .reading n body) →
    s.delivered n = []
  untouched : ∀ n, s.responses ≤ n → s.delivered n = []
  returned : ∀ n body, .returned n body ∈ s.log → body = s.delivered n ∧
    body.length ≤ maxBodySize ∧ n < s.responses ∧ s.pending ≠ some n
  follows : AtEach (fun before entry _ => ∀ n body, entry = .returned n body →
    ∃ earlier, before = earlier ++ [.held n]) s.log
  increasing : (sentIds s.log).Pairwise (· < ·)
  sent_lt : ∀ n ∈ sentIds s.log, n < s.responses

section
variable {maxBodySize : ℕ} {s s' : State} {e : Event} {k : ℕ}

theorem alternates_start (maxBodySize : ℕ) : Alternates maxBodySize start where
  alone _ _ h := h.elim
  reading _ _ _ h := nomatch h
  closing _ _ h := nomatch h
  held _ h := nomatch h
  fresh _ h := nomatch h
  untouched _ _ := rfl
  returned _ _ h := nomatch h
  follows := atEach_nil _
  increasing := List.Pairwise.nil
  sent_lt _ h := nomatch h

theorem Alternates.accounted_spares (h : Alternates maxBodySize s) (e : Event) :
    Spares maxBodySize s e := by
  refine ⟨fun k n m hr hm => .inl ?_, fun k i j he hk hj => .inl ?_⟩
  · have hreading : ∃ body, s.calls k = .reading n body := by
      cases e with
      | chunk j data =>
        simp only [releases] at hr
        split at hr
        case h_2 => cases hr
        rename_i n' body hj
        split_ifs at hr
        cases hr
        exact ⟨body, hj⟩
      | eof j | readFailed j =>
        simp only [releases] at hr
        split at hr
        case h_2 => cases hr
        rename_i n' body hj
        cases hr
        exact ⟨body, hj⟩
      | _ => cases hr
    obtain ⟨body, hk⟩ := hreading
    obtain ⟨hpending, -⟩ := h.reading k n body hk
    exact Option.some.inj (hm.symm.trans hpending)
  · exact Option.some.inj (hj.symm.trans (h.closing k i hk))

/-- A call goes on that awaits neither a body nor the end of a session. -/
theorem Alternates.goOn (h : Alternates maxBodySize s) {call : Call} (hcall : ¬ Busy call)
    (hk : ∀ n body, s.calls k ≠ .reading n body) : Alternates maxBodySize (setCall s k call) := by
  have hbusy : ∀ j, Busy ((setCall s k call).calls j) → Busy (s.calls j) := by
    intro j hj
    by_cases hjk : j = k
    · subst hjk
      rw [show (setCall s j call).calls j = call from Function.update_self ..] at hj
      exact absurd hj hcall
    · rwa [show (setCall s k call).calls j = s.calls j from Function.update_of_ne hjk ..] at hj
  have hold : ∀ j call', Busy call' → (setCall s k call).calls j = call' → s.calls j = call' := by
    intro j call' hbusy' hj
    obtain ⟨-, rfl⟩ | ⟨-, hj⟩ := update_call hj
    · exact absurd hbusy' hcall
    · exact hj
  exact { h with
    alone := fun i j hi hj => h.alone i j (hbusy i hi) (hbusy j hj)
    reading := fun j n body hj => h.reading j n body (hold j _ trivial hj)
    closing := fun j i hj => h.closing j i (hold j _ trivial hj)
    fresh := fun n hn hnone => by
      refine h.fresh n hn fun j body hj => ?_
      have hjk : j ≠ k := by
        rintro rfl
        exact hk n body hj
      exact hnone j body ((Function.update_of_ne hjk ..).trans hj) }

theorem Alternates.others (h : Alternates maxBodySize s) {n : ℕ} {body : Bytes}
    (hk : s.calls k = .reading n body) (j : ℕ) (hjk : j ≠ k) : ¬ Busy (s.calls j) := by
  intro hj
  have hbusy : Busy (s.calls k) := by
    rw [hk]
    trivial
  exact hjk (h.alone j k hj hbusy)

/-- A response is dropped when nobody else is at its await. -/
theorem Alternates.release (h : Alternates maxBodySize s) {n : ℕ}
    (hpending : s.pending = some n) (hn : n < s.responses)
    (hothers : ∀ j, j ≠ k → ¬ Busy (s.calls j)) {delivered : ℕ → Bytes}
    (hdelivered : ∀ m, m ≠ n → delivered m = s.delivered m) :
    Alternates maxBodySize { release s k n with delivered := delivered } := by
  have hnone : ∀ j, ¬ Busy ((HttpClient.release s k n).calls j) := by
    intro j hj
    by_cases hjk : j = k
    · subst hjk
      rw [show (HttpClient.release s j n).calls j = .ended from Function.update_self ..] at hj
      exact hj
    · rw [show (HttpClient.release s k n).calls j = s.calls j from
        Function.update_of_ne hjk ..] at hj
      exact hothers j hjk hj
  exact {
    alone := fun i j hi => absurd hi (hnone i)
    reading := fun j m body hj => by
      refine absurd ?_ (hnone j)
      rw [show (HttpClient.release s k n).calls j = _ from hj]
      trivial
    closing := fun j i hj => by
      refine absurd ?_ (hnone j)
      rw [show (HttpClient.release s k n).calls j = _ from hj]
      trivial
    held := fun _ hm => nomatch hm
    fresh := fun _ hm => nomatch hm
    untouched := fun m hm => by
      have hmn : m ≠ n := by
        rintro rfl
        exact absurd hn (Nat.not_lt.mpr hm)
      exact (hdelivered m hmn).trans (h.untouched m hm)
    returned := fun m body hm => by
      obtain ⟨hbody, hsize, hlt, hne⟩ := h.returned m body hm
      have hmn : m ≠ n := by
        rintro rfl
        exact hne hpending
      exact ⟨hbody.trans (hdelivered m hmn).symm, hsize, hlt, nofun⟩
    follows := h.follows
    increasing := h.increasing
    sent_lt := h.sent_lt }

/-- The body of the response that was held last is returned. -/
theorem Alternates.return (h : Alternates maxBodySize s) {n : ℕ} {body : Bytes}
    (hpending : s.pending = none) (hn : n < s.responses) (hbody : body = s.delivered n)
    (hsize : body.length ≤ maxBodySize) (hheld : ∃ earlier, s.log = earlier ++ [.held n]) :
    Alternates maxBodySize { s with log := s.log ++ [.returned n body] } := by
  have hsent : sentIds (s.log ++ [.returned n body]) = sentIds s.log := by
    simp [sentIds]
  exact { h with
    held := fun m hm => nomatch hpending.symm.trans hm
    returned := fun m body' hm => by
      obtain hm | hm := List.mem_append.mp hm
      · exact h.returned m body' hm
      · obtain ⟨rfl, rfl⟩ : m = n ∧ body' = body := by simpa using hm
        refine ⟨hbody, hsize, hn, fun hm => ?_⟩
        cases hpending.symm.trans hm
    follows := by
      refine AtEach.concat h.follows (fun _ _ _ _ hl => hl) fun m body' heq => ?_
      cases heq
      exact hheld
    increasing := by
      rw [hsent]
      exact h.increasing
    sent_lt := by
      rw [hsent]
      exact h.sent_lt }

/-- A POST that was answered is the last one. -/
theorem Alternates.logged (h : Alternates maxBodySize s) {entry : Entry}
    (hentry : entry = .accepted s.responses ∨ entry = .held s.responses) :
    (∀ m body, .returned m body ∈ s.log ++ [entry] → .returned m body ∈ s.log) ∧
    AtEach (fun before entry _ => ∀ n body, entry = .returned n body →
      ∃ earlier, before = earlier ++ [.held n]) (s.log ++ [entry]) ∧
    (sentIds (s.log ++ [entry])).Pairwise (· < ·) ∧
    ∀ n ∈ sentIds (s.log ++ [entry]), n < s.responses + 1 := by
  have hsent : sentIds (s.log ++ [entry]) = sentIds s.log ++ [s.responses] := by
    obtain rfl | rfl := hentry <;> simp [sentIds]
  have hne : ∀ n body, entry ≠ .returned n body := by
    obtain rfl | rfl := hentry <;> nofun
  refine ⟨fun m body hm => ?_, ?_, ?_, fun n hn => ?_⟩
  · obtain hm | hm := List.mem_append.mp hm
    · exact hm
    · exact absurd (List.mem_singleton.mp hm).symm (hne m body)
  · exact AtEach.concat h.follows (fun _ _ _ _ hl => hl) fun n body heq => absurd heq (hne n body)
  · rw [hsent, List.pairwise_append]
    refine ⟨h.increasing, List.pairwise_singleton _ _, fun m hm n hn => ?_⟩
    rw [List.mem_singleton.mp hn]
    exact h.sent_lt m hm
  · rw [hsent] at hn
    obtain hn | hn := List.mem_append.mp hn
    · exact (h.sent_lt n hn).trans (Nat.lt_succ_self _)
    · exact List.mem_singleton.mp hn ▸ Nat.lt_succ_self _

theorem Alternates.posted (h : Alternates maxBodySize s) (hpending : s.pending = none)
    {data : Bytes} (hk : s.calls k = .posting data) (status : ℕ) (contentLength : Option ℕ) :
    Alternates maxBodySize (posted s k data status contentLength) := by
  have hgoes : Alternates maxBodySize (setCall s k .ended) :=
    h.goOn id (not_reading hk (by nofun))
  have huntouched : ∀ n, s.responses + 1 ≤ n → s.delivered n = [] := fun n hn =>
    h.untouched n ((Nat.le_succ _).trans hn)
  unfold HttpClient.posted
  dsimp only
  split_ifs
  · obtain ⟨hreturned, hfollows, hincreasing, hsent⟩ := h.logged (.inl rfl)
    exact { hgoes with
      held := fun n hn => nomatch hpending.symm.trans hn
      fresh := fun n hn => nomatch hpending.symm.trans hn
      untouched := huntouched
      returned := fun m body hm => by
        obtain ⟨hbody, hsize, hlt, hne⟩ := h.returned m body (hreturned m body hm)
        exact ⟨hbody, hsize, hlt.trans (Nat.lt_succ_self _), hne⟩
      follows := hfollows
      increasing := hincreasing
      sent_lt := hsent }
  · exact { hgoes with
      untouched := huntouched
      returned := fun m body hm => by
        obtain ⟨hbody, hsize, hlt, hne⟩ := h.returned m body hm
        exact ⟨hbody, hsize, hlt.trans (Nat.lt_succ_self _), hne⟩
      sent_lt := fun n hn => (h.sent_lt n hn).trans (Nat.lt_succ_self _) }
  · obtain ⟨hreturned, hfollows, hincreasing, hsent⟩ := h.logged (.inr rfl)
    exact { hgoes with
      reading := fun j n body hj => by
        obtain ⟨hsome, -⟩ := hgoes.reading j n body hj
        cases hpending.symm.trans hsome
      held := fun n hn => by
        obtain rfl := Option.some.inj hn
        exact ⟨s.log, rfl⟩
      fresh := fun n hn _ => by
        obtain rfl := Option.some.inj hn
        exact h.untouched _ le_rfl
      untouched := huntouched
      returned := fun m body hm => by
        obtain ⟨hbody, hsize, hlt, -⟩ := h.returned m body (hreturned m body hm)
        refine ⟨hbody, hsize, hlt.trans (Nat.lt_succ_self _), fun heq => ?_⟩
        exact absurd (Option.some.inj heq) hlt.ne'
      follows := hfollows
      increasing := hincreasing
      sent_lt := hsent }

/-- A `recv` reads the response that is kept. -/
theorem Alternates.read (h : Alternates maxBodySize s) {n : ℕ} (hpending : s.pending = some n)
    (hn : n < s.responses) (hothers : ∀ j, j ≠ k → ¬ Busy (s.calls j)) {body : Bytes}
    {delivered : ℕ → Bytes} (hbody : body = delivered n) (hsize : body.length ≤ maxBodySize)
    (hdelivered : ∀ m, m ≠ n → delivered m = s.delivered m) :
    Alternates maxBodySize { setCall s k (.reading n body) with delivered := delivered } := by
  have honly : ∀ j, Busy ((setCall s k (.reading n body)).calls j) → j = k := by
    intro j hj
    by_contra hjk
    rw [show (setCall s k (.reading n body)).calls j = s.calls j from
      Function.update_of_ne hjk ..] at hj
    exact hothers j hjk hj
  have hbusy : ∀ {j call}, (setCall s k (.reading n body)).calls j = call → Busy call →
      call = .reading n body := by
    intro j call hj hcall
    obtain rfl := honly j (hj.symm ▸ hcall)
    exact hj.symm.trans (Function.update_self ..)
  exact {
    alone := fun i j hi hj => (honly i hi).trans (honly j hj).symm
    reading := fun j m body' hj => by
      cases hbusy hj trivial
      exact ⟨hpending, hbody, hsize⟩
    closing := fun j i hj => nomatch hbusy hj trivial
    held := h.held
    fresh := fun m hm hnone => by
      obtain rfl := Option.some.inj (hpending.symm.trans hm)
      exact absurd (Function.update_self ..) (hnone k body)
    untouched := fun m hm => by
      have hmn : m ≠ n := by
        rintro rfl
        exact absurd hn (Nat.not_lt.mpr hm)
      exact (hdelivered m hmn).trans (h.untouched m hm)
    returned := fun m body' hm => by
      obtain ⟨hold, hle, hlt, hne⟩ := h.returned m body' hm
      have hmn : m ≠ n := by
        rintro rfl
        exact hne hpending
      exact ⟨hold.trans (hdelivered m hmn).symm, hle, hlt, hne⟩
    follows := h.follows
    increasing := h.increasing
    sent_lt := h.sent_lt }

theorem Alternates.close (h : Alternates maxBodySize s) (hnone : ∀ j, ¬ Busy (s.calls j)) :
    Alternates maxBodySize (close s k) := by
  have hread : ∀ j n body, s.calls j ≠ .reading n body := by
    intro j n body hj
    apply hnone j
    rw [hj]
    trivial
  have hdropped : ∃ t, (s.pending.elim s fun n => { s with
      closed := Function.update s.closed n true
      pending := none }) = t ∧ Alternates maxBodySize t ∧ t.pending = none ∧
      t.calls = s.calls := by
    refine ⟨_, rfl, ?_⟩
    cases hpending : s.pending with
    | none => exact ⟨h, hpending, rfl⟩
    | some n =>
      refine ⟨{ h with
        reading := fun j m body hj => absurd hj (hread j m body)
        held := fun _ hm => nomatch hm
        fresh := fun _ hm => nomatch hm
        returned := fun m body hm => ?_ }, rfl, rfl⟩
      obtain ⟨hbody, hsize, hlt, -⟩ := h.returned m body hm
      exact ⟨hbody, hsize, hlt, nofun⟩
  obtain ⟨t, ht, hdrops, hpending, hcalls⟩ := hdropped
  unfold HttpClient.close
  rw [ht]
  dsimp only
  have hquiet : ∀ j, ¬ Busy (t.calls j) := by
    rw [hcalls]
    exact hnone
  split
  · exact hdrops.goOn id (hcalls ▸ hread k)
  · rename_i i hsession
    have honly : ∀ {j call}, (setCall t k (.closing i)).calls j = call → Busy call →
        j = k ∧ call = .closing i := by
      intro j call hj hcall
      obtain ⟨hjk, rfl⟩ | ⟨-, hj⟩ := update_call hj
      · exact ⟨hjk, rfl⟩
      · exact absurd (hj.symm ▸ hcall) (hquiet j)
    exact { hdrops with
      alone := fun j j' hj hj' => (honly rfl hj).1.trans (honly rfl hj').1.symm
      reading := fun j n body hj => nomatch (honly hj trivial).2
      closing := fun j i' hj => by
        cases (honly hj trivial).2
        exact hsession
      fresh := fun n hn => nomatch hpending.symm.trans hn }

/-- The session that was told to close is gone. -/
theorem Alternates.closed (h : Alternates maxBodySize s) {i : ℕ} (hk : s.calls k = .closing i) :
    Alternates maxBodySize { setCall s k .ended with session := none } := by
  have hgoes : Alternates maxBodySize (setCall s k .ended) :=
    h.goOn id (not_reading hk (by nofun))
  have hbusy : Busy (s.calls k) := by
    rw [hk]
    trivial
  exact { hgoes with
    closing := fun j i' hj => by
      obtain ⟨-, hj⟩ | ⟨hjk, hj⟩ := update_call hj
      · cases hj
      · exact absurd (h.alone j k (by rw [hj]; trivial) hbusy) hjk }

theorem Alternates.step (h : Alternates maxBodySize s) (hinv : Inv s)
    (hs : step maxBodySize s e = some s') (he : Exclusive s e) : Alternates maxBodySize s' := by
  cases step_way hs with
  | connected hnone =>
    exact { h with closing := fun k i hk => nomatch hnone.symm.trans (h.closing k i hk) }
  | connectRefused => exact h
  | sendRefused k data why hk => exact h.goOn id (not_reading hk (by nofun))
  | sending k data hk =>
    have hgoes : Alternates maxBodySize (setCall s k (.posting data)) :=
      h.goOn id (not_reading hk (by nofun))
    exact { hgoes with }
  | posted k data status contentLength hk =>
    exact h.posted (hinv.exclusive (hinv.posting k data hk)) hk status contentLength
  | postFailed k data hk =>
    have hgoes : Alternates maxBodySize (setCall s k .ended) :=
      h.goOn id (not_reading hk (by nofun))
    exact { hgoes with }
  | recvRefused k hk => exact h.goOn id (not_reading hk (by nofun))
  | tooLong k n hk hpending =>
    exact h.release hpending (hinv.pending_lt n hpending) (fun j _ => he j) fun _ _ => rfl
  | reading k n hk hpending =>
    have hfresh := h.fresh n hpending fun j body hj => he j (by rw [hj]; trivial)
    exact h.read hpending (hinv.pending_lt n hpending) (fun j _ => he j) hfresh.symm
      (Nat.zero_le _) fun _ _ => rfl
  | overflowed k n body data hk hsize =>
    obtain ⟨hpending, -⟩ := h.reading k n body hk
    exact h.release hpending (hinv.pending_lt n hpending) (h.others hk)
      fun m hm => Function.update_of_ne hm ..
  | read k n body data hk hsize =>
    obtain ⟨hpending, hbody, -⟩ := h.reading k n body hk
    refine h.read hpending (hinv.pending_lt n hpending) (h.others hk) ?_ ?_
      fun m hm => Function.update_of_ne hm ..
    · show body ++ data = Function.update s.delivered n (s.delivered n ++ data) n
      rw [Function.update_self, hbody]
    · rw [List.length_append]
      exact hsize
  | returned k n body hk =>
    obtain ⟨hpending, hbody, hsize⟩ := h.reading k n body hk
    have hreleased := h.release hpending (hinv.pending_lt n hpending) (h.others hk)
      fun _ _ => rfl
    exact hreleased.return rfl (hinv.pending_lt n hpending) hbody hsize (h.held n hpending)
  | readFailed k n body hk =>
    obtain ⟨hpending, -⟩ := h.reading k n body hk
    exact h.release hpending (hinv.pending_lt n hpending) (h.others hk) fun _ _ => rfl
  | close k hk => exact h.close he
  | closed k i hk => exact h.closed hk
  | closeFailed k i hk => exact h.goOn id (not_reading hk (by nofun))

theorem inOrder_of_exclusive {es : List Event}
    (hrun : Machine.run (step maxBodySize) start es = some s)
    (hes : Machine.Meets (step maxBodySize) Exclusive start es) : InOrder maxBodySize s := by
  obtain ⟨-, halternates, haccounted⟩ := Machine.invariant_of_meets
    (P := fun s => Inv s ∧ Alternates maxBodySize s ∧ Accounted s)
    (fun s e s' h he hs => ⟨h.1.step hs, h.2.1.step h.1 hs he,
      (accounted_step_iff h.1 h.2.2 hs).mpr (h.2.1.accounted_spares e)⟩)
    ⟨inv_start, alternates_start maxBodySize, accounted_start⟩ hes hrun
  refine ⟨halternates.follows, fun n body hn => ?_, halternates.increasing, haccounted⟩
  obtain ⟨hbody, hsize, -⟩ := halternates.returned n body hn
  exact ⟨hbody, hsize⟩

end

/-- No response and no session is lost in a run exactly if every call that ends resets only
what is its own. When `recv` and `close` keep out of each other's way this is so, and each
`recv` returns the whole body of the response to the last message. -/
theorem responses_accounted (maxBodySize : ℕ) (es : List Event) (s : State)
    (hrun : Machine.run (step maxBodySize) start es = some s) :
    (Machine.Throughout (step maxBodySize) Accounted start es ↔
      Machine.Meets (step maxBodySize) (Spares maxBodySize) start es) ∧
    (Machine.Meets (step maxBodySize) Exclusive start es → InOrder maxBodySize s) := by
  constructor
  · exact Machine.throughout_iff_meets (I := Inv) (fun _ _ _ h hs => h.step hs)
      (fun _ _ _ hinv h hs => accounted_step_iff hinv h hs) inv_start accounted_start hrun
  · exact inOrder_of_exclusive hrun

/-- Two calls of `recv` share a response. The second one to end drops the response to the
next message. -/
def shared : List Event :=
  [.connect, .send 0 [1], .posted 0 200 none, .recv 1, .recv 2, .chunk 1 [7], .eof 1,
    .send 3 [2], .posted 3 200 (some 1), .eof 2]

theorem responses_accounted_shared : ∃ s,
    Machine.run (step 1024) start shared = some s ∧ s.responses = 2 ∧ s.closed 1 = false ∧
      s.pending = none ∧ ¬ Machine.Throughout (step 1024) Accounted start shared := by
  refine ⟨_, rfl, rfl, rfl, rfl, fun hall => ?_⟩
  have hspares := (responses_accounted 1024 shared _ rfl).1.mp hall
  have hlast := (((((((((hspares.2 _ rfl).2 _ rfl).2 _ rfl).2 _ rfl).2 _ rfl).2 _ rfl).2 _ rfl).2 _
    rfl).2 _ rfl).1
  obtain heq | ⟨j, body, hj, hread⟩ := hlast.1 2 0 1 rfl rfl
  · cases heq
  · match j with
    | 0 | 1 | 3 => cases hread
    | 2 => exact hj rfl
    | j + 4 => cases hread

end WireRpc.HttpClient
