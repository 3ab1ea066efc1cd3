import WireRpc.HttpServer
import WireRpc.Library.Machine

/-!
# HTTP response ownership

A response belongs to the request that `recv` returned, also when that request
disconnects or times out before `send`.
-/
namespace WireRpc.HttpServer
open Library

/-- The entries that begin or end the turn of a request with the app. -/
def Entry.isTurn : Entry → Bool
  | received .. | sent _ | finished => true
  | _ => false

/-- Entry `i` is the first successful `send` after the `recv` that returned the
body of `r`. -/
def AnsweredBy (log : List Entry) (r i : ℕ) (data : Bytes) : Prop :=
  log[i]? = some (.sent data) ∧ ∃ j < i, (∃ body, log[j]? = some (.received r body)) ∧
    ∀ k e, j < k → k < i → log[k]? = some e → e.isTurn = false

def queuedIds (log : List Entry) : List ℕ :=
  log.filterMap fun
    | .queued r _ => some r
    | _ => none

def receivedIds (log : List Entry) : List ℕ :=
  log.filterMap fun
    | .received r _ => some r
    | _ => none

def respondedIds (log : List Entry) : List ℕ :=
  log.filterMap fun
    | .responded r _ => some r
    | _ => none

/-- Every response body is what `send` was given for that request, one `send`
answers one request, and bodies and responses pass once. -/
structure Owned (log : List Entry) : Prop where
  own_answer : ∀ r data, .responded r (.body data) ∈ log → ∃ i, AnsweredBy log r i data
  one_owner : ∀ i r r' data data', AnsweredBy log r i data → AnsweredBy log r' i data' → r = r'
  own_body : ∀ r data, .received r data ∈ log → .queued r data ∈ log
  queued_once : (queuedIds log).Nodup
  received_once : (receivedIds log).Nodup
  responded_once : (respondedIds log).Nodup

section
variable {log : List Entry} {e : Entry} {r i : ℕ} {data : Bytes}

theorem AnsweredBy.append (h : AnsweredBy log r i data) (e : Entry) :
    AnsweredBy (log ++ [e]) r i data := by
  obtain ⟨hi, j, hj, ⟨bytes, hrecv⟩, hquiet⟩ := h
  have hlt : i < log.length := (List.getElem?_eq_some_iff.mp hi).1
  refine ⟨?_, j, hj, ⟨bytes, ?_⟩, fun k e' hjk hki he => ?_⟩
  · rwa [List.getElem?_append_left hlt]
  · rwa [List.getElem?_append_left (hj.trans hlt)]
  · rw [List.getElem?_append_left (hki.trans hlt)] at he
    exact hquiet k e' hjk hki he

/-- One `send` ends one turn: two requests cannot share it. -/
theorem AnsweredBy.owner {r' : ℕ} {data' : Bytes} (h : AnsweredBy log r i data)
    (h' : AnsweredBy log r' i data') : r = r' := by
  obtain ⟨-, j, hj, ⟨bytes, hrecv⟩, hquiet⟩ := h
  obtain ⟨-, j', hj', ⟨bytes', hrecv'⟩, hquiet'⟩ := h'
  obtain hlt | heq | hgt := lt_trichotomy j j'
  · exact absurd (hquiet j' _ hlt hj' hrecv') (by simp [Entry.isTurn])
  · subst j'
    rw [hrecv] at hrecv'
    cases hrecv'
    rfl
  · exact absurd (hquiet' j _ hgt hj hrecv) (by simp [Entry.isTurn])

/-- The turn of `r` with the app has begun and not ended. -/
def InTurn (log : List Entry) (r : ℕ) : Prop :=
  ∃ j : ℕ, (∃ data, log[j]? = some (.received r data)) ∧
    ∀ (k : ℕ) e, j < k → log[k]? = some e → e.isTurn = false

theorem InTurn.append (h : InTurn log r) (he : e.isTurn = false) : InTurn (log ++ [e]) r := by
  obtain ⟨j, ⟨bytes, hrecv⟩, hquiet⟩ := h
  have hlt : j < log.length := (List.getElem?_eq_some_iff.mp hrecv).1
  refine ⟨j, ⟨bytes, by rwa [List.getElem?_append_left hlt]⟩, fun k e' hjk hk => ?_⟩
  rw [List.getElem?_append] at hk
  split_ifs at hk with hlen
  · exact hquiet k e' hjk hk
  · rw [List.mem_singleton.mp (List.mem_of_getElem? hk)]
    exact he

theorem inTurn_received : InTurn (log ++ [Entry.received r data]) r := by
  refine ⟨log.length, ⟨data, by simp⟩, fun k e hk he => ?_⟩
  have hlt := (List.getElem?_eq_some_iff.mp he).1
  rw [List.length_append, List.length_singleton] at hlt
  omega

/-- A `send` in the turn of `r` answers `r`. -/
theorem InTurn.sent (h : InTurn log r) :
    AnsweredBy (log ++ [Entry.sent data]) r log.length data := by
  obtain ⟨j, ⟨bytes, hrecv⟩, hquiet⟩ := h
  have hlt : j < log.length := (List.getElem?_eq_some_iff.mp hrecv).1
  refine ⟨by simp, j, hlt, ⟨bytes, by rwa [List.getElem?_append_left hlt]⟩, fun k e hjk hk he => ?_⟩
  rw [List.getElem?_append_left hk] at he
  exact hquiet k e hjk he

end

@[simp] theorem queuedIds_append (log log' : List Entry) :
    queuedIds (log ++ log') = queuedIds log ++ queuedIds log' := List.filterMap_append

@[simp] theorem receivedIds_append (log log' : List Entry) :
    receivedIds (log ++ log') = receivedIds log ++ receivedIds log' := List.filterMap_append

@[simp] theorem respondedIds_append (log log' : List Entry) :
    respondedIds (log ++ log') = respondedIds log ++ respondedIds log' := List.filterMap_append

theorem mem_queuedIds {log : List Entry} {r : ℕ} {data : Bytes} (h : .queued r data ∈ log) :
    r ∈ queuedIds log := List.mem_filterMap.mpr ⟨_, h, rfl⟩

structure Inv (s : State) : Prop where
  turn : ∀ r, s.active = some r → InTurn s.log r
  result : ∀ r data, s.futures r = .result (some data) → ∃ i, AnsweredBy s.log r i data
  answer : ∀ r data, .responded r (.body data) ∈ s.log → ∃ i, AnsweredBy s.log r i data
  queue_waiting : ∀ p ∈ s.queue, ∃ interrupted, s.phases p.2 = .waiting p.1 interrupted
  queue_principal : ∀ p ∈ s.queue, s.principals p.2 ≠ none
  queue_log : ∀ p ∈ s.queue, .queued p.2 p.1 ∈ s.log
  queue_fresh : ∀ p ∈ s.queue, p.2 ∉ receivedIds s.log
  queue_nodup : (s.queue.map Prod.snd).Nodup
  own_body : ∀ r data, .received r data ∈ s.log → .queued r data ∈ s.log
  queued_once : (queuedIds s.log).Nodup
  received_once : (receivedIds s.log).Nodup
  responded_once : (respondedIds s.log).Nodup
  queued_phase : ∀ r ∈ queuedIds s.log, s.phases r ≠ .absent ∧ s.phases r ≠ .reading
  responded_phase : ∀ r ∈ respondedIds s.log, ∃ response, s.phases r = .ended response

theorem Inv.owned {s : State} (h : Inv s) : Owned s.log where
  own_answer := h.answer
  one_owner := fun _ _ _ _ _ ha ha' => ha.owner ha'
  own_body := h.own_body
  queued_once := h.queued_once
  received_once := h.received_once
  responded_once := h.responded_once

theorem inv_start : Inv start where
  turn := by simp [start]
  result := by simp [start]
  answer := by simp [start]
  queue_waiting := by simp [start]
  queue_principal := by simp [start]
  queue_log := by simp [start]
  queue_fresh := by simp [start]
  queue_nodup := by simp [start]
  own_body := by simp [start]
  queued_once := by simp [start, queuedIds]
  received_once := by simp [start, receivedIds]
  responded_once := by simp [start, respondedIds]
  queued_phase := by simp [start, queuedIds]
  responded_phase := by simp [start, respondedIds]

section
variable {s : State} {e : Entry} {r : ℕ} {data : Bytes}

/-- The answers of a history that has got one entry more. -/
theorem Inv.answer_append (h : Inv s)
    (he : ∀ r data, e = .responded r (.body data) → ∃ i, AnsweredBy s.log r i data)
    (hr : .responded r (.body data) ∈ s.log ++ [e]) :
    ∃ i, AnsweredBy (s.log ++ [e]) r i data := by
  obtain hr | hr := List.mem_append.mp hr
  · exact (h.answer r data hr).imp fun _ ha => ha.append _
  · exact (he r data (List.mem_singleton.mp hr).symm).imp fun _ ha => ha.append _

theorem Inv.own_body_append (h : Inv s)
    (he : ∀ r data, e = .received r data → .queued r data ∈ s.log)
    (hr : .received r data ∈ s.log ++ [e]) : .queued r data ∈ s.log ++ [e] := by
  apply List.mem_append_left
  obtain hr | hr := List.mem_append.mp hr
  · exact h.own_body r data hr
  · exact he r data (List.mem_singleton.mp hr).symm

end

/-- A phase moves forward without a response. -/
def Phase.Moves (p p' : Phase) : Prop :=
  p' = p ∨ (p = .absent ∧ p' = .reading) ∨
    ∃ data interrupted interrupted', p = .waiting data interrupted ∧ p' = .waiting data interrupted'

/-- What leaves the history alone: the turn may end, requests may leave the queue,
and no future gets a body. -/
theorem Inv.quiet {s s' : State} (h : Inv s) (hlog : s'.log = s.log)
    (hactive : ∀ r, s'.active = some r → s.active = some r)
    (hresult : ∀ r data, s'.futures r = .result (some data) → s.futures r = .result (some data))
    (hqueue : s'.queue.Sublist s.queue)
    (hprincipals : ∀ p ∈ s'.queue, s'.principals p.2 = s.principals p.2)
    (hphases : ∀ r, (s.phases r).Moves (s'.phases r)) : Inv s' where
  turn := fun r hr => hlog ▸ h.turn r (hactive r hr)
  result := fun r data hr => hlog ▸ h.result r data (hresult r data hr)
  answer := hlog ▸ h.answer
  queue_waiting := by
    intro p hp
    obtain ⟨interrupted, hw⟩ := h.queue_waiting p (hqueue.subset hp)
    obtain hsame | ⟨ha, -⟩ | ⟨data, i, i', hold, hnew⟩ := hphases p.2
    · exact ⟨interrupted, hsame.trans hw⟩
    · rw [hw] at ha
      cases ha
    · rw [hw] at hold
      cases hold
      exact ⟨i', hnew⟩
  queue_principal := fun p hp => hprincipals p hp ▸ h.queue_principal p (hqueue.subset hp)
  queue_log := fun p hp => hlog ▸ h.queue_log p (hqueue.subset hp)
  queue_fresh := fun p hp => hlog ▸ h.queue_fresh p (hqueue.subset hp)
  queue_nodup := h.queue_nodup.sublist (hqueue.map _)
  own_body := hlog ▸ h.own_body
  queued_once := hlog ▸ h.queued_once
  received_once := hlog ▸ h.received_once
  responded_once := hlog ▸ h.responded_once
  queued_phase := by
    intro r hr
    obtain ⟨hna, hnr⟩ := h.queued_phase r (hlog ▸ hr)
    obtain hsame | ⟨ha, -⟩ | ⟨data, i, i', hold, hnew⟩ := hphases r
    · rw [hsame]
      exact ⟨hna, hnr⟩
    · exact absurd ha hna
    · rw [hnew]
      exact ⟨nofun, nofun⟩
  responded_phase := by
    intro r hr
    obtain ⟨response, he⟩ := h.responded_phase r (hlog ▸ hr)
    obtain hsame | ⟨ha, -⟩ | ⟨data, i, i', hold, hnew⟩ := hphases r
    · exact ⟨response, hsame.trans he⟩
    · rw [he] at ha
      cases ha
    · rw [he] at hold
      cases hold

/-- A request that has left the queue ends. A body comes from its future. -/
theorem Inv.respond {s : State} (h : Inv s) {r : ℕ} {response : HttpResponse}
    (hphase : ∀ response, s.phases r ≠ .ended response) (habsent : ∀ p ∈ s.queue, p.2 ≠ r)
    (hbody : ∀ data, response = .body data → ∃ i, AnsweredBy s.log r i data) :
    Inv (respond s r response) where
  turn := fun k hk => (h.turn k hk).append rfl
  result := fun k data hk => (h.result k data hk).imp fun _ ha => ha.append _
  answer := by
    intro k data hk
    refine h.answer_append (fun k' data' he => ?_) hk
    cases he
    exact hbody data' rfl
  queue_waiting := by
    intro p hp
    show ∃ interrupted, Function.update s.phases r (.ended response) p.2 = _
    rw [Function.update_of_ne (habsent p hp)]
    exact h.queue_waiting p hp
  queue_principal := h.queue_principal
  queue_log := fun p hp => List.mem_append_left _ (h.queue_log p hp)
  queue_fresh := by
    intro p hp
    simpa [WireRpc.HttpServer.respond, receivedIds] using h.queue_fresh p hp
  queue_nodup := h.queue_nodup
  own_body _ _ hk := h.own_body_append (by nofun) hk
  queued_once := by simpa [WireRpc.HttpServer.respond, queuedIds] using h.queued_once
  received_once := by simpa [WireRpc.HttpServer.respond, receivedIds] using h.received_once
  responded_once := by
    show (respondedIds (s.log ++ [Entry.responded r response])).Nodup
    have hr : r ∉ respondedIds s.log := by
      intro hr
      obtain ⟨response', he⟩ := h.responded_phase r hr
      exact hphase response' he
    rw [respondedIds_append, List.nodup_append]
    refine ⟨h.responded_once, by simp [respondedIds], fun k hk k' hk' => ?_⟩
    obtain rfl : k' = r := by simpa [respondedIds] using hk'
    exact fun heq => hr (heq ▸ hk)
  queued_phase := by
    intro k hk
    have hold : k ∈ queuedIds s.log := by simpa [WireRpc.HttpServer.respond, queuedIds] using hk
    show Function.update s.phases r (.ended response) k ≠ _ ∧
      Function.update s.phases r (.ended response) k ≠ _
    by_cases hkr : k = r
    · subst k
      rw [Function.update_self]
      exact ⟨nofun, nofun⟩
    · rw [Function.update_of_ne hkr]
      exact h.queued_phase k hold
  responded_phase := by
    intro k hk
    show ∃ response', Function.update s.phases r (.ended response) k = _
    by_cases hkr : k = r
    · subst k
      exact ⟨response, Function.update_self ..⟩
    · rw [Function.update_of_ne hkr]
      refine h.responded_phase k ?_
      simpa [WireRpc.HttpServer.respond, respondedIds, hkr] using hk

/-- What `_handle` holds in its `entry` variable. -/
def Phase.entry : Phase → Option Bytes
  | waiting data _ => some data
  | _ => none

/-- The `finally` block takes the request out of the queue. -/
theorem Inv.not_queued {s : State} (h : Inv s) (r : ℕ) :
    ∀ p ∈ (release s r (s.phases r).entry).queue, p.2 ≠ r := by
  intro p hp hpr
  rw [release_queue] at hp
  cases hphase : s.phases r with
  | waiting data interrupted =>
    simp only [hphase, Phase.entry, Option.elim_some] at hp
    have hmem := List.mem_of_mem_erase hp
    obtain ⟨i, hw⟩ := h.queue_waiting p hmem
    rw [hpr, hphase] at hw
    have hpd : p = (data, r) := by
      cases hw
      exact Prod.ext rfl hpr
    have hnodup : s.queue.Nodup := h.queue_nodup.of_map _
    exact hnodup.not_mem_erase (hpd ▸ hp)
  | _ =>
    simp only [hphase, Phase.entry, Option.elim_none] at hp
    obtain ⟨i, hw⟩ := h.queue_waiting p hp
    rw [hpr, hphase] at hw
    cases hw

/-- A request ends: its `finally` block runs and its response is out. -/
theorem Inv.finish {s : State} (h : Inv s) {r : ℕ} {entry : Option Bytes}
    {response : HttpResponse} (hentry : entry = (s.phases r).entry)
    (hphase : ∀ response, s.phases r ≠ .ended response)
    (hbody : ∀ data, response = .body data → ∃ i, AnsweredBy s.log r i data) :
    Inv (WireRpc.HttpServer.respond (release s r entry) r response) := by
  subst hentry
  have hfree := h.not_queued r
  refine Inv.respond ?_ ?_ hfree ?_
  · refine h.quiet (release_log ..) (fun k hk => by simpa using hk)
      (fun k data hk => release_futures s r _ hk) ?_ (fun p hp => ?_) (fun k => .inl (by simp))
    · rw [release_queue]
      cases (s.phases r).entry with
      | none => exact List.Sublist.refl _
      | some data => exact List.erase_sublist
    · rw [release_principals, Function.update_of_ne (hfree p hp)]
  · simpa using hphase
  · simpa using hbody

theorem Inv.handle {c : Config} {s : State} (h : Inv s) {r : ℕ} (originAllowed : Bool)
    (hphase : s.phases r = .absent) : Inv (handle c s r originAllowed) := by
  have hreject : ∀ failure, Inv (WireRpc.HttpServer.respond s r (.failed failure)) := by
    intro failure
    refine h.respond (fun response => by simp [hphase]) (fun p hp hpr => ?_)
      (fun data hd => nomatch hd)
    obtain ⟨i, hw⟩ := h.queue_waiting p hp
    rw [hpr, hphase] at hw
    cases hw
  unfold WireRpc.HttpServer.handle
  split_ifs
  · exact hreject _
  · exact hreject _
  · refine h.quiet rfl (fun _ hk => hk) (fun _ _ hk => hk) (List.Sublist.refl _)
      (fun _ _ => rfl) (fun k => ?_)
    show (s.phases k).Moves (Function.update s.phases r .reading k)
    by_cases hkr : k = r
    · subst k
      exact .inr (.inl ⟨hphase, Function.update_self ..⟩)
    · exact .inl (Function.update_of_ne hkr ..)

/-- A request waits in the queue. -/
theorem Inv.enqueue {s : State} (h : Inv s) {r : ℕ} (user : Option String) (data : Bytes)
    (queuedBytes : ℤ) (hphase : s.phases r = .reading) :
    Inv { s with
      principals := Function.update s.principals r (some user)
      queuedBytes := queuedBytes
      queue := s.queue ++ [(data, r)]
      ready := true
      phases := Function.update s.phases r (.waiting data none)
      log := s.log ++ [Entry.queued r data] } := by
  have hother : ∀ p ∈ s.queue, p.2 ≠ r := by
    intro p hp hpr
    obtain ⟨i, hw⟩ := h.queue_waiting p hp
    rw [hpr, hphase] at hw
    cases hw
  have hnew : r ∉ queuedIds s.log := fun hr => (h.queued_phase r hr).2 hphase
  exact {
    turn := fun k hk => (h.turn k hk).append rfl
    result := fun k d hk => (h.result k d hk).imp fun _ ha => ha.append _
    answer := fun _ _ hk => h.answer_append (by nofun) hk
    queue_waiting := by
      intro p hp
      show ∃ i, Function.update s.phases r (.waiting data none) p.2 = _
      obtain hp | hp := List.mem_append.mp hp
      · rw [Function.update_of_ne (hother p hp)]
        exact h.queue_waiting p hp
      · rw [List.mem_singleton.mp hp]
        exact ⟨none, Function.update_self ..⟩
    queue_principal := by
      intro p hp
      show Function.update s.principals r (some user) p.2 ≠ none
      obtain hp | hp := List.mem_append.mp hp
      · rw [Function.update_of_ne (hother p hp)]
        exact h.queue_principal p hp
      · rw [List.mem_singleton.mp hp, Function.update_self]
        exact nofun
    queue_log := by
      intro p hp
      obtain hp | hp := List.mem_append.mp hp
      · exact List.mem_append_left _ (h.queue_log p hp)
      · rw [List.mem_singleton.mp hp]
        exact List.mem_append_right _ List.mem_cons_self
    queue_fresh := by
      intro p hp
      show p.2 ∉ receivedIds (s.log ++ [Entry.queued r data])
      rw [receivedIds_append, show receivedIds [.queued r data] = [] from rfl, List.append_nil]
      obtain hp | hp := List.mem_append.mp hp
      · exact h.queue_fresh p hp
      · rw [List.mem_singleton.mp hp]
        intro hr
        obtain ⟨e, he, hid⟩ := List.mem_filterMap.mp hr
        cases e with
        | received k d =>
          cases hid
          exact hnew (mem_queuedIds (h.own_body r d he))
        | _ => cases hid
    queue_nodup := by
      show ((s.queue ++ [(data, r)]).map Prod.snd).Nodup
      rw [List.map_append, List.nodup_append]
      refine ⟨h.queue_nodup, by simp, fun k hk k' hk' => ?_⟩
      obtain rfl : k' = r := by simpa using hk'
      obtain ⟨p, hp, rfl⟩ := List.mem_map.mp hk
      exact hother p hp
    own_body := fun _ _ hk => h.own_body_append (by nofun) hk
    queued_once := by
      show (queuedIds (s.log ++ [Entry.queued r data])).Nodup
      rw [queuedIds_append, List.nodup_append]
      refine ⟨h.queued_once, by simp [queuedIds], fun k hk k' hk' => ?_⟩
      obtain rfl : k' = r := by simpa [queuedIds] using hk'
      exact fun heq => hnew (heq ▸ hk)
    received_once := by simpa [receivedIds] using h.received_once
    responded_once := by simpa [respondedIds] using h.responded_once
    queued_phase := by
      intro k hk
      show Function.update s.phases r (.waiting data none) k ≠ _ ∧
        Function.update s.phases r (.waiting data none) k ≠ _
      by_cases hkr : k = r
      · subst k
        rw [Function.update_self]
        exact ⟨nofun, nofun⟩
      · rw [Function.update_of_ne hkr]
        exact h.queued_phase k (by simpa [queuedIds, hkr] using hk)
    responded_phase := by
      intro k hk
      have hold : k ∈ respondedIds s.log := by simpa [respondedIds] using hk
      obtain ⟨response, he⟩ := h.responded_phase k hold
      refine ⟨response, ?_⟩
      show Function.update s.phases r (.waiting data none) k = _
      rw [Function.update_of_ne, he]
      rintro rfl
      rw [hphase] at he
      cases he }

theorem Inv.body {c : Config} {s : State} (h : Inv s) {r : ℕ} (user : Option String)
    (data : Bytes) (hphase : s.phases r = .reading) : Inv (body c s r user data) := by
  have hreject : ∀ failure,
      Inv (WireRpc.HttpServer.respond (release s r none) r (.failed failure)) := by
    intro failure
    exact h.finish (by simp [hphase, Phase.entry]) (by simp [hphase]) (fun data hd => nomatch hd)
  unfold WireRpc.HttpServer.body
  split_ifs
  · exact hreject _
  · exact hreject _
  · exact hreject _
  · exact h.enqueue user data _ hphase

theorem Inv.interrupt {s : State} (h : Inv s) {r : ℕ} {data : Bytes}
    {interrupted : Option Failure} (timedOut : Bool)
    (hphase : s.phases r = .waiting data interrupted) :
    Inv (interrupt s r data interrupted timedOut) := by
  refine h.quiet (by simp [WireRpc.HttpServer.interrupt])
    (fun k hk => by simpa [WireRpc.HttpServer.interrupt] using hk) (fun k d hk => ?_)
    (by simp [WireRpc.HttpServer.interrupt]) (fun p hp => by simp [WireRpc.HttpServer.interrupt])
    (fun k => ?_)
  · obtain heq | ⟨-, hcancelled⟩ := setFuture_futures s r .cancelled k
    · exact heq ▸ hk
    · exact absurd (hcancelled.symm.trans hk) nofun
  · show (s.phases k).Moves (Function.update s.phases r (.waiting data _) k)
    by_cases hkr : k = r
    · subst k
      exact .inr (.inr ⟨data, _, _, hphase, Function.update_self ..⟩)
    · exact .inl (Function.update_of_ne hkr ..)

/-- A body comes out of a future that `send` resolved. -/
theorem outcome_body {future : Future} {interrupted : Option Failure} {data : Bytes}
    (h : outcome future interrupted = some (.body data)) : future = .result (some data) := by
  cases future with
  | result d =>
    cases d with
    | none => cases interrupted <;> simp [outcome] at h
    | some d =>
      cases interrupted with
      | none => simpa [outcome] using h
      | some failure => simp [outcome] at h
  | _ => cases interrupted <;> simp [outcome] at h

/-- `recv` takes a waiting request out of the queue and begins its turn. -/
theorem Inv.receive {s : State} (h : Inv s) {skipped rest : List (Bytes × ℕ)} {data : Bytes}
    {r : ℕ} (hqueue : s.queue = skipped ++ (data, r) :: rest) (queuedBytes : ℤ)
    (user : Option String) :
    Inv { s with
      queue := rest
      queuedBytes := queuedBytes
      active := some r
      receiving := false
      activePrincipal := user
      log := s.log ++ [Entry.received r data] } := by
  have hmem : (data, r) ∈ s.queue := by simp [hqueue]
  have hrest : ∀ p ∈ rest, p ∈ s.queue := fun p hp => by simp [hqueue, hp]
  have hother : ∀ p ∈ rest, p.2 ≠ r := by
    have hnodup := h.queue_nodup
    rw [hqueue, List.map_append, List.map_cons] at hnodup
    have htail := (List.nodup_append.mp hnodup).2.1
    intro p hp hpr
    have hp := List.mem_map_of_mem (f := Prod.snd) hp
    rw [hpr] at hp
    exact (List.nodup_cons.mp htail).1 hp
  exact {
    turn := by
      intro k hk
      obtain rfl := Option.some.inj hk
      exact inTurn_received
    result := fun k d hk => (h.result k d hk).imp fun _ ha => ha.append _
    answer := fun _ _ hk => h.answer_append (by nofun) hk
    queue_waiting := fun p hp => h.queue_waiting p (hrest p hp)
    queue_principal := fun p hp => h.queue_principal p (hrest p hp)
    queue_log := fun p hp => List.mem_append_left _ (h.queue_log p (hrest p hp))
    queue_fresh := by
      intro p hp
      show p.2 ∉ receivedIds (s.log ++ [Entry.received r data])
      rw [receivedIds_append, List.mem_append, not_or]
      exact ⟨h.queue_fresh p (hrest p hp), by simpa [receivedIds] using hother p hp⟩
    queue_nodup := by
      refine h.queue_nodup.sublist (List.Sublist.map _ ?_)
      rw [hqueue]
      exact (List.sublist_cons_self _ _).trans (List.sublist_append_right _ _)
    own_body := by
      intro k d hk
      refine h.own_body_append (fun k' d' he => ?_) hk
      cases he
      exact h.queue_log _ hmem
    queued_once := by simpa [queuedIds] using h.queued_once
    received_once := by
      show (receivedIds (s.log ++ [Entry.received r data])).Nodup
      rw [receivedIds_append, List.nodup_append]
      refine ⟨h.received_once, by simp [receivedIds], fun k hk k' hk' => ?_⟩
      obtain rfl : k' = r := by simpa [receivedIds] using hk'
      exact fun heq => h.queue_fresh _ hmem (heq ▸ hk)
    responded_once := by simpa [respondedIds] using h.responded_once
    queued_phase := fun k hk => h.queued_phase k (by simpa [queuedIds] using hk)
    responded_phase := fun k hk => h.responded_phase k (by simpa [respondedIds] using hk) }

/-- Whether a `recv` waits changes nothing. -/
theorem Inv.waits {s : State} (h : Inv s) (receiving : Bool) :
    Inv { s with receiving := receiving } :=
  h.quiet rfl (fun _ hk => hk) (fun _ _ hk => hk) (List.Sublist.refl _) (fun _ _ => rfl)
    (fun _ => .inl rfl)

theorem Inv.poll {s : State} (h : Inv s) : Inv (poll s) := by
  unfold WireRpc.HttpServer.poll
  split_ifs
  · exact h.waits false
  · cases hpop : pop s.futures s.queue s.queuedBytes with
    | mk found rest =>
      obtain ⟨rest, queuedBytes⟩ := rest
      obtain ⟨skipped, hqueue, -⟩ := pop_spec hpop
      cases found with
      | none =>
        have hrest : rest.Sublist s.queue := by
          rw [hqueue]
          exact List.sublist_append_right _ _
        exact h.quiet rfl (fun _ hk => hk) (fun _ _ hk => hk) hrest (fun _ _ => rfl)
          (fun k => .inl rfl)
      | some p =>
        obtain ⟨data, r⟩ := p
        have hqueue' : s.queue = skipped ++ (data, r) :: rest := by simpa using hqueue
        cases huser : s.principals r with
        | none => exact absurd huser (h.queue_principal (data, r) (by simp [hqueue']))
        | some user =>
          simp only [huser]
          exact h.receive hqueue' queuedBytes user

/-- The turn of the active request ends. -/
theorem Inv.endTurn {s s' : State} (h : Inv s) {e : Entry}
    (he : e = .finished ∨ ∃ data, e = .sent data) (hlog : s'.log = s.log ++ [e])
    (hactive : s'.active = none) (hqueue : s'.queue = s.queue)
    (hprincipals : s'.principals = s.principals) (hphases : s'.phases = s.phases)
    (hresult : ∀ r data, s'.futures r = .result (some data) →
      ∃ i, AnsweredBy (s.log ++ [e]) r i data) : Inv s' := by
  have hqueued : queuedIds s'.log = queuedIds s.log := by
    obtain rfl | ⟨data, rfl⟩ := he <;> simp [hlog, queuedIds]
  have hreceived : receivedIds s'.log = receivedIds s.log := by
    obtain rfl | ⟨data, rfl⟩ := he <;> simp [hlog, receivedIds]
  have hresponded : respondedIds s'.log = respondedIds s.log := by
    obtain rfl | ⟨data, rfl⟩ := he <;> simp [hlog, respondedIds]
  exact {
    turn := fun r hr => nomatch hactive.symm.trans hr
    result := hlog ▸ hresult
    answer := by
      intro r data hr
      rw [hlog] at hr ⊢
      apply h.answer_append _ hr
      obtain rfl | ⟨data, rfl⟩ := he <;> nofun
    queue_waiting := by
      rw [hqueue, hphases]
      exact h.queue_waiting
    queue_principal := by
      rw [hqueue, hprincipals]
      exact h.queue_principal
    queue_log := by
      intro p hp
      rw [hlog]
      exact List.mem_append_left _ (h.queue_log p (hqueue ▸ hp))
    queue_fresh := by
      rw [hqueue, hreceived]
      exact h.queue_fresh
    queue_nodup := hqueue ▸ h.queue_nodup
    own_body := by
      intro r data hr
      rw [hlog] at hr ⊢
      apply h.own_body_append _ hr
      obtain rfl | ⟨data, rfl⟩ := he <;> nofun
    queued_once := hqueued ▸ h.queued_once
    received_once := hreceived ▸ h.received_once
    responded_once := hresponded ▸ h.responded_once
    queued_phase := by
      rw [hqueued, hphases]
      exact h.queued_phase
    responded_phase := by
      rw [hresponded, hphases]
      exact h.responded_phase }

theorem Inv.send {c : Config} {s s' : State} (h : Inv s) {data : Bytes}
    (hsend : send c s data = .ok s') : Inv s' := by
  unfold WireRpc.HttpServer.send at hsend
  split_ifs at hsend
  cases hactive : s.active with
  | none => simp [hactive] at hsend
  | some r =>
    simp only [hactive, Except.ok.injEq] at hsend
    subst hsend
    refine h.endTurn (.inr ⟨data, rfl⟩) rfl rfl (setFuture_queue ..) (setFuture_principals ..)
      (setFuture_phases ..) (fun k d hk => ?_)
    obtain heq | ⟨rfl, hnew⟩ := setFuture_futures s r (.result (some data)) k
    · exact (h.result k d (heq ▸ hk)).imp fun _ ha => ha.append _
    · cases hnew.symm.trans hk
      exact ⟨_, (h.turn k hactive).sent⟩

theorem Inv.finishNotification {s : State} (h : Inv s) : Inv (finishNotification s) := by
  unfold WireRpc.HttpServer.finishNotification
  cases hactive : s.active with
  | none =>
    exact h.endTurn (.inl rfl) rfl rfl rfl rfl rfl
      (fun k d hk => (h.result k d hk).imp fun _ ha => ha.append _)
  | some r =>
    refine h.endTurn (.inl rfl) rfl rfl (setFuture_queue ..) (setFuture_principals ..)
      (setFuture_phases ..) (fun k d hk => ?_)
    obtain heq | ⟨-, hnew⟩ := setFuture_futures s r (.result none) k
    · exact (h.result k d (heq ▸ hk)).imp fun _ ha => ha.append _
    · cases hnew.symm.trans hk

theorem Inv.close {s : State} (h : Inv s) : Inv (close s) := by
  refine h.quiet rfl (fun k hk => nomatch hk) (fun k d hk => ?_) (List.nil_sublist _)
    (fun p hp => nomatch hp) (fun k => .inl rfl)
  simp only [WireRpc.HttpServer.close] at hk
  split_ifs at hk
  exact hk

theorem inv_step {c : Config} {s s' : State} {e : Event} (h : Inv s)
    (hstep : step c s e = some s') : Inv s' := by
  cases step_move hstep with
  | handled r originAllowed hphase => exact h.handle originAllowed hphase
  | failed r failure hphase =>
    exact h.finish (by simp [hphase, Phase.entry]) (by simp [hphase]) (fun data hd => nomatch hd)
  | read r user data hphase => exact h.body user data hphase
  | interrupted r data earlier timedOut hphase => exact h.interrupt timedOut hphase
  | resumed r data earlier response hphase hout =>
    refine h.finish (by simp [hphase, Phase.entry]) (by simp [hphase]) (fun d hd => ?_)
    subst hd
    exact h.result r d (outcome_body hout)
  | recvRejected | sendRejected data => exact h
  | received => exact (h.waits true).poll
  | polled => exact h.poll
  | recvCancelled => exact h.waits false
  | sent data _ hsend => exact h.send hsend
  | finished => exact h.finishNotification
  | closed => exact h.close

/-- In every interleaving each response body belongs to the request that gets it. -/
theorem responses_owned (c : Config) (es : List Event) (s : State)
    (hrun : Machine.run (step c) start es = some s) : Owned s.log :=
  (Machine.invariant (fun _ _ _ h hstep => inv_step h hstep) inv_start hrun).owned

/-- The client of request 0 disconnects in its turn. What is sent then reaches
nobody, and request 1 gets its own response. -/
def abandoned : List Event :=
  [.handle 0 true, .body 0 none [1], .recv, .interrupt 0 false, .resume 0, .send [2],
    .handle 1 true, .body 1 none [3], .recv, .send [4], .resume 1]

theorem responses_owned_abandoned : ∃ s,
    Machine.run (step ⟨64, 1024, 4096⟩) start abandoned = some s ∧
      s.log = [.queued 0 [1], .received 0 [1], .responded 0 (.failed .disconnected), .sent [2],
        .queued 1 [3], .received 1 [3], .sent [4], .responded 1 (.body [4])] ∧
      Owned s.log :=
  ⟨_, rfl, rfl, responses_owned ⟨64, 1024, 4096⟩ abandoned _ rfl⟩

end WireRpc.HttpServer
