import WireRpc.BatchAgreement
import WireRpc.Library.Machine

/-!
# Reply alignment

One client makes exchanges one after another over a FIFO channel to an app
that answers each message with `process`. Messages carry the number of their
exchange, which neither side reads. The client decides from what it sends
whether a reply will come; the channel stays aligned as long as the server
agrees on that.
-/
namespace WireRpc.Alignment
open Library Execution Client

/-- What an exchange waits for after sending. -/
inductive Awaiting where
  | call (id : String)
  | batch (expected : Finset String)

/-- A reply that the client accepted. -/
inductive Accepted where
  | response (envelope : Envelope)
  | batch (reply : BatchReply)

def Awaiting.accept : Awaiting → Json → Except ClientError Accepted
  | call id, message => (response message id).map .response
  | batch expected, message => (batchResponse expected message).map .batch

/-- The whole-batch refusal that `batch` raises. -/
def Accepted.isRefusal : Accepted → Bool
  | batch (.refused _) => true
  | _ => false

inductive Status where
  | idle
  | waiting (exchange : ℕ) (awaiting : Awaiting)
  | closed

/-- A message in the channel. `exchange` is the exchange it belongs to, and
`awaiting` what that exchange waits for: `none` for `notify` and for a batch of
notifications. -/
structure Message where
  exchange : ℕ
  awaiting : Option Awaiting
  data : Bytes

/-- Client, channel and server. The last three fields record the history: which
reply each exchange accepted, which batches were refused, and what the server
ran for each exchange. -/
structure Channel (W : Type) where
  status : Status
  exchanges : ℕ
  drawn : ℕ
  requests : List Message
  replies : List Message
  server : State W
  down : Bool
  accepted : List (ℕ × ℕ)
  refusals : List ℕ
  ran : List (ℕ × RawWireRequest)

/-- A client that just connected to a server. -/
def start {W : Type} (server : State W) : Channel W :=
  ⟨.idle, 0, 0, [], [], server, false, [], [], []⟩

/-- `abort` is any failure of the exchange in progress, its deadline for one. -/
inductive Event (R : Type) where
  | call (method : String) (params : Json)
  | notify (method : String) (params : Json)
  | batch (items : List (BatchItem R))
  | serve
  | receive
  | abort

variable {W R : Type} (app : ExecutionHost W) (dispatch : Dispatch W) (uuid4 : ℕ → String)

/-- An idle client encodes a message and sends it. Without something to wait for
the exchange is over at once. -/
def send (s : Channel W) (awaiting : Option Awaiting) (draws : ℕ) (message : Json) :
    Option (Channel W) :=
  match s.status with
  | .idle => (app.codec.encode message).map fun data =>
    { s with
      status := awaiting.elim .idle (.waiting s.exchanges)
      exchanges := s.exchanges + 1
      drawn := s.drawn + draws
      requests := s.requests ++ [⟨s.exchanges, awaiting, data⟩] }
  | _ => none

/-- The server is done with a message. When `process` does not return, the
listen loop ends and the server answers nothing any more. -/
def served (m : Message) (r : State W × Outcome (Option Bytes)) (s : Channel W) : Channel W :=
  let ran := (r.1.dispatched.drop s.server.dispatched.length).map fun request =>
    (m.exchange, request)
  let s := { s with server := r.1, ran := s.ran ++ ran }
  match r.2 with
  | .value none => s
  | .value (some b) => { s with replies := s.replies ++ [⟨m.exchange, m.awaiting, b⟩] }
  | _ => { s with down := true }

section
variable (m : Message) (r : State W × Outcome (Option Bytes)) (s : Channel W)

theorem served_ran : (served m r s).ran = s.ran ++
    (r.1.dispatched.drop s.server.dispatched.length).map fun request => (m.exchange, request) := by
  unfold served
  split <;> rfl

theorem served_accepted : (served m r s).accepted = s.accepted := by
  unfold served
  split <;> rfl

theorem served_refusals : (served m r s).refusals = s.refusals := by
  unfold served
  split <;> rfl

end

/-- The client reads one message of the channel. -/
def received (k : ℕ) (m : Message) (turn : Turn Accepted) (s : Channel W) : Channel W :=
  match turn with
  | .delivers _ => s
  | .returns (.ok r) =>
    { s with
      status := .idle
      accepted := s.accepted ++ [(k, m.exchange)]
      refusals := if r.isRefusal then s.refusals ++ [k] else s.refusals }
  | .returns (.error _) => { s with status := .closed }

def step (s : Channel W) : Event R → Option (Channel W)
  | .call method params =>
    send app s (some (.call (uuid4 s.drawn))) 1 (callJson method (uuid4 s.drawn) params)
  | .notify method params => send app s none 0 (notifyJson method params)
  | .batch items =>
    if items = [] then none
    else
      let ids := requestIds uuid4 items s.drawn
      send app s (if expected ids = ∅ then none else some (.batch (expected ids)))
        ids.reduceOption.length (batchJson items ids)
  | .serve =>
    match s.requests, s.down with
    | m :: rest, false =>
      some (served m (process app dispatch none m.data s.server) { s with requests := rest })
    | _, _ => none
  | .receive =>
    match s.status, s.replies with
    | .waiting k awaiting, m :: rest =>
      some (received k m (readMessage app.codec awaiting.accept m.data) { s with replies := rest })
    | _, _ => none
  | .abort => some { s with status := .closed }

/-- Every accepted reply answers the exchange's own message, a message that no
reply is expected for leaves none behind, and of a refused batch nothing ran. -/
structure Aligned (s : Channel W) : Prop where
  own_reply : ∀ p ∈ s.accepted, p.1 = p.2
  none_left : ∀ m ∈ s.replies, m.awaiting ≠ none
  refused_ran_nothing : ∀ k ∈ s.refusals, ∀ p ∈ s.ran, p.1 ≠ k

/-- The server answers the event's message exactly when the client expects it:
a notification has a valid method name, and a batch of notifications has only
such names and is not refused. -/
def Agreed (_ : Channel W) : Event R → Prop
  | .notify method _ => ValidMethod method
  | .batch items => (∃ item ∈ items, item.isCall = true) ∨
      ((∀ item ∈ items, ValidMethod item.method) ∧ items.length ≤ app.maxBatchSize ∧
        items.length + 8 ≤ app.maxResponseSize)
  | _ => True

/-- The server never answers the message. -/
def Quiet (data : Bytes) : Prop :=
  ∀ s s' b, process app dispatch none data s ≠ (s', .value (some b))

variable {app dispatch uuid4}

theorem silent_notifyJson {method : String} (h : ValidMethod method) (params : Json) :
    silent (notifyJson method params) = true := by
  have hid : ∀ i, (none : Option RequestId) = some i → i.Allowed := fun i hi => nomatch hi
  exact silent_iff.mpr ⟨_, validate_toJson (r := ⟨method, none, params⟩) h hid, rfl⟩

theorem quiet_notify (hr : app.codec.RoundTrips) {method : String} (h : ValidMethod method)
    {params : Json} {data : Bytes}
    (hdata : app.codec.encode (notifyJson method params) = some data) :
    Quiet app dispatch data := by
  intro s s' b hp
  have hne : ∀ items, notifyJson method params ≠ .arr items := fun items hi => nomatch hi
  rw [process_of_decode (hr _ _ hdata), processEnvelope_of_ne_arr hne] at hp
  obtain ⟨-, hnone⟩ | ⟨a, own, ha, -⟩ := processOne_value hp
  · cases hnone
  · rw [answerOf_eq_none.mpr (silent_notifyJson h params)] at ha
    cases ha

/-- A batch of valid notifications needs no room for fallbacks. -/
theorem not_refused_of_silent {items : List Json} (h : ∀ item ∈ items, silent item = true)
    (hne : items ≠ []) (hcount : items.length ≤ app.maxBatchSize)
    (hroom : items.length + 8 ≤ app.maxResponseSize) : ¬ Refused app items := by
  rintro (hnil | hlong | ⟨fallbacks, hf, hreserve⟩)
  · exact hne hnil
  · omega
  · have hall := mapM_eq_some_iff.mp hf
    have hzero : fallbackBytes fallbacks = 0 := by
      clear hf hreserve hne hcount hroom
      induction hall with
      | nil => rfl
      | @cons item f items fallbacks hitem _ ih =>
        obtain ⟨-, rfl⟩ | ⟨hloud, -⟩ := fallback_eq_some hitem
        · simpa using ih fun i hi => h i (List.mem_cons_of_mem _ hi)
        · rw [h item (by simp)] at hloud
          cases hloud
    have hlen := hall.length_eq
    simp only [reserve] at hreserve
    simp only [fallbackBytes] at hzero
    omega

theorem no_replies_of_silent {c : Codec} {answers : List (Json × Option WireResponse)}
    {replies : List Bytes} (h : Sends c answers replies)
    (hsilent : ∀ p ∈ answers, silent p.1 = true) : replies = [] := by
  obtain ⟨sent, hsent, hreplies⟩ := h
  have hnone : sent.reduceOption = [] := by
    clear hreplies
    induction hsent with
    | nil => rfl
    | @cons p r answers sent hp _ ih =>
      cases hp with
      | silent _ => exact ih fun p hp => hsilent p (List.mem_cons_of_mem _ hp)
      | own hloud => simp [hsilent _ List.mem_cons_self] at hloud
      | short hloud => simp [hsilent _ List.mem_cons_self] at hloud
  rw [hnone] at hreplies
  exact List.forall₂_nil_left_iff.mp hreplies

theorem quiet_batch (hr : app.codec.RoundTrips) {items : List Json} {data : Bytes}
    (hdata : app.codec.encode (.arr items) = some data) (h : ∀ item ∈ items, silent item = true)
    (hne : items ≠ []) (hcount : items.length ≤ app.maxBatchSize)
    (hroom : items.length + 8 ≤ app.maxResponseSize) : Quiet app dispatch data := by
  intro s s' b hp
  rw [process_of_decode (hr _ _ hdata), processEnvelope_arr] at hp
  obtain ⟨fallbacks, replies, -, hsends, -, hjoin⟩ :=
    processBatch_value (not_refused_of_silent h hne hcount hroom) hp
  have hnil : replies = [] := by
    apply no_replies_of_silent hsends
    intro p hp
    have hmem := List.mem_map_of_mem (f := Prod.fst) hp
    rw [map_fst_answers] at hmem
    exact h _ hmem
  exact (joinReplies_eq_some.mp hjoin).1 hnil

/-- A reply to a batch is a list, or nothing of the batch ran. -/
theorem batch_reply {items : List Json} {data : Bytes} (hr : app.codec.RoundTrips)
    (hdata : app.codec.decode data = some (.arr items)) {s s' : State W} {b : Bytes}
    (hp : process app dispatch none data s = (s', .value (some b))) :
    (∃ vs, app.codec.decode b = some (.arr vs)) ∨ s'.dispatched = s.dispatched := by
  rw [process_of_decode hdata, processEnvelope_arr] at hp
  by_cases hrefused : Refused app items
  · rw [processBatch_of_refused hrefused] at hp
    exact .inr (congrArg (State.dispatched ∘ Prod.fst) hp).symm
  · obtain ⟨fallbacks, replies, -, -, -, hjoin⟩ := processBatch_value hrefused hp
    obtain ⟨-, values, -, hb⟩ := joinReplies_eq_some.mp hjoin
    exact .inl ⟨values, hr _ _ hb⟩

/-- A batch without calls waits for nothing, and every item of it is silent. -/
theorem silent_of_no_call {items : List (BatchItem R)}
    (hcall : ¬ ∃ item ∈ items, item.isCall = true) (hm : ∀ item ∈ items, ValidMethod item.method)
    (n : ℕ) :
    ∀ j ∈ (requests items (requestIds uuid4 items n)).map RawWireRequest.toJson,
      silent j = true := by
  induction items generalizing n with
  | nil => simp [requests, requestIds]
  | cons item items ih =>
    cases item with
    | call method responseType params => exact absurd ⟨_, List.mem_cons_self, rfl⟩ hcall
    | notification method params =>
      have hrest : ¬ ∃ i ∈ items, i.isCall = true := by
        rintro ⟨i, hi, h⟩
        exact hcall ⟨i, List.mem_cons_of_mem _ hi, h⟩
      have htail := ih hrest (fun i hi => hm i (List.mem_cons_of_mem _ hi)) n
      intro j hj
      obtain rfl | hj := List.mem_cons.mp hj
      · exact silent_notifyJson (hm _ List.mem_cons_self) params
      · exact htail j hj

/-- A batch that waits for nothing is not answered. -/
theorem quiet_of_no_call (hr : app.codec.RoundTrips) {items : List (BatchItem R)} {n : ℕ}
    (hnil : items ≠ []) (hexpected : expected (requestIds uuid4 items n) = ∅) {s : Channel W}
    (hagreed : Agreed app s (.batch items)) {data : Bytes}
    (hdata : app.codec.encode (batchJson items (requestIds uuid4 items n)) = some data) :
    Quiet app dispatch data := by
  have hcall : ¬ ∃ item ∈ items, item.isCall = true := by
    intro hcall
    exact requestIds_ne_nil hcall (List.toFinset_eq_empty_iff _ |>.mp hexpected)
  obtain ⟨hm, hcount, hroom⟩ := hagreed.resolve_left hcall
  have hlen : ((requests items (requestIds uuid4 items n)).map RawWireRequest.toJson).length =
      items.length := by
    rw [List.length_map, requests, List.length_zipWith, length_requestIds, Nat.min_self]
  refine quiet_batch hr hdata (silent_of_no_call hcall hm n) ?_ (hlen.symm ▸ hcount)
    (hlen.symm ▸ hroom)
  intro h
  rw [h] at hlen
  exact hnil (List.length_eq_zero_iff.mp hlen.symm)

/-- The exchange was numbered and its message is no longer on the way. -/
def Done (s : Channel W) (k : ℕ) : Prop := k < s.exchanges ∧ ∀ m ∈ s.requests, k < m.exchange

/-- Where the exchange in progress stands: nothing is expected; or its message is
the last on the way and no reply is there; or at most its own reply is. -/
def Phase (s : Channel W) : Prop :=
  match s.status with
  | .idle => s.replies = [] ∧ ∀ m ∈ s.requests, m.awaiting = none
  | .waiting k awaiting =>
    (s.replies = [] ∧ ∃ quiet data, s.requests = quiet ++ [⟨k, some awaiting, data⟩] ∧
      ∀ m ∈ quiet, m.awaiting = none) ∨
    (s.requests = [] ∧ (s.replies = [] ∨ ∃ data, s.replies = [⟨k, some awaiting, data⟩]))
  | .closed => True

variable (app dispatch) in
/-- What a message on its way to the server says about the server's answer. -/
structure Pending (m : Message) : Prop where
  quiet : m.awaiting = none → Quiet app dispatch m.data
  batch : ∀ e, m.awaiting = some (.batch e) →
    ∃ items, app.codec.decode m.data = some (.arr items)

variable (app dispatch) in
structure Inv (s : Channel W) : Prop where
  aligned : Aligned s
  phase : Phase s
  pending : ∀ m ∈ s.requests, Pending app dispatch m
  ordered : s.requests.Pairwise fun m m' => m.exchange < m'.exchange
  numbered : ∀ m ∈ s.requests, m.exchange < s.exchanges
  ran_done : ∀ p ∈ s.ran, Done s p.1
  replies_done : ∀ m ∈ s.replies, Done s m.exchange
  refusals_done : ∀ k ∈ s.refusals, Done s k
  /-- The reply to a batch is a list, or nothing of the batch ran. -/
  honest : ∀ m ∈ s.replies, ∀ e, m.awaiting = some (.batch e) →
    (∃ vs, app.codec.decode m.data = some (.arr vs)) ∨ ∀ p ∈ s.ran, p.1 ≠ m.exchange

theorem inv_start (server : State W) : Inv app dispatch (start server) where
  aligned := ⟨by simp [start], by simp [start], by simp [start]⟩
  phase := ⟨rfl, by simp [start]⟩
  pending := by simp [start]
  ordered := .nil
  numbered := by simp [start]
  ran_done := by simp [start]
  replies_done := by simp [start]
  refusals_done := by simp [start]
  honest := by simp [start]

/-- Sending a message whose answer the client expects, or that has none. -/
theorem inv_send {s s' : Channel W} {awaiting : Option Awaiting} {draws : ℕ} {message : Json}
    (hinv : Inv app dispatch s) (hpending : ∀ data, app.codec.encode message = some data →
      Pending app dispatch ⟨s.exchanges, awaiting, data⟩)
    (h : send app s awaiting draws message = some s') : Inv app dispatch s' := by
  have hphase := hinv.phase
  unfold send at h
  cases hstatus : s.status with
  | waiting k a => simp [hstatus] at h
  | closed => simp [hstatus] at h
  | idle =>
    simp only [hstatus, Option.map_eq_some_iff] at h
    obtain ⟨data, hdata, rfl⟩ := h
    simp only [Phase, hstatus] at hphase
    have hdone : ∀ {k}, Done s k → Done (Channel.mk (awaiting.elim .idle (.waiting s.exchanges))
        (s.exchanges + 1) (s.drawn + draws) (s.requests ++ [⟨s.exchanges, awaiting, data⟩])
        s.replies s.server s.down s.accepted s.refusals s.ran) k := by
      intro k hk
      refine ⟨Nat.lt_succ_of_lt hk.1, fun m hm => ?_⟩
      obtain hm | hm := List.mem_append.mp hm
      · exact hk.2 m hm
      · rw [List.mem_singleton.mp hm]
        exact hk.1
    exact {
      aligned := ⟨hinv.aligned.own_reply, hinv.aligned.none_left, hinv.aligned.refused_ran_nothing⟩
      phase := by
        cases awaiting with
        | none =>
          refine ⟨hphase.1, fun m hm => ?_⟩
          obtain hm | hm := List.mem_append.mp hm
          · exact hphase.2 m hm
          · rw [List.mem_singleton.mp hm]
        | some a => exact .inl ⟨hphase.1, s.requests, data, rfl, hphase.2⟩
      pending := by
        intro m hm
        obtain hm | hm := List.mem_append.mp hm
        · exact hinv.pending m hm
        · rw [List.mem_singleton.mp hm]
          exact hpending data hdata
      ordered := by
        rw [List.pairwise_append]
        refine ⟨hinv.ordered, List.pairwise_singleton _ _, fun m hm m' hm' => ?_⟩
        rw [List.mem_singleton.mp hm']
        exact hinv.numbered m hm
      numbered := by
        intro m hm
        obtain hm | hm := List.mem_append.mp hm
        · exact Nat.lt_succ_of_lt (hinv.numbered m hm)
        · rw [List.mem_singleton.mp hm]
          exact Nat.lt_succ_self _
      ran_done := fun p hp => hdone (hinv.ran_done p hp)
      replies_done := fun m hm => hdone (hinv.replies_done m hm)
      refusals_done := fun k hk => hdone (hinv.refusals_done k hk)
      honest := hinv.honest }

/-- Everything that serving a message can change. -/
theorem served_cases (m : Message) (r : State W × Outcome (Option Bytes)) (s : Channel W) :
    ∃ ran replies down, served m r s =
        { s with server := r.1, ran := s.ran ++ ran, replies := replies, down := down } ∧
      (∀ p ∈ ran, p.1 = m.exchange) ∧ (r.1.dispatched = s.server.dispatched → ran = []) ∧
      (replies = s.replies ∨
        ∃ b, r.2 = .value (some b) ∧ replies = s.replies ++ [⟨m.exchange, m.awaiting, b⟩]) := by
  obtain ⟨t, outcome⟩ := r
  have hran : ∀ p ∈ (t.dispatched.drop s.server.dispatched.length).map fun request =>
      (m.exchange, request), p.1 = m.exchange := by
    intro p hp
    obtain ⟨request, -, rfl⟩ := List.mem_map.mp hp
    rfl
  have hnone : t.dispatched = s.server.dispatched →
      ((t.dispatched.drop s.server.dispatched.length).map fun request =>
        (m.exchange, request)) = [] := by
    intro h
    simp [h]
  cases outcome with
  | value reply =>
    cases reply with
    | none => exact ⟨_, _, _, rfl, hran, hnone, .inl rfl⟩
    | some b => exact ⟨_, _, _, rfl, hran, hnone, .inr ⟨b, rfl, rfl⟩⟩
  | raised e => exact ⟨_, _, _, rfl, hran, hnone, .inl rfl⟩
  | cancelled => exact ⟨_, _, _, rfl, hran, hnone, .inl rfl⟩

/-- The head of the requests is served: its reply, if any, is the next one. -/
theorem phase_served {s : Channel W} {m : Message} {rest replies : List Message}
    (hphase : Phase s) (hreq : s.requests = m :: rest)
    (hreplies : replies = s.replies ∨
      m.awaiting ≠ none ∧ ∃ b, replies = s.replies ++ [⟨m.exchange, m.awaiting, b⟩])
    (server : State W) (ran : List (ℕ × RawWireRequest)) (down : Bool) :
    Phase { s with
      requests := rest
      server := server
      ran := ran
      replies := replies
      down := down } := by
  unfold Phase at hphase ⊢
  cases hstatus : s.status with
  | closed => trivial
  | idle =>
    simp only [hstatus] at hphase ⊢
    obtain ⟨hnil, hquiet⟩ := hphase
    have hm : m.awaiting = none := hquiet m (by simp [hreq])
    obtain rfl | ⟨hloud, -⟩ := hreplies
    · exact ⟨hnil, fun m' hm' => hquiet m' (by simp [hreq, hm'])⟩
    · exact absurd hm hloud
  | waiting k a =>
    simp only [hstatus] at hphase ⊢
    obtain ⟨hnil, quiet, data, hrequests, hquiet⟩ | ⟨hempty, -⟩ := hphase
    · cases quiet with
      | nil =>
        -- the message of the exchange in progress itself
        obtain ⟨rfl, rfl⟩ := List.cons.inj (hreq.symm.trans hrequests)
        refine .inr ⟨rfl, ?_⟩
        obtain rfl | ⟨-, b, rfl⟩ := hreplies
        · exact .inl hnil
        · exact .inr ⟨b, by rw [hnil, List.nil_append]⟩
      | cons q quiet =>
        obtain ⟨rfl, hrest⟩ := List.cons.inj (hreq.symm.trans hrequests)
        obtain rfl | ⟨hloud, -⟩ := hreplies
        · exact .inl ⟨hnil, quiet, data, hrest, fun m' hm' => hquiet m' (by simp [hm'])⟩
        · exact absurd (hquiet m (by simp)) hloud
    · rw [hempty] at hreq
      cases hreq

theorem inv_served (hr : app.codec.RoundTrips) {s : Channel W} {m : Message}
    {rest : List Message} (hinv : Inv app dispatch s) (hreq : s.requests = m :: rest) :
    Inv app dispatch
      (served m (process app dispatch none m.data s.server) { s with requests := rest }) := by
  obtain ⟨ran, replies, down, hserved, hran, hnone, hreplies⟩ :=
    served_cases m (process app dispatch none m.data s.server) { s with requests := rest }
  have hpending := hinv.pending m (by simp [hreq])
  have hlater : ∀ m' ∈ rest, m.exchange < m'.exchange := by
    have hordered := hinv.ordered
    rw [hreq, List.pairwise_cons] at hordered
    exact hordered.1
  have hdone : ∀ {k} {t : Channel W}, Done s k → t.exchanges = s.exchanges → t.requests = rest →
      Done t k := by
    intro k t hk he ht
    refine ⟨he ▸ hk.1, fun m' hm' => hk.2 m' ?_⟩
    rw [hreq]
    exact List.mem_cons_of_mem _ (ht ▸ hm')
  have hself : ∀ {t : Channel W}, t.exchanges = s.exchanges → t.requests = rest →
      Done t m.exchange :=
    fun he ht => ⟨he ▸ hinv.numbered m (by simp [hreq]), ht ▸ hlater⟩
  have hbefore : ∀ {k}, Done s k → k < m.exchange := fun hk => hk.2 m (by simp [hreq])
  have hloud : ∀ {b}, (process app dispatch none m.data s.server).2 = .value (some b) →
      m.awaiting ≠ none :=
    fun hb hquiet => hpending.quiet hquiet _ _ _ (Prod.ext rfl hb)
  rw [hserved]
  exact {
    aligned := by
      refine ⟨hinv.aligned.own_reply, fun m' hm' => ?_, fun k hk p hp => ?_⟩
      · obtain rfl | ⟨b, hb, rfl⟩ := hreplies
        · exact hinv.aligned.none_left m' hm'
        · obtain hm' | hm' := List.mem_append.mp hm'
          · exact hinv.aligned.none_left m' hm'
          · rw [List.mem_singleton.mp hm']
            exact hloud hb
      · obtain hp | hp := List.mem_append.mp hp
        · exact hinv.aligned.refused_ran_nothing k hk p hp
        · rw [hran p hp]
          exact (hbefore (hinv.refusals_done k hk)).ne'
    phase := by
      refine phase_served hinv.phase hreq ?_ _ _ _
      obtain rfl | ⟨b, hb, rfl⟩ := hreplies
      · exact .inl rfl
      · exact .inr ⟨hloud hb, b, rfl⟩
    pending := fun m' hm' => hinv.pending m' (by simp [hreq, hm'])
    ordered := by
      have hordered := hinv.ordered
      rw [hreq, List.pairwise_cons] at hordered
      exact hordered.2
    numbered := fun m' hm' => hinv.numbered m' (by simp [hreq, hm'])
    ran_done := by
      intro p hp
      obtain hp | hp := List.mem_append.mp hp
      · exact hdone (hinv.ran_done p hp) rfl rfl
      · rw [hran p hp]
        exact hself rfl rfl
    replies_done := by
      intro m' hm'
      obtain rfl | ⟨b, hb, rfl⟩ := hreplies
      · exact hdone (hinv.replies_done m' hm') rfl rfl
      · obtain hm' | hm' := List.mem_append.mp hm'
        · exact hdone (hinv.replies_done m' hm') rfl rfl
        · rw [List.mem_singleton.mp hm']
          exact hself rfl rfl
    refusals_done := fun k hk => hdone (hinv.refusals_done k hk) rfl rfl
    honest := by
      have hold : ∀ m' ∈ s.replies, ∀ e, m'.awaiting = some (.batch e) →
          (∃ vs, app.codec.decode m'.data = some (.arr vs)) ∨
            ∀ p ∈ s.ran ++ ran, p.1 ≠ m'.exchange := by
        intro m' hm' e he
        refine (hinv.honest m' hm' e he).imp_right fun hnot p hp => ?_
        obtain hp | hp := List.mem_append.mp hp
        · exact hnot p hp
        · rw [hran p hp]
          exact (hbefore (hinv.replies_done m' hm')).ne'
      obtain rfl | ⟨b, hb, rfl⟩ := hreplies
      · exact hold
      · intro m' hm' e he
        obtain hm' | hm' := List.mem_append.mp hm'
        · exact hold m' hm' e he
        · rw [List.mem_singleton.mp hm'] at he ⊢
          obtain ⟨items, hitems⟩ := hpending.batch e he
          refine (batch_reply hr hitems (Prod.ext rfl hb)).imp_right fun hsame p hp => ?_
          rw [hnone hsame, List.append_nil] at hp
          exact (hbefore (hinv.ran_done p hp)).ne }

/-- A refusal is read from one object, never from a list. -/
theorem refusal_of_readMessage {c : Codec} {a : Awaiting} {data : Bytes} {r : Accepted}
    (h : readMessage c a.accept data = .returns (.ok r)) (hr : r.isRefusal = true) :
    ∃ e, a = .batch e ∧ ¬ ∃ vs, c.decode data = some (.arr vs) := by
  obtain ⟨message, hdec, hok⟩ := readMessage_ok h
  cases a with
  | call id =>
    simp only [Awaiting.accept] at hok
    cases hresponse : response message id with
    | error e => simp [hresponse, Except.map] at hok
    | ok envelope =>
      simp only [hresponse, Except.map, Except.ok.injEq] at hok
      rw [← hok] at hr
      cases hr
  | batch expected =>
    refine ⟨expected, rfl, ?_⟩
    rintro ⟨vs, hvs⟩
    obtain rfl := Option.some.inj (hdec.symm.trans hvs)
    simp only [Awaiting.accept, batchResponse] at hok
    cases hcheck : checkEnvelopes expected vs ∅ with
    | error e => simp [hcheck, Except.map] at hok
    | ok es =>
      simp only [hcheck, Except.map, Except.ok.injEq] at hok
      rw [← hok] at hr
      cases hr

/-- The client reads the one reply that is there, which is its own. -/
theorem inv_received {s : Channel W} {k : ℕ} {a : Awaiting} {m : Message} {rest : List Message}
    (hinv : Inv app dispatch s) (hstatus : s.status = .waiting k a)
    (hreplies : s.replies = m :: rest) :
    Inv app dispatch
      (received k m (readMessage app.codec a.accept m.data) { s with replies := rest }) := by
  have hphase := hinv.phase
  simp only [Phase, hstatus] at hphase
  obtain ⟨hnil, -⟩ | ⟨hempty, hnil | ⟨data, hone⟩⟩ := hphase
  · simp [hreplies] at hnil
  · simp [hreplies] at hnil
  obtain ⟨rfl, rfl⟩ := List.cons.inj (hreplies.symm.trans hone)
  have hk : Done s k := hinv.replies_done ⟨k, some a, data⟩ (by simp [hreplies])
  have hdone : ∀ {i} {t : Channel W}, Done s i → t.exchanges = s.exchanges →
      t.requests = s.requests →
      Done t i := fun hi he ht => ⟨he ▸ hi.1, ht ▸ hi.2⟩
  -- what does not depend on how the message was read
  have hquiet : ∀ status accepted, (∀ p ∈ accepted, p.1 = p.2) →
      Phase { s with status := status, replies := [], accepted := accepted } →
      Inv app dispatch { s with status := status, replies := [], accepted := accepted } := by
    intro status accepted haccepted hphase
    exact {
      aligned := ⟨haccepted, by simp, hinv.aligned.refused_ran_nothing⟩
      phase := hphase
      pending := hinv.pending
      ordered := hinv.ordered
      numbered := hinv.numbered
      ran_done := fun p hp => hdone (hinv.ran_done p hp) rfl rfl
      replies_done := by simp
      refusals_done := fun i hi => hdone (hinv.refusals_done i hi) rfl rfl
      honest := by simp }
  have haccepted : ∀ p ∈ s.accepted ++ [(k, k)], p.1 = p.2 := by
    intro p hp
    obtain hp | hp := List.mem_append.mp hp
    · exact hinv.aligned.own_reply p hp
    · rw [List.mem_singleton.mp hp]
  cases hread : readMessage app.codec a.accept data with
  | delivers n =>
    refine hquiet s.status s.accepted hinv.aligned.own_reply ?_
    simp only [Phase, hstatus]
    exact .inr ⟨hempty, .inl trivial⟩
  | returns result =>
    cases result with
    | error e => exact hquiet .closed s.accepted hinv.aligned.own_reply trivial
    | ok r =>
      have hidle := hquiet .idle _ haccepted ⟨rfl, by simp [hempty]⟩
      by_cases hrefusal : r.isRefusal = true
      · obtain ⟨e, rfl, hlist⟩ := refusal_of_readMessage hread hrefusal
        have hran : ∀ p ∈ s.ran, p.1 ≠ k :=
          (hinv.honest ⟨k, some (.batch e), data⟩ (by simp [hreplies]) e rfl).resolve_left hlist
        simp only [received, hrefusal, if_true]
        exact { hidle with
          aligned := ⟨haccepted, by simp, fun i hi => by
            obtain hi | hi := List.mem_append.mp hi
            · exact hinv.aligned.refused_ran_nothing i hi
            · rw [List.mem_singleton.mp hi]
              exact hran⟩
          refusals_done := fun i hi => by
            obtain hi | hi := List.mem_append.mp hi
            · exact hdone (hinv.refusals_done i hi) rfl rfl
            · rw [List.mem_singleton.mp hi]
              exact hdone hk rfl rfl }
      · simpa only [received, hrefusal, Bool.false_eq_true, if_false] using hidle

/-- One step on which the two sides agree keeps the channel aligned. -/
theorem inv_step (hr : app.codec.RoundTrips) {s s' : Channel W} {e : Event R}
    (hinv : Inv app dispatch s) (hagreed : Agreed app s e)
    (h : step app dispatch uuid4 s e = some s') : Inv app dispatch s' := by
  cases e with
  | call method params =>
    refine inv_send hinv (fun data hdata => ⟨fun hnone => ?_, fun e he => ?_⟩) h
    · cases hnone
    · cases he
  | notify method params =>
    refine inv_send hinv (fun data hdata => ⟨fun _ => ?_, fun e he => ?_⟩) h
    · exact quiet_notify hr hagreed hdata
    · cases he
  | batch items =>
    simp only [step] at h
    split_ifs at h with hnil hexpected
    · refine inv_send hinv (fun data hdata => ⟨fun _ => ?_, fun e he => ?_⟩) h
      · exact quiet_of_no_call hr hnil hexpected hagreed hdata
      · cases he
    · refine inv_send hinv (fun data hdata => ⟨fun hnone => ?_, fun e he => ?_⟩) h
      · cases hnone
      · exact ⟨_, hr _ _ hdata⟩
  | serve =>
    simp only [step] at h
    split at h
    · obtain rfl := Option.some.inj h
      exact inv_served hr hinv ‹_›
    · cases h
  | receive =>
    simp only [step] at h
    split at h
    · obtain rfl := Option.some.inj h
      exact inv_received hinv ‹_› ‹_›
    · cases h
  | abort =>
    obtain rfl := Option.some.inj h
    exact { hinv with
      aligned := ⟨hinv.aligned.own_reply, hinv.aligned.none_left, hinv.aligned.refused_ran_nothing⟩
      phase := trivial }

/-- Over any sequence of exchanges on which client and server agree about which
messages are answered, the channel stays aligned. -/
theorem aligned_of_agreed (app : ExecutionHost W) (dispatch : Dispatch W) (uuid4 : ℕ → String)
    (hr : app.codec.RoundTrips) (server : State W) (es : List (Event R)) (s : Channel W)
    (hagreed : Machine.Meets (step app dispatch uuid4) (Agreed app) (start server) es)
    (hrun : Machine.run (step app dispatch uuid4) (start server) es = some s) : Aligned s :=
  (Machine.invariant_of_meets (fun _ _ _ hinv hc h => inv_step hr hinv hc h) (inv_start server)
    hagreed hrun).aligned

/-- A notification that the server runs in silence, then a call. -/
theorem aligned_of_agreed_notify : ∃ s,
    Machine.run (step (leastHost 1) failing sampleUuid4) (start initial)
        [.notify "log" .null, .serve, .call (R := Json) "add" .null] = some s ∧ Aligned s := by
  have hprocess : ∃ server, process (leastHost 1) failing none
      (Json.encode (notifyJson "log" .null)) initial = (server, .value none) := by
    rw [process_of_decode (msgSpecJsonCodec_roundTrips _ _ rfl)]
    exact ⟨_, rfl⟩
  obtain ⟨server, hprocess⟩ := hprocess
  let sent : Channel Unit :=
    ⟨.idle, 1, 0, [⟨0, none, Json.encode (notifyJson "log" .null)⟩], [], initial, false, [], [], []⟩
  let answered : Channel Unit := { sent with
    requests := []
    server := server
    ran := server.dispatched.map fun request => (0, request) }
  have hsend : step (leastHost 1) failing sampleUuid4 (start initial)
      (.notify (R := Json) "log" .null) = some sent := rfl
  have hserve : step (leastHost 1) failing sampleUuid4 sent (.serve (R := Json)) =
      some answered := by
    show some (served _ (process (leastHost 1) failing none _ initial) _) = some answered
    rw [hprocess]
    rfl
  have hcall : ∃ s, step (leastHost 1) failing sampleUuid4 answered
      (.call (R := Json) "add" .null) = some s := ⟨_, rfl⟩
  obtain ⟨s, hcall⟩ := hcall
  have hrun : Machine.run (step (leastHost 1) failing sampleUuid4) (start initial)
      [.notify "log" .null, .serve, .call (R := Json) "add" .null] = some s := by
    simp only [Machine.run_cons, hsend, hserve, hcall, Option.bind_some, Machine.run_nil]
  have hvalid : ValidMethod "log" := by decide
  have hagreed : Machine.Meets (step (leastHost 1) failing sampleUuid4) (Agreed (leastHost 1))
      (start initial) [.notify "log" .null, .serve, .call (R := Json) "add" .null] := by
    refine Machine.meets_cons.mpr ⟨hvalid, fun _ _ => ?_⟩
    refine Machine.meets_cons.mpr ⟨trivial, fun _ _ => ?_⟩
    exact Machine.meets_cons.mpr ⟨trivial, fun _ _ => trivial⟩
  exact ⟨s, hrun, aligned_of_agreed (leastHost 1) failing sampleUuid4 msgSpecJsonCodec_roundTrips
    initial _ s hagreed hrun⟩

/-- Two notifications, then a call, for a server that takes one item a batch. -/
def crossing : List (Event Json) :=
  [.batch [.notification "log" .null, .notification "log" .null], .serve,
    .batch [.call "add" some .null], .receive, .serve]

/-- The server's state after it refused the notifications. -/
def afterRefusal : State Unit := (refuseBatch (leastHost 1) none initial.countRequest).1

theorem process_notifications :
    process (leastHost 1) failing none
        (Json.encode (.arr [notifyJson "log" .null, notifyJson "log" .null])) initial =
      (afterRefusal, .value (some (Json.encode invalidRequestJson))) := by
  rw [process_of_decode (msgSpecJsonCodec_roundTrips _ _ rfl)]
  rfl

set_option maxRecDepth 4000 in
theorem process_call : ∃ s outcome,
    process (leastHost 1) failing none
        (Json.encode (.arr [callJson "add" (sampleUuid4 0) .null])) afterRefusal = (s, outcome) ∧
      s.dispatched = [⟨"add", some (.str (sampleUuid4 0)), .null⟩] := by
  rw [process_of_decode (msgSpecJsonCodec_roundTrips _ _ rfl)]
  exact ⟨_, _, rfl, rfl⟩

/-- The refusal of the notifications stays in the channel. The next batch takes
it for its own, and is reported as refused although its call runs. -/
theorem crossing_not_aligned : ∃ s,
    Machine.run (step (leastHost 1) failing sampleUuid4) (start initial) crossing = some s ∧
      ¬ Aligned s ∧ s.accepted = [(1, 0)] ∧ s.refusals = [1] ∧ ∃ p ∈ s.ran, p.1 = 1 := by
  obtain ⟨server, outcome, hcall, hran⟩ := process_call
  let sent : Channel Unit := ⟨.idle, 1, 0, [⟨0, none, Json.encode (.arr
    [notifyJson "log" .null, notifyJson "log" .null])⟩], [], initial, false, [], [], []⟩
  let left : Channel Unit := { sent with
    requests := []
    replies := [⟨0, none, Json.encode invalidRequestJson⟩]
    server := afterRefusal }
  let waiting : Channel Unit := { left with
    status := .waiting 1 (.batch (expected [some (sampleUuid4 0)]))
    exchanges := 2
    drawn := 1
    requests := [⟨1, some (.batch (expected [some (sampleUuid4 0)])),
      Json.encode (.arr [callJson "add" (sampleUuid4 0) .null])⟩] }
  let refused : Channel Unit := { waiting with
    status := .idle
    replies := []
    accepted := [(1, 0)]
    refusals := [1] }
  have hsend : step (leastHost 1) failing sampleUuid4 (start initial) (.batch (R := Json)
      [.notification "log" .null, .notification "log" .null]) = some sent := rfl
  have hserve : step (leastHost 1) failing sampleUuid4 sent (.serve (R := Json)) = some left := by
    show some (served _ (process (leastHost 1) failing none _ initial) _) = some left
    rw [process_notifications]
    rfl
  have hbatch : step (leastHost 1) failing sampleUuid4 left (.batch (R := Json)
      [.call "add" some .null]) = some waiting := rfl
  have hreceive : step (leastHost 1) failing sampleUuid4 waiting (.receive (R := Json)) =
      some refused := by
    show some (received 1 _ (readMessage _ (Awaiting.accept _) (Json.encode invalidRequestJson)) _)
      = some refused
    have hdec : (leastHost 1).codec.decode (Json.encode invalidRequestJson) =
        some invalidRequestJson := msgSpecJsonCodec_roundTrips _ _ rfl
    unfold readMessage
    rw [hdec]
    rfl
  have hlast : step (leastHost 1) failing sampleUuid4 refused (.serve (R := Json)) =
      some (served ⟨1, some (.batch (expected [some (sampleUuid4 0)])),
        Json.encode (.arr [callJson "add" (sampleUuid4 0) .null])⟩ (server, outcome)
        { refused with requests := [] }) := by
    rw [← hcall]
    rfl
  have hfinal : ∃ p ∈ (served ⟨1, some (.batch (expected [some (sampleUuid4 0)])),
      Json.encode (.arr [callJson "add" (sampleUuid4 0) .null])⟩ (server, outcome)
      { refused with requests := [] }).ran, p.1 = 1 := by
    refine ⟨(1, ⟨"add", some (.str (sampleUuid4 0)), .null⟩), ?_, rfl⟩
    rw [served_ran, hran]
    exact List.mem_append_right _ List.mem_cons_self
  refine ⟨_, ?_, fun haligned => ?_, served_accepted _ _ _, served_refusals _ _ _, hfinal⟩
  · apply (Machine.run_cons_of hsend).trans
    apply (Machine.run_cons_of hserve).trans
    apply (Machine.run_cons_of hbatch).trans
    apply (Machine.run_cons_of hreceive).trans
    exact Machine.run_cons_of hlast
  · obtain ⟨p, hp, hone⟩ := hfinal
    refine haligned.refused_ran_nothing 1 ?_ p hp hone
    rw [served_refusals]
    exact List.mem_cons_self

end WireRpc.Alignment
