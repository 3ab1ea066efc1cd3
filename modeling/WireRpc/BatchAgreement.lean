import WireRpc.ReplyAcceptance
import WireRpc.Conformance

/-!
# Client and server agree on batches

Every item that the client encodes converts on the server, so a batch that is
not refused is answered with exactly one response for each id the client waits
for, and the client finds each of them.
-/
namespace WireRpc
open Library Execution

theorem convert_toJson {r : RawWireRequest} (hm : ValidMethod r.method)
    (hid : ∀ i, r.id = some i → i.Allowed) : convert r.toJson = some r := by
  obtain ⟨method, id, params⟩ := r
  cases id with
  | none =>
    simp only [RawWireRequest.toJson, RawWireRequest.idField, convert]
    simpa [convertId] using hm
  | some i =>
    have hi : i.Allowed := hid i rfl
    simp only [RawWireRequest.toJson, RawWireRequest.idField, convert]
    simpa [convertId, hi] using hm

theorem validate_toJson {r : RawWireRequest} (hm : ValidMethod r.method)
    (hid : ∀ i, r.id = some i → i.Allowed) : validate r.toJson = some r := by
  rw [← convert_toJson hm hid]
  obtain ⟨method, id, params⟩ := r
  cases id <;> simp [validate, RawWireRequest.toJson, RawWireRequest.idField]

namespace Client

variable {R : Type}

theorem validateError_errorJson (e : WireError) (id : RequestId) :
    validateError [("error", e.toJson), ("id", id.toJson), ("jsonrpc", .str "2.0")] =
      .ok (.rpc e.code e.message e.data) := by
  obtain ⟨kind, message, data⟩ := e
  cases kind <;> simp [validateError, WireError.toJson, WireError.code, ErrorKind.code]

/-- An encoded response to a string id passes the client's checks. -/
theorem validateResponse_toJson {a : WireResponse} {envelope : Envelope} {id : String}
    (h : a.toJson = some (.obj envelope)) (hid : a.id = .str id) :
    validateResponse envelope id = .ok () ∧ idString envelope = some id ∧
      Json.get? envelope "id" = some (.str id) := by
  cases a with
  | success result i =>
    obtain ⟨v, rfl, hv⟩ := Option.map_eq_some_iff.mp h
    obtain rfl : i = .str id := hid
    obtain rfl := Json.obj.inj hv
    simp [validateResponse, hasVersion, idString, RequestId.toJson]
  | error e i =>
    obtain rfl : i = .str id := hid
    obtain rfl := Json.obj.inj (Option.some.inj h)
    have herror := validateError_errorJson e (.str id)
    simp only [RequestId.toJson] at herror
    simp [validateResponse, hasVersion, idString, RequestId.toJson, herror]

theorem toJson_eq_obj {a : WireResponse} {v : Json} (h : a.toJson = some v) :
    ∃ envelope, v = .obj envelope := by
  cases a with
  | success result i =>
    obtain ⟨r, -, rfl⟩ := Option.map_eq_some_iff.mp h
    exact ⟨_, rfl⟩
  | error e i => exact ⟨_, (Option.some.inj h).symm⟩

/-- Encoded responses are the envelopes that answer their ids. -/
theorem exists_envelopes {as : List WireResponse} {entries : List Json}
    (h : List.Forall₂ (fun a v => WireResponse.toJson a = some v) as entries) {ids : List String}
    (hids : List.Forall₂ (fun a id => a.id = .str id) as ids) :
    ∃ es, entries = es.map .obj ∧ List.Forall₂ Answers es ids ∧
      List.Forall₂ (fun a e => WireResponse.toJson a = some (.obj e)) as es := by
  induction h generalizing ids with
  | nil =>
    cases hids
    exact ⟨[], rfl, .nil, .nil⟩
  | @cons a v as entries ha _ ih =>
    obtain ⟨id, ids, hid, htail, rfl⟩ := List.forall₂_cons_left_iff.mp hids
    obtain ⟨envelope, rfl⟩ := toJson_eq_obj ha
    obtain ⟨es, rfl, hanswers, hjson⟩ := ih htail
    have hanswer := validateResponse_eq_ok.mp (validateResponse_toJson ha hid).1
    exact ⟨envelope :: es, rfl, .cons hanswer hanswers, .cons ha hjson⟩

/-- What `batch` reports for an item, given the response of the server's own
execution of it: that response, or an internal error when the response was
longer and did not fit. -/
inductive Reports (c : Codec) : BatchItem R × Option WireResponse → Result R → Prop
  | notification {method : String} {params : Json} :
      Reports c (.notification method params, none) .none
  | value {method : String} {responseType : Json → Option R} {params v : Json} {id : RequestId}
      {r : R} (h : responseType v = some r) :
      Reports c (.call method responseType params, some (.success (some v) id)) (.value r)
  | failed {method : String} {responseType : Json → Option R} {params : Json} {e : WireError}
      {id : RequestId} :
      Reports c (.call method responseType params, some (.error e id))
        (.failed (.rpc e.code e.message e.data))
  | short {method : String} {responseType : Json → Option R} {params : Json} {a : WireResponse}
      {own f : Bytes} (hown : c.encodeResponse a = some own)
      (hf : c.encodeResponse (.error ⟨.internal, "Internal server error", .null⟩ a.id) = some f)
      (hlt : f.length < own.length) :
      Reports c (.call method responseType params, some a)
        (.failed (.rpc (-32603) "Internal server error" .null))

/-- Responses carry the ids of the requests they answer. -/
def OwnIds (answers : List (Json × Option WireResponse)) : Prop :=
  ∀ p ∈ answers, ∀ a, p.2 = some a → ∀ r, validate p.1 = some r → a.id = r.responseId

/-- What is sent for a call: the response to it or its fallback, with its id. -/
theorem sent_of_call {c : Codec} {r : RawWireRequest} {i : RequestId}
    (hv : validate r.toJson = some r) (hi : r.id = some i) {answer sent : Option WireResponse}
    (hown : ∀ a, answer = some a → a.id = r.responseId)
    (h : SentFor c (r.toJson, answer) sent) :
    ∃ a a', answer = some a ∧ sent = some a' ∧ a.id = i ∧ a'.id = i ∧
      (a' = a ∨ a' = .error ⟨.internal, "Internal server error", .null⟩ a.id ∧
        ∃ own f, c.encodeResponse a = some own ∧ c.encodeResponse a' = some f ∧
          f.length < own.length) := by
  have hid : r.responseId = i := by simp [RawWireRequest.responseId, hi]
  cases h with
  | silent hsilent =>
    rw [silent_eq_notification] at hsilent
    simp [Execution.notification, hv, hi] at hsilent
  | @own _ a _ =>
    have ha := (hown a rfl).trans hid
    exact ⟨a, a, rfl, rfl, ha, ha, .inl rfl⟩
  | @short _ a own f _ hencode hf hlt =>
    have ha := (hown a rfl).trans hid
    have hfallback : fallbackId r.toJson = i := (fallbackId_of_validate hv).trans hid
    refine ⟨a, _, rfl, rfl, ha, hfallback, .inr ⟨?_, own, f, hencode, hf, hlt⟩⟩
    rw [fallbackResponse, hfallback, ha]

theorem sent_of_notification {c : Codec} {r : RawWireRequest}
    (hv : validate r.toJson = some r) (hi : r.id = none) {answer sent : Option WireResponse}
    (h : SentFor c (r.toJson, answer) sent) : answer = none ∧ sent = none := by
  have hn : silent r.toJson = true := by
    rw [silent_eq_notification]
    simp [Execution.notification, hv, hi]
  cases h with
  | silent _ => exact ⟨rfl, rfl⟩
  | own hloud => simp [hn] at hloud
  | short hloud => simp [hn] at hloud

/-- A batch the client can send: valid method names, ids of allowed length. -/
def Sendable (uuid4 : ℕ → String) (items : List (BatchItem R)) : Prop :=
  (∀ item ∈ items, ValidMethod item.method) ∧ ∀ n, (uuid4 n).length = 36

theorem Sendable.tail {uuid4 : ℕ → String} {item : BatchItem R} {items : List (BatchItem R)}
    (h : Sendable uuid4 (item :: items)) : Sendable uuid4 items :=
  ⟨fun i hi => h.1 i (List.mem_cons_of_mem _ hi), h.2⟩

theorem validate_toRequest {uuid4 : ℕ → String} {item : BatchItem R} {items : List (BatchItem R)}
    (h : Sendable uuid4 (item :: items)) (n : ℕ) :
    validate (toRequest item (requestId uuid4 item n)).toJson =
      some (toRequest item (requestId uuid4 item n)) := by
  apply validate_toJson
  · exact h.1 item (by simp)
  · intro i hi
    cases item with
    | notification method params => cases hi
    | call method responseType params =>
      obtain rfl := Option.some.inj hi
      show (uuid4 n).length ≤ 255
      rw [h.2 n]
      norm_num

/-- The answers to the items of a batch that the client encoded. -/
def AnswersTo (uuid4 : ℕ → String) (items : List (BatchItem R)) (n : ℕ)
    (answers : List (Json × Option WireResponse)) : Prop :=
  answers.map Prod.fst = (requests items (requestIds uuid4 items n)).map RawWireRequest.toJson ∧
    OwnIds answers

theorem AnswersTo.cons {uuid4 : ℕ → String} {item : BatchItem R} {items : List (BatchItem R)}
    {n : ℕ} {answers : List (Json × Option WireResponse)}
    (h : AnswersTo uuid4 (item :: items) n answers) :
    ∃ answer rest, answers = ((toRequest item (requestId uuid4 item n)).toJson, answer) :: rest ∧
      (∀ a, answer = some a → ∀ r, validate (toRequest item (requestId uuid4 item n)).toJson =
        some r → a.id = r.responseId) ∧
      AnswersTo uuid4 items (drawn item n) rest := by
  obtain ⟨hfst, hown⟩ := h
  cases answers with
  | nil => simp [requests, requestIds] at hfst
  | cons p rest =>
    obtain ⟨j, answer⟩ := p
    simp only [List.map_cons, requests, requestIds, List.zipWith_cons_cons,
      List.cons.injEq] at hfst
    obtain ⟨rfl, hrest⟩ := hfst
    exact ⟨answer, rest, rfl, hown _ List.mem_cons_self, hrest,
      fun p hp => hown p (List.mem_cons_of_mem _ hp)⟩

/-- The executions convert to the types the caller asked for. -/
def Converts (items : List (BatchItem R)) (answers : List (Json × Option WireResponse)) : Prop :=
  ∀ method responseType params v id,
    (BatchItem.call method responseType params, some (.success (some v) id)) ∈
      items.zip (answers.map Prod.snd) → (responseType v : Option R).isSome

/-- The response sent for a call becomes the entry that reports it. -/
theorem resultOf_sent {c : Codec} {method : String} {responseType : Json → Option R}
    {params : Json} {a a' : WireResponse} {envelope : Envelope}
    (ha : a'.toJson = some (.obj envelope))
    (hsent : a' = a ∨ a' = .error ⟨.internal, "Internal server error", .null⟩ a.id ∧
      ∃ own f, c.encodeResponse a = some own ∧ c.encodeResponse a' = some f ∧
        f.length < own.length)
    (hconv : ∀ v id, a = .success (some v) id → (responseType v).isSome) :
    ∃ r, resultOf responseType envelope = .ok r ∧
      Reports c (.call method responseType params, some a) r := by
  have herror : ∀ (e : WireError) id, a' = .error e id →
      resultOf responseType envelope = .ok (.failed (.rpc e.code e.message e.data)) := by
    rintro e id rfl
    obtain rfl := Json.obj.inj (Option.some.inj ha)
    simp only [resultOf, validateError_errorJson]
    simp
  obtain rfl | ⟨rfl, own, f, hown, hf, hlt⟩ := hsent
  · cases a' with
    | error e id => exact ⟨_, herror e id rfl, .failed⟩
    | success result id =>
      obtain ⟨v, rfl, hv⟩ := Option.map_eq_some_iff.mp ha
      obtain rfl := Json.obj.inj hv
      obtain ⟨r, hr⟩ := Option.isSome_iff_exists.mp (hconv v id rfl)
      exact ⟨.value r, by simp [resultOf, hr], .value hr⟩
  · exact ⟨_, herror _ _ rfl, .short hown hf hlt⟩

/-- What is sent answers the ids of the calls in order, and once each response
is found under its id, every item is reported. -/
theorem batch_of_sent {c : Codec} {uuid4 : ℕ → String} {items : List (BatchItem R)} {n : ℕ}
    (hitems : Sendable uuid4 items) {answers : List (Json × Option WireResponse)}
    (hanswers : AnswersTo uuid4 items n answers) (hconv : Converts items answers)
    {sent : List (Option WireResponse)} (hsent : List.Forall₂ (SentFor c) answers sent) :
    List.Forall₂ (fun a id => a.id = .str id) sent.reduceOption
        (requestIds uuid4 items n).reduceOption ∧
      ∀ es, (∀ a ∈ sent.reduceOption, ∀ id, a.id = .str id →
          ∃ e, byId es id = some e ∧ a.toJson = some (.obj e)) →
        ∃ results, batchResults es items (requestIds uuid4 items n) = .ok results ∧
          List.Forall₂ (Reports c) (items.zip (answers.map Prod.snd)) results := by
  induction items generalizing n answers sent with
  | nil =>
    obtain ⟨hfst, -⟩ := hanswers
    obtain rfl : answers = [] := by simpa [requests, requestIds] using hfst
    cases hsent
    exact ⟨.nil, fun es _ => ⟨[], rfl, .nil⟩⟩
  | cons item items ih =>
    obtain ⟨answer, answers, rfl, hown, hrest⟩ := hanswers.cons
    obtain ⟨sent₁, sent, hfirst, htail, rfl⟩ := List.forall₂_cons_left_iff.mp hsent
    have hconv' : Converts items answers := fun method responseType params v id h =>
      hconv method responseType params v id (by simp [h])
    obtain ⟨hmap, hresults⟩ := ih hitems.tail hrest hconv' htail
    have hv := validate_toRequest hitems n
    have hid := fun a ha => hown a ha _ hv
    cases item with
    | notification method params =>
      obtain ⟨rfl, rfl⟩ := sent_of_notification hv rfl hfirst
      refine ⟨hmap, fun es hfound => ?_⟩
      obtain ⟨results, hok, hreports⟩ := hresults es hfound
      refine ⟨.none :: results, ?_, .cons .notification hreports⟩
      simp only [requestIds, requestId, drawn] at hok ⊢
      simp only [batchResults, hok]
    | call method responseType params =>
      obtain ⟨a, a', rfl, rfl, -, hid', hsent'⟩ := sent_of_call hv rfl hid hfirst
      refine ⟨.cons hid' hmap, fun es hfound => ?_⟩
      obtain ⟨results, hok, hreports⟩ := hresults es fun a ha => hfound a (by simp [ha])
      obtain ⟨envelope, hfind, hjson⟩ := hfound a' (by simp) _ hid'
      obtain ⟨r, hr, hreport⟩ := resultOf_sent hjson hsent' fun v id ha =>
        hconv method responseType params v id (by simp [ha])
      refine ⟨r :: results, ?_, .cons hreport hreports⟩
      simp only [requestIds, requestId, drawn] at hok ⊢
      simp only [batchResults, hfind, hr, hok]

variable {W : Type} {app : ExecutionHost W} {dispatch : Dispatch W} {deadline : ℕ}
  {clientId : Option String}

theorem answers_ownIds (hd : AnswersWithId dispatch) (hi : IdentityReturns app)
    (items : List Json) (s : State W) :
    OwnIds (answers app dispatch deadline clientId items s) := by
  induction items generalizing s with
  | nil => simp [OwnIds, answers]
  | cons item items ih =>
    intro p hp a ha
    obtain rfl | hp := List.mem_cons.mp hp
    · exact (answerOf_eq_some hd hi ha).1
    · exact ih _ p hp a ha

/-- A batch with a call waits for an id. -/
theorem requestIds_ne_nil {uuid4 : ℕ → String} {items : List (BatchItem R)} {n : ℕ}
    (h : ∃ item ∈ items, item.isCall = true) : (requestIds uuid4 items n).reduceOption ≠ [] := by
  induction items generalizing n with
  | nil => simp at h
  | cons item items ih =>
    cases item with
    | call method responseType params => simp [requestIds, requestId]
    | notification method params =>
      have htail : ∃ item ∈ items, item.isCall = true := by simpa [BatchItem.isCall] using h
      exact ih htail

/-- The refusal of a batch is accepted as one. -/
theorem readMessage_refused {c : Codec} {b : Bytes} (h : c.decode b = some invalidRequestJson)
    (expected : Finset String) :
    readMessage c (batchResponse expected) b =
      .returns (.ok (.refused (.rpc (-32600) "Invalid request" .null))) := by
  simp [readMessage, h, invalidRequestJson, WireResponse.errorJson, isNotification,
    batchResponse, RequestId.toJson, WireError.toJson, validateError, ErrorKind.code]

/-- The responses that are sent are accepted, and each is found under its id. -/
theorem batchResponse_ok {sent : List WireResponse} {entries : List Json}
    {ids : List (Option String)}
    (hentries : List.Forall₂ (fun r v => WireResponse.toJson r = some v) sent entries)
    (hids : List.Forall₂ (fun a id => a.id = .str id) sent ids.reduceOption)
    (hnodup : ids.reduceOption.Nodup) :
    ∃ es, batchResponse (expected ids) (.arr entries) = .ok (.envelopes es) ∧
      ∀ a ∈ sent, ∀ id, a.id = .str id →
        ∃ e, byId es id = some e ∧ a.toJson = some (.obj e) := by
  obtain ⟨es, rfl, hanswers, hjson⟩ := exists_envelopes hentries hids
  refine ⟨es, batchResponse_responses.mpr ⟨rfl, _, hanswers, hnodup, rfl⟩, fun a ha id hid => ?_⟩
  obtain ⟨e, he, hv⟩ := forall₂_exists_right hjson ha
  exact ⟨e, byId_eq_some (nodup_of_answers hanswers hnodup) he
    (validateResponse_toJson hv hid).2.1, hv⟩

/-- A batch with a call, sent to a server, comes back as a refusal of the whole
batch of which nothing ran, or with one entry for each item, in item order,
which reports the server's execution of that item. -/
theorem batch_agrees (app : ExecutionHost W) (dispatch : Dispatch W) (clientId : Option String)
    (hr : app.codec.RoundTrips) (he : app.codec.EncodesErrors) (hl : app.codec.EncodesLists)
    (hd : AnswersWithId dispatch) (hi : IdentityReturns app) (uuid4 : ℕ → String) (n : ℕ)
    (items : List (BatchItem R)) (hitems : Sendable uuid4 items)
    (hcall : ∃ item ∈ items, item.isCall = true)
    (hnodup : (requestIds uuid4 items n).reduceOption.Nodup) (data : Bytes)
    (hdata : app.codec.encode (batchJson items (requestIds uuid4 items n)) = some data)
    (s : State W)
    (hconv : Converts items (answers app dispatch (app.clock s.world + app.handlerTimeout) clientId
      ((requests items (requestIds uuid4 items n)).map RawWireRequest.toJson) s.countRequest)) :
    ∃ s' reply r, process app dispatch clientId data s = (s', .value (some reply)) ∧
      readMessage app.codec (batchResponse (expected (requestIds uuid4 items n))) reply =
        .returns (.ok r) ∧
      ((finishBatch items (requestIds uuid4 items n) r =
          .error (.rpc (-32600) "Invalid request" .null) ∧ s'.dispatched = s.dispatched) ∨
        ∃ results, finishBatch items (requestIds uuid4 items n) r = .ok results ∧
          results.length = items.length ∧
          List.Forall₂ (Reports app.codec)
            (items.zip ((answers app dispatch (app.clock s.world + app.handlerTimeout) clientId
              ((requests items (requestIds uuid4 items n)).map RawWireRequest.toJson)
              s.countRequest).map Prod.snd)) results) := by
  have hdec : app.codec.decode data = some (batchJson items (requestIds uuid4 items n)) :=
    hr _ _ hdata
  rw [process_of_decode hdec, batchJson, processEnvelope_arr]
  generalize hwire : (requests items (requestIds uuid4 items n)).map RawWireRequest.toJson = wire
    at hconv ⊢
  by_cases hrefused : Refused app wire
  · obtain ⟨reply, hreply⟩ := encodeReply_returns he .invalidRequest "Invalid request" .null
    obtain ⟨b, hb, rfl⟩ := encodeReply_eq_value.mp hreply
    refine ⟨_, b, _, (processBatch_of_refused hrefused).trans (Prod.ext rfl hreply),
      readMessage_refused (hr _ _ hb) _, .inl ⟨rfl, ?_⟩⟩
    exact dispatched_refuseBatch app clientId s.countRequest
  · obtain ⟨sent, entries, reply, hrun, hsent, hentries, hnone, hdecode⟩ :=
      processBatch_returns hr he hl hd.returns hi (app.clock s.world + app.handlerTimeout)
        clientId hrefused s.countRequest
    have hanswers : AnswersTo uuid4 items n
        (answers app dispatch (app.clock s.world + app.handlerTimeout) clientId wire
          s.countRequest) :=
      ⟨(map_fst_answers wire s.countRequest).trans hwire.symm, answers_ownIds hd hi wire _⟩
    obtain ⟨hids, hresults⟩ := batch_of_sent hitems hanswers hconv hsent
    obtain ⟨es, hok, hfound⟩ := batchResponse_ok hentries hids hnodup
    obtain ⟨results, hresult, hreports⟩ := hresults es hfound
    have hsome : entries ≠ [] := by
      rintro rfl
      rw [List.forall₂_nil_right_iff.mp hentries, List.forall₂_nil_left_iff] at hids
      exact requestIds_ne_nil hcall hids
    obtain ⟨b, rfl⟩ := Option.ne_none_iff_exists'.mp fun h => hsome (hnone.mp h)
    refine ⟨_, b, .envelopes es, Prod.ext rfl hrun, ?_, .inr ⟨results, hresult, ?_, hreports⟩⟩
    · simp [readMessage, hdecode b rfl, hok]
    · have hlen : (answers app dispatch (app.clock s.world + app.handlerTimeout) clientId wire
          s.countRequest).length = items.length := by
        rw [← List.length_map Prod.fst, hanswers.1, List.length_map, requests,
          List.length_zipWith, length_requestIds, Nat.min_self]
      rw [← hreports.length_eq, List.length_zip, List.length_map, hlen, Nat.min_self]

/-- Sixteen ids with the length of a uuid. -/
def sampleUuid4 (n : ℕ) : String :=
  "00000000-0000-4000-8000-00000000000" ++ String.singleton (Nat.digitChar (n % 16))

theorem length_sampleUuid4 (n : ℕ) : (sampleUuid4 n).length = 36 := by
  have h : "00000000-0000-4000-8000-00000000000".length = 35 := by decide +kernel
  unfold sampleUuid4
  rw [String.length_append, h, String.length_singleton]

/-- A call and a notification. -/
def samplePair : List (BatchItem Json) := [.call "add" some .null, .notification "log" .null]

theorem samplePair_sendable : Sendable sampleUuid4 samplePair := by
  refine ⟨fun item h => ?_, length_sampleUuid4⟩
  simp only [samplePair, List.mem_cons, List.not_mem_nil, or_false] at h
  obtain rfl | rfl := h <;> decide

/-- With handlers that raise, every response is an error. -/
theorem answers_failing (n : ℕ) (hn : 0 < n) (items : List Json) (s : State Unit)
    (p : Json × Option WireResponse)
    (hp : p ∈ answers (leastHost n hn) failing deadline clientId items s) :
    ∀ a, p.2 = some a → ∃ e id, a = .error e id := by
  induction items generalizing s with
  | nil => simp [answers] at hp
  | cons item items ih =>
    obtain rfl | hp := List.mem_cons.mp hp
    · intro a ha
      simp only [answerOf] at ha
      split at ha
      · exact ⟨_, _, (Option.some.inj ha).symm⟩
      · split_ifs at ha
        exact ⟨_, _, (Option.some.inj ha).symm⟩
    · exact ih _ hp

theorem batch_agrees_pair : ∃ s' reply r results,
    process (leastHost 2) failing none
        (Json.encode (batchJson samplePair (requestIds sampleUuid4 samplePair 0))) initial =
      (s', .value (some reply)) ∧
    readMessage msgSpecJsonCodec
        (batchResponse (expected (requestIds sampleUuid4 samplePair 0))) reply =
      .returns (.ok r) ∧
    finishBatch samplePair (requestIds sampleUuid4 samplePair 0) r = .ok results ∧
    results.length = 2 := by
  have hran : (process (leastHost 2) failing none
      (Json.encode (batchJson samplePair (requestIds sampleUuid4 samplePair 0)))
        initial).1.dispatched.length = 2 := by
    decide +kernel
  have hagree := batch_agrees (leastHost 2) failing none msgSpecJsonCodec_roundTrips
    msgSpecJsonCodec_encodesErrors msgSpecJsonCodec_encodesLists failing_answersWithId
    (leastHost_identityReturns _) sampleUuid4 0 samplePair samplePair_sendable
    ⟨_, List.mem_cons_self, rfl⟩ (List.nodup_singleton _) _ rfl initial ?_
  · obtain ⟨s', reply, r, hrun, hread, ⟨-, hnone⟩ | ⟨results, hresults, hlength, -⟩⟩ := hagree
    · rw [hrun, hnone] at hran
      cases hran
    · exact ⟨s', reply, r, results, hrun, hread, hresults, hlength⟩
  · intro method responseType params v id h
    obtain ⟨p, hp, hsome⟩ := List.mem_map.mp (List.of_mem_zip h).2
    obtain ⟨e, i, hcontra⟩ := answers_failing 2 _ _ _ p hp _ hsome
    cases hcontra

end Client
end WireRpc
