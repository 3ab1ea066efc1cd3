import WireRpc.Client
import WireRpc.Library.Lists

/-!
# What the client accepts as a reply

The checks of the client against what a reply has to be: a response to the id of
the call, or exactly one response for each id of the batch. The refusal of a whole
batch is checked less.
-/
namespace WireRpc.Client
open Library

/-- The error is an object with an integer code and a string message. -/
def HasError (envelope : Envelope) : Prop :=
  ∃ error code text, Json.get? envelope "error" = some (.obj error) ∧
    Json.get? error "code" = some (.int code) ∧ Json.get? error "message" = some (.str text)

/-- The response to an id. -/
structure Answers (envelope : Envelope) (id : String) : Prop where
  version : Json.get? envelope "jsonrpc" = some (.str "2.0")
  id_eq : Json.get? envelope "id" = some (.str id)
  either : (Json.get? envelope "result").isSome ∧ Json.get? envelope "error" = none ∨
    Json.get? envelope "result" = none ∧ HasError envelope

/-- The refusal of a whole batch. -/
structure Refuses (envelope : Envelope) : Prop where
  version : Json.get? envelope "jsonrpc" = some (.str "2.0")
  id_eq : Json.get? envelope "id" = some .null
  no_result : Json.get? envelope "result" = none
  error : HasError envelope

/-- One response for each expected id and nothing else, or the refusal of them all. -/
inductive AnswersBatch (expected : Finset String) : Json → Prop
  | responses (envelopes : List Envelope) (ids : List String)
      (hanswers : List.Forall₂ Answers envelopes ids) (hnodup : ids.Nodup)
      (hids : ids.toFinset = expected) : AnswersBatch expected (.arr (envelopes.map .obj))
  | refusal (envelope : Envelope) (h : Refuses envelope) : AnswersBatch expected (.obj envelope)

theorem validateError_eq_ok {envelope : Envelope} {e : ClientError} :
    validateError envelope = .ok e ↔
      ∃ error code text, Json.get? envelope "error" = some (.obj error) ∧
        Json.get? error "code" = some (.int code) ∧ Json.get? error "message" = some (.str text) ∧
        e = .rpc code text ((Json.get? error "data").getD .null) := by
  constructor
  · intro h
    unfold validateError at h
    split at h
    · rename_i error herror
      split at h
      · rename_i code text hcode htext
        exact ⟨error, code, text, herror, hcode, htext, (Except.ok.inj h).symm⟩
      · nomatch h
    · nomatch h
  · rintro ⟨error, code, text, herror, hcode, htext, rfl⟩
    simp [validateError, herror, hcode, htext]

theorem hasError_iff {envelope : Envelope} :
    HasError envelope ↔ ∃ e, validateError envelope = .ok e := by
  constructor
  · rintro ⟨error, code, text, herror, hcode, htext⟩
    exact ⟨_, validateError_eq_ok.mpr ⟨error, code, text, herror, hcode, htext, rfl⟩⟩
  · rintro ⟨e, he⟩
    obtain ⟨error, code, text, herror, hcode, htext, -⟩ := validateError_eq_ok.mp he
    exact ⟨error, code, text, herror, hcode, htext⟩

theorem HasError.isSome {envelope : Envelope} (h : HasError envelope) :
    (Json.get? envelope "error").isSome := by
  obtain ⟨error, code, text, herror, -⟩ := h
  exact Option.isSome_of_mem herror

theorem hasVersion_iff {envelope : Envelope} :
    hasVersion envelope ↔ Json.get? envelope "jsonrpc" = some (.str "2.0") := by
  unfold hasVersion
  split
  · rename_i version hversion
    simp [hversion]
  · rename_i hne
    simpa using fun h => hne _ h

theorem idString_eq_some {envelope : Envelope} {id : String} :
    idString envelope = some id ↔ Json.get? envelope "id" = some (.str id) := by
  unfold idString
  split
  · rename_i i hid
    simp [hid]
  · rename_i hne
    simpa using fun h => hne _ h

theorem validateResponse_eq_ok {envelope : Envelope} {id : String} :
    validateResponse envelope id = .ok () ↔ Answers envelope id := by
  constructor
  · intro h
    unfold validateResponse at h
    split_ifs at h with hcheck herror
    · obtain ⟨hversion, hid, hne⟩ := hcheck
      rw [herror, ne_eq, Bool.not_eq_true, Option.isSome_eq_false_iff,
        Option.isNone_iff_eq_none] at hne
      split at h
      · exact ⟨hasVersion_iff.mp hversion, idString_eq_some.mp hid,
          .inr ⟨hne, hasError_iff.mpr ⟨_, ‹_›⟩⟩⟩
      · nomatch h
    · obtain ⟨hversion, hid, hne⟩ := hcheck
      have hnone : Json.get? envelope "error" = none := by simpa using herror
      rw [hnone] at hne
      exact ⟨hasVersion_iff.mp hversion, idString_eq_some.mp hid,
        .inl ⟨Option.ne_none_iff_isSome.mp (by simpa using hne), hnone⟩⟩
  · rintro ⟨hversion, hid, heither⟩
    have hversion' := hasVersion_iff.mpr hversion
    have hid' := idString_eq_some.mpr hid
    obtain ⟨hresult, herror⟩ | ⟨hresult, herror⟩ := heither
    · simp [validateResponse, hversion', hid', hresult, herror]
    · obtain ⟨e, he⟩ := hasError_iff.mp herror
      simp [validateResponse, hversion', hid', hresult, herror.isSome, he]

theorem response_eq_ok {message : Json} {id : String} {envelope : Envelope} :
    response message id = .ok envelope ↔ message = .obj envelope ∧ Answers envelope id := by
  rw [← validateResponse_eq_ok]
  unfold response
  split
  · rename_i fields
    constructor
    · intro h
      split at h
      · obtain rfl := Except.ok.inj h
        exact ⟨rfl, ‹_›⟩
      · nomatch h
    · rintro ⟨hfields, hvalid⟩
      obtain rfl := Json.obj.inj hfields
      rw [hvalid]
  · rename_i hne
    simpa using fun h => (hne _ h).elim

/-- One turn of the loop: the entry answers a new expected id. -/
theorem checkEnvelopes_cons_eq_ok {expected seen : Finset String} {entry : Json}
    {entries : List Json} {es : List Envelope} :
    checkEnvelopes expected (entry :: entries) seen = .ok es ↔
      ∃ envelope id es', entry = .obj envelope ∧ es = envelope :: es' ∧ Answers envelope id ∧
        id ∈ expected ∧ id ∉ seen ∧ checkEnvelopes expected entries (insert id seen) = .ok es' := by
  constructor
  · intro h
    unfold checkEnvelopes at h
    split at h
    · nomatch ‹entry :: entries = []›
    · rename_i envelope rest heq
      obtain ⟨rfl, rfl⟩ := List.cons.inj heq
      split at h
      · rename_i id hid
        split_ifs at h with hnew
        split at h
        · rename_i hvalid
          split at h
          · rename_i es' hes'
            exact ⟨envelope, id, es', rfl, (Except.ok.inj h).symm, validateResponse_eq_ok.mp hvalid,
              hnew.1, hnew.2, hes'⟩
          · nomatch h
        · nomatch h
      · nomatch h
      · nomatch h
      · nomatch h
    · nomatch h
  · rintro ⟨envelope, id, es', rfl, rfl, hanswers, hexpected, hseen, hrest⟩
    simp [checkEnvelopes, hanswers.id_eq, hexpected, hseen, validateResponse_eq_ok.mpr hanswers,
      hrest]

/-- The loop accepts responses to distinct new ids that complete the expected ones. -/
theorem checkEnvelopes_eq_ok {expected : Finset String} {entries : List Json}
    {seen : Finset String} {es : List Envelope} :
    checkEnvelopes expected entries seen = .ok es ↔
      entries = es.map .obj ∧ ∃ ids : List String, List.Forall₂ Answers es ids ∧ ids.Nodup ∧
        (∀ id ∈ ids, id ∉ seen) ∧ seen ∪ ids.toFinset = expected := by
  induction entries generalizing seen es with
  | nil =>
    constructor
    · intro h
      rw [checkEnvelopes] at h
      split_ifs at h with hseen
      obtain rfl := Except.ok.inj h
      exact ⟨rfl, [], .nil, List.nodup_nil, nofun, by simpa using hseen⟩
    · rintro ⟨hes, ids, hanswers, -, -, hall⟩
      obtain rfl : es = [] := List.map_eq_nil_iff.mp hes.symm
      cases hanswers
      rw [checkEnvelopes, if_pos (by simpa using hall)]
  | cons entry entries ih =>
    rw [checkEnvelopes_cons_eq_ok]
    constructor
    · rintro ⟨envelope, id, es, rfl, rfl, hfirst, hexpected, hseen, hrest⟩
      obtain ⟨hmap, ids, hanswers, hnodup, hfresh, hall⟩ := ih.mp hrest
      refine ⟨by rw [hmap, List.map_cons], id :: ids, .cons hfirst hanswers, ?_, ?_, ?_⟩
      · apply List.nodup_cons.mpr ⟨fun hmem => ?_, hnodup⟩
        exact hfresh id hmem (Finset.mem_insert_self id _)
      · intro i hi
        obtain rfl | hi := List.mem_cons.mp hi
        · exact hseen
        · exact fun hseen => hfresh i hi (Finset.mem_insert_of_mem hseen)
      · rw [List.toFinset_cons, Finset.union_insert, ← Finset.insert_union, hall]
    · rintro ⟨hes, ids, hanswers, hnodup, hfresh, hall⟩
      cases hanswers with
      | nil => nomatch hes
      | @cons envelope id es ids hfirst hanswers =>
        rw [List.map_cons, List.cons.injEq] at hes
        obtain ⟨rfl, hmap⟩ := hes
        obtain ⟨hnotin, hnodup⟩ := List.nodup_cons.mp hnodup
        have hexpected : id ∈ expected := by simp [← hall]
        refine ⟨envelope, id, es, rfl, rfl, hfirst, hexpected, hfresh id List.mem_cons_self, ?_⟩
        refine ih.mpr ⟨hmap, ids, hanswers, hnodup, fun i hi => ?_, ?_⟩
        · have hne : i ≠ id := fun h => hnotin (h ▸ hi)
          simp [hne, hfresh i (List.mem_cons_of_mem _ hi)]
        · rw [← hall, List.toFinset_cons, Finset.insert_union, Finset.union_insert]

theorem batchResponse_responses {expected : Finset String} {entries : List Json}
    {es : List Envelope} :
    batchResponse expected (.arr entries) = .ok (.envelopes es) ↔
      entries = es.map .obj ∧ ∃ ids : List String, List.Forall₂ Answers es ids ∧ ids.Nodup ∧
        ids.toFinset = expected := by
  have hloop : batchResponse expected (.arr entries) = .ok (.envelopes es) ↔
      checkEnvelopes expected entries ∅ = .ok es := by
    simp only [batchResponse]
    split
    · rename_i es' h
      simp [h]
    · rename_i e h
      simp [h]
  rw [hloop, checkEnvelopes_eq_ok]
  simp

theorem batchResponse_refused {expected : Finset String} {envelope : Envelope} {e : ClientError} :
    batchResponse expected (.obj envelope) = .ok (.refused e) ↔
      (Json.get? envelope "id").getD .null = .null ∧ validateError envelope = .ok e := by
  constructor
  · intro h
    simp only [batchResponse] at h
    split at h
    · rename_i hid
      split_ifs at h
      split at h
      · rename_i e' he
        obtain rfl := BatchReply.refused.inj (Except.ok.inj h)
        exact ⟨hid, he⟩
      · nomatch h
    · nomatch h
  · rintro ⟨hid, he⟩
    simp [batchResponse, hid, (hasError_iff.mpr ⟨e, he⟩).isSome, he]

/-- A value is one or the other, whatever it is. -/
theorem batchResponse_eq_ok {expected : Finset String} {message : Json} {reply : BatchReply}
    (h : batchResponse expected message = .ok reply) :
    (∃ entries es, message = .arr entries ∧ reply = .envelopes es) ∨
      ∃ envelope e, message = .obj envelope ∧ reply = .refused e := by
  unfold batchResponse at h
  split at h
  · split at h
    · split_ifs at h
      split at h
      · exact .inr ⟨_, _, rfl, (Except.ok.inj h).symm⟩
      · nomatch h
    · nomatch h
  · split at h
    · exact .inl ⟨_, _, rfl, (Except.ok.inj h).symm⟩
    · nomatch h
  · nomatch h

/-- The value is delivered as a notification or refused as one. -/
def IsNotice (message : Json) : Prop :=
  ∃ envelope, message = .obj envelope ∧ isNotification envelope = true

section
variable {α : Type} {c : Codec} {data : Bytes} (accept : Json → Except ClientError α)

theorem readMessage_of_notice {envelope : Envelope} (hdec : c.decode data = some (.obj envelope))
    (h : isNotification envelope = true) :
    (∃ n, readMessage c accept data = .delivers n) ∨
      ∃ e, notification envelope = .error e ∧ readMessage c accept data = .returns (.error e) := by
  unfold readMessage
  rw [hdec]
  cases hn : notification envelope with
  | ok n => exact .inl ⟨n, by simp only [h, if_true, hn]⟩
  | error e => exact .inr ⟨e, rfl, by simp only [h, if_true, hn]⟩

/-- What is not a notification ends the exchange. -/
theorem readMessage_of_not_notice {message : Json} (hdec : c.decode data = some message)
    (h : ¬ IsNotice message) : readMessage c accept data = .returns (accept message) := by
  unfold readMessage
  rw [hdec]
  split
  · nomatch ‹some message = none›
  · rename_i envelope heq
    obtain rfl := Option.some.inj heq
    rw [if_neg fun hn => h ⟨envelope, rfl, hn⟩]
  · rename_i heq
    rw [Option.some.inj heq]

variable {accept} in
theorem readMessage_eq_ok {message : Json} (hdec : c.decode data = some message) {r : α} :
    readMessage c accept data = .returns (.ok r) ↔ ¬ IsNotice message ∧ accept message = .ok r := by
  by_cases h : IsNotice message
  · obtain ⟨envelope, rfl, hn⟩ := h
    have hnotice : IsNotice (.obj envelope) := ⟨envelope, rfl, hn⟩
    obtain ⟨n, hread⟩ | ⟨e, -, hread⟩ := readMessage_of_notice accept hdec hn <;>
      simp [hread, hnotice]
  · rw [readMessage_of_not_notice accept hdec h]
    simp [h]

end

/-- A value with a well-formed error that is taken as the refusal of a batch names the
version and the null id, and has no result. -/
def CompleteRefusal (message : Json) : Prop :=
  ∀ envelope, message = .obj envelope → isNotification envelope = false →
    (Json.get? envelope "id").getD .null = .null → HasError envelope →
    Json.get? envelope "jsonrpc" = some (.str "2.0") ∧ (Json.get? envelope "id").isSome ∧
      Json.get? envelope "result" = none

/-- A call only ever accepts the response to its own id. What a batch accepts has the form
of a batch reply if and only if the value is no incomplete refusal. -/
theorem accepts_own_replies_iff {c : Codec} {data : Bytes} {message : Json}
    (hdec : c.decode data = some message) (requestId : String) (expected : Finset String) :
    ((∀ envelope, readMessage c (response · requestId) data = .returns (.ok envelope) →
        message = .obj envelope ∧ Answers envelope requestId) ∧
      ∀ reply, readMessage c (batchResponse expected) data = .returns (.ok reply) →
        AnswersBatch expected message) ↔
      CompleteRefusal message := by
  constructor
  · rintro ⟨-, hbatch⟩ envelope rfl hnotice hid herror
    obtain ⟨e, he⟩ := hasError_iff.mp herror
    have haccept : batchResponse expected (.obj envelope) = .ok (.refused e) :=
      batchResponse_refused.mpr ⟨hid, he⟩
    cases hbatch _ ((readMessage_eq_ok hdec).mpr ⟨by simp [IsNotice, hnotice], haccept⟩) with
    | refusal _ h => exact ⟨h.version, Option.isSome_of_mem h.id_eq, h.no_result⟩
  · intro hcomplete
    constructor
    · intro envelope h
      exact response_eq_ok.mp ((readMessage_eq_ok hdec).mp h).2
    · intro reply h
      obtain ⟨hnotice, hreply⟩ := (readMessage_eq_ok hdec).mp h
      obtain ⟨entries, es, rfl, rfl⟩ | ⟨envelope, e, rfl, rfl⟩ := batchResponse_eq_ok hreply
      · obtain ⟨rfl, ids, hanswers, hnodup, hids⟩ := batchResponse_responses.mp hreply
        exact .responses es ids hanswers hnodup hids
      · obtain ⟨hnull, he⟩ := batchResponse_refused.mp hreply
        have hnotice' : isNotification envelope = false := by
          simpa [IsNotice] using hnotice
        obtain ⟨hversion, hsome, hresult⟩ :=
          hcomplete envelope rfl hnotice' hnull (hasError_iff.mpr ⟨e, he⟩)
        obtain ⟨v, hv⟩ := Option.isSome_iff_exists.mp hsome
        rw [hv, Option.getD_some] at hnull
        exact .refusal envelope ⟨hversion, hnull ▸ hv, hresult, hasError_iff.mpr ⟨e, he⟩⟩

/-- It lacks the version. -/
def looseRefusal : Json :=
  .obj [("error", .obj [("code", .int (-32600)), ("message", .str "no")]), ("id", .null)]

theorem looseRefusal_accepted :
    readMessage msgSpecJsonCodec (batchResponse {"a"}) (Json.encode looseRefusal) =
        .returns (.ok (.refused (.rpc (-32600) "no" .null))) ∧
      ¬ AnswersBatch {"a"} looseRefusal := by
  constructor
  · apply (readMessage_eq_ok (msgSpecJsonCodec_roundTrips looseRefusal _ rfl)).mpr
    exact ⟨by simp [IsNotice, looseRefusal, isNotification],
      by simp [looseRefusal, batchResponse, validateError]⟩
  · intro h
    cases h with
    | refusal _ h => simpa using h.version

/-- The response to id `a`. -/
def sampleResponse : Envelope := [("jsonrpc", .str "2.0"), ("result", .int 5), ("id", .str "a")]

theorem accepts_own_replies_iff_sample : AnswersBatch {"a"} (.arr [.obj sampleResponse]) := by
  have hdec := msgSpecJsonCodec_roundTrips (.arr [.obj sampleResponse]) _ rfl
  have hread : readMessage msgSpecJsonCodec (batchResponse {"a"})
      (Json.encode (.arr [.obj sampleResponse])) =
        .returns (.ok (.envelopes [sampleResponse])) := by
    apply (readMessage_eq_ok hdec).mpr
    exact ⟨nofun, batchResponse_responses.mpr ⟨rfl, ["a"],
      .cons ⟨rfl, rfl, .inl ⟨rfl, rfl⟩⟩ .nil, List.nodup_singleton _, rfl⟩⟩
  exact ((accepts_own_replies_iff hdec "a" {"a"}).mpr nofun).2 _ hread

/-- Among envelopes with distinct ids, `by_id` finds the one with the id. -/
theorem byId_eq_some {es : List Envelope} (hnodup : (es.map idString).Nodup) {e : Envelope}
    (he : e ∈ es) {id : String} (hid : idString e = some id) : byId es id = some e := by
  have hsome : (byId es id).isSome := by
    rw [byId, List.find?_isSome]
    exact ⟨e, List.mem_reverse.mpr he, by simpa using hid⟩
  obtain ⟨found, hfound⟩ := Option.isSome_iff_exists.mp hsome
  have hmem : found ∈ es := List.mem_reverse.mp (List.mem_of_find?_eq_some hfound)
  have hfoundId : idString found = some id := by simpa using List.find?_some hfound
  rw [hfound, List.inj_on_of_nodup_map hnodup hmem he (hfoundId.trans hid.symm)]

theorem byId_eq_none {es : List Envelope} {id : String} (h : ∀ e ∈ es, idString e ≠ some id) :
    byId es id = none := by
  apply List.find?_eq_none.mpr
  intro e he
  simpa using h e (List.mem_reverse.mp he)

/-- `by_id` does not depend on the order of the envelopes. -/
theorem byId_perm {es es' : List Envelope} (hperm : es'.Perm es)
    (hnodup : (es.map idString).Nodup) : byId es' = byId es := by
  have hnodup' : (es'.map idString).Nodup := (hperm.map idString).nodup_iff.mpr hnodup
  funext id
  by_cases h : ∃ e ∈ es, idString e = some id
  · obtain ⟨e, he, hid⟩ := h
    rw [byId_eq_some hnodup he hid, byId_eq_some hnodup' (hperm.mem_iff.mpr he) hid]
  · have hnone : ∀ e ∈ es, idString e ≠ some id := fun e he hid => h ⟨e, he, hid⟩
    rw [byId_eq_none hnone, byId_eq_none fun e he => hnone e (hperm.mem_iff.mp he)]

theorem map_idString_of_answers {es : List Envelope} {ids : List String}
    (h : List.Forall₂ Answers es ids) : es.map idString = ids.map some := by
  induction h with
  | nil => rfl
  | cons hfirst _ ih => rw [List.map_cons, List.map_cons, ih, idString_eq_some.mpr hfirst.id_eq]

theorem nodup_of_answers {es : List Envelope} {ids : List String}
    (h : List.Forall₂ Answers es ids) (hnodup : ids.Nodup) : (es.map idString).Nodup := by
  rw [map_idString_of_answers h]
  exact hnodup.map (Option.some_injective _)

/-- What `batch` makes of the response to a call. -/
inductive Reads {R : Type} (responseType : Json → Option R) (envelope : Envelope) : Result R → Prop
  | value {v : Json} {r : R} (herror : Json.get? envelope "error" = none)
      (hresult : Json.get? envelope "result" = some v) (hconvert : responseType v = some r) :
      Reads responseType envelope (.value r)
  | failed {error : Envelope} {code : ℤ} {text : String}
      (herror : Json.get? envelope "error" = some (.obj error))
      (hcode : Json.get? error "code" = some (.int code))
      (htext : Json.get? error "message" = some (.str text)) :
      Reads responseType envelope (.failed (.rpc code text ((Json.get? error "data").getD .null)))

/-- The result in the response does not convert to the type that the caller asked for. -/
def Unconverted {R : Type} (responseType : Json → Option R) (envelope : Envelope) : Prop :=
  ∃ v, Json.get? envelope "error" = none ∧ Json.get? envelope "result" = some v ∧
    responseType v = none

theorem resultOf_of_answers {R : Type} {envelope : Envelope} {id : String}
    (h : Answers envelope id) (responseType : Json → Option R) :
    (∃ r, resultOf responseType envelope = .ok r ∧ Reads responseType envelope r) ∨
      resultOf responseType envelope = .error .conversion ∧ Unconverted responseType envelope := by
  obtain ⟨hresult, herror⟩ | ⟨-, error, code, text, herror, hcode, htext⟩ := h.either
  · obtain ⟨v, hv⟩ := Option.isSome_iff_exists.mp hresult
    cases hr : responseType v with
    | some r => exact .inl ⟨.value r, by simp [resultOf, herror, hv, hr], .value herror hv hr⟩
    | none => exact .inr ⟨by simp [resultOf, herror, hv, hr], v, herror, hv, hr⟩
  · refine .inl ⟨_, ?_, .failed herror hcode htext⟩
    simp [resultOf, validateError, herror, hcode, htext]

/-- The one response to the id among the entries of a reply. -/
structure OwnResponse (reply : List Json) (id : String) (envelope : Envelope) : Prop where
  mem : .obj envelope ∈ reply
  answers : Answers envelope id
  only : ∀ other, .obj other ∈ reply → idString other = some id → other = envelope

/-- The entry that `batch` returns for an item depends on the response to its id alone. -/
inductive Follows {R : Type} (reply : List Json) : BatchItem R × Option String → Result R → Prop
  | notification {method : String} {params : Json} :
      Follows reply (.notification method params, none) .none
  | call {method : String} {responseType : Json → Option R} {params : Json} {id : String}
      {envelope : Envelope} {r : Result R} (hown : OwnResponse reply id envelope)
      (hreads : Reads responseType envelope r) :
      Follows reply (.call method responseType params, some id) r

/-- The response to some call has a result that does not convert. -/
def SomeUnconverted {R : Type} (reply : List Json) (items : List (BatchItem R × Option String)) :
    Prop :=
  ∃ method responseType params id envelope,
    (BatchItem.call method responseType params, some id) ∈ items ∧
      OwnResponse reply id envelope ∧ Unconverted responseType envelope

@[simp] theorem length_requestIds {R : Type} {uuid4 : ℕ → String} (items : List (BatchItem R))
    (n : ℕ) :
    (requestIds uuid4 items n).length = items.length := by
  induction items generalizing n with
  | nil => rfl
  | cons item items ih => simp only [requestIds, List.length_cons, ih]

/-- Each lookup succeeds, so that an item's entry follows its response, unless a
conversion fails. -/
theorem batchResults_follow {R : Type} {es : List Envelope} {reply : List Json}
    (uuid4 : ℕ → String) (items : List (BatchItem R)) (n : ℕ)
    (hfound : ∀ id ∈ (requestIds uuid4 items n).reduceOption,
      ∃ e, byId es id = some e ∧ OwnResponse reply id e) :
    (∃ results, batchResults es items (requestIds uuid4 items n) = .ok results ∧
        List.Forall₂ (Follows reply) (items.zip (requestIds uuid4 items n)) results) ∨
      batchResults es items (requestIds uuid4 items n) = .error .conversion ∧
        SomeUnconverted reply (items.zip (requestIds uuid4 items n)) := by
  induction items generalizing n with
  | nil => exact .inl ⟨[], rfl, .nil⟩
  | cons item items ih =>
    cases item with
    | notification method params =>
      obtain ⟨results, hresults, hfollow⟩ | ⟨herror, hsome⟩ := ih n hfound
      · refine .inl ⟨.none :: results, ?_, .cons .notification hfollow⟩
        simp only [requestIds, requestId, drawn, batchResults, hresults]
      · obtain ⟨method', responseType, params', id, envelope, hmem, hrest⟩ := hsome
        refine .inr ⟨?_, method', responseType, params', id, envelope,
          List.mem_cons_of_mem _ hmem, hrest⟩
        simp only [requestIds, requestId, drawn, batchResults, herror]
    | call method responseType params =>
      obtain ⟨envelope, hfind, hown⟩ := hfound (uuid4 n) List.mem_cons_self
      have htail := ih (n + 1) fun id hid => hfound id (List.mem_cons_of_mem _ hid)
      obtain ⟨r, hr, hreads⟩ | ⟨hr, hunconverted⟩ :=
        resultOf_of_answers hown.answers responseType
      · obtain ⟨results, hresults, hfollow⟩ | ⟨herror, hsome⟩ := htail
        · refine .inl ⟨r :: results, ?_, .cons (.call hown hreads) hfollow⟩
          simp only [requestIds, requestId, drawn, batchResults, hfind, hr, hresults]
        · obtain ⟨method', responseType', params', id, envelope', hmem, hrest⟩ := hsome
          refine .inr ⟨?_, method', responseType', params', id, envelope',
            List.mem_cons_of_mem _ hmem, hrest⟩
          simp only [requestIds, requestId, drawn, batchResults, hfind, hr, herror]
      · refine .inr ⟨?_, method, responseType, params, uuid4 n, envelope,
          List.mem_cons_self, hown, hunconverted⟩
        simp only [requestIds, requestId, drawn, batchResults, hfind, hr]

theorem batchResults_congr {R : Type} {es es' : List Envelope} (h : byId es' = byId es)
    (items : List (BatchItem R)) (ids : List (Option String)) :
    batchResults es' items ids = batchResults es items ids := by
  induction items generalizing ids with
  | nil => simp only [batchResults]
  | cons item items ih =>
    cases ids with
    | nil => simp only [batchResults]
    | cons id ids => cases item <;> cases id <;> simp only [batchResults, h, ih]

/-- Among the accepted responses there is exactly one for each expected id. -/
theorem ownResponse_of_accepted {es : List Envelope} {ids : List String}
    (hanswers : List.Forall₂ Answers es ids) (hnodup : ids.Nodup) {id : String} (hid : id ∈ ids) :
    ∃ e, byId es id = some e ∧ OwnResponse (es.map .obj) id e := by
  have hdistinct := nodup_of_answers hanswers hnodup
  obtain ⟨e, he, hanswer⟩ := forall₂_exists_left hanswers hid
  have hfind : byId es id = some e :=
    byId_eq_some hdistinct he (idString_eq_some.mpr hanswer.id_eq)
  refine ⟨e, hfind, List.mem_map_of_mem he, hanswer, fun other hother hsame => ?_⟩
  obtain ⟨other', hmem, heq⟩ := List.mem_map.mp hother
  obtain rfl := Json.obj.inj heq
  exact Option.some.inj ((byId_eq_some hdistinct hmem hsame).symm.trans hfind)

/-- Once a list is accepted, no lookup fails, each entry that is returned follows the
response to its item's id, and the order of the responses does not matter. -/
theorem batch_follows_items {R : Type} (uuid4 : ℕ → String) (n : ℕ) (items : List (BatchItem R))
    (reply : List Json) (es : List Envelope)
    (h : batchResponse (expected (requestIds uuid4 items n)) (.arr reply) = .ok (.envelopes es)) :
    (∀ id ∈ expected (requestIds uuid4 items n),
        ∃ e, byId es id = some e ∧ OwnResponse reply id e) ∧
      (∀ results, finishBatch items (requestIds uuid4 items n) (.envelopes es) = .ok results →
        results.length = items.length ∧
          List.Forall₂ (Follows reply) (items.zip (requestIds uuid4 items n)) results) ∧
      (∀ e, finishBatch items (requestIds uuid4 items n) (.envelopes es) = .error e →
        e = .conversion ∧ SomeUnconverted reply (items.zip (requestIds uuid4 items n))) ∧
      ∀ reply', reply'.Perm reply → ∃ es',
        batchResponse (expected (requestIds uuid4 items n)) (.arr reply') = .ok (.envelopes es') ∧
          finishBatch items (requestIds uuid4 items n) (.envelopes es') =
            finishBatch items (requestIds uuid4 items n) (.envelopes es) := by
  obtain ⟨rfl, ids, hanswers, hnodup, hids⟩ := batchResponse_responses.mp h
  have hfound : ∀ id ∈ expected (requestIds uuid4 items n),
      ∃ e, byId es id = some e ∧ OwnResponse (es.map .obj) id e := by
    intro id hid
    rw [← hids] at hid
    exact ownResponse_of_accepted hanswers hnodup (List.mem_toFinset.mp hid)
  have hresults := batchResults_follow uuid4 items n fun id hid =>
    hfound id (List.mem_toFinset.mpr hid)
  refine ⟨hfound, ?_, ?_, ?_⟩
  · intro results hok
    obtain ⟨results', hok', hfollow⟩ | ⟨herror, -⟩ := hresults
    · obtain rfl := Except.ok.inj (hok.symm.trans hok')
      have hlength := hfollow.length_eq
      rw [List.length_zip, length_requestIds, Nat.min_self] at hlength
      exact ⟨hlength.symm, hfollow⟩
    · nomatch hok.symm.trans herror
  · intro e herror
    obtain ⟨results', hok, -⟩ | ⟨herror', hsome⟩ := hresults
    · nomatch hok.symm.trans herror
    · exact ⟨Except.error.inj (herror.symm.trans herror'), hsome⟩
  · intro reply' hperm
    obtain ⟨es', rfl, hes'⟩ :
        Relation.Comp (fun l l' => l = l'.map Json.obj) List.Perm reply' es := by
      rw [List.eq_map_comp_perm]
      exact hperm
    obtain ⟨ids', hanswers', hidsPerm⟩ := List.perm_comp_forall₂ hes' hanswers
    refine ⟨es', batchResponse_responses.mpr ⟨rfl, ids', hanswers', ?_, ?_⟩, ?_⟩
    · exact hidsPerm.nodup_iff.mpr hnodup
    · rw [List.toFinset_eq_of_perm _ _ hidsPerm, hids]
    · exact batchResults_congr (byId_perm hes' (nodup_of_answers hanswers hnodup)) _ _

/-- Two calls with a notification between them. -/
def sampleItems : List (BatchItem Json) :=
  [.call "add" some .null, .notification "log" .null, .call "sub" some .null]

/-- The second call is answered first. -/
def sampleReply : List Envelope :=
  [[("jsonrpc", .str "2.0"), ("result", .int 5), ("id", .str "b")],
    [("jsonrpc", .str "2.0"), ("error", .obj [("code", .int 1), ("message", .str "no")]),
      ("id", .str "a")]]

theorem batch_follows_items_sample : ∃ results,
    finishBatch sampleItems [some "a", none, some "b"] (.envelopes sampleReply) = .ok results ∧
      results.length = 3 ∧
      List.Forall₂ (Follows (sampleReply.map .obj))
        (sampleItems.zip [some "a", none, some "b"]) results := by
  have hreply : batchResponse
      (expected (requestIds (fun n => if n = 0 then "a" else "b") sampleItems 0))
      (.arr (sampleReply.map .obj)) = .ok (.envelopes sampleReply) := by
    apply batchResponse_responses.mpr
    refine ⟨rfl, ["b", "a"], .cons ⟨rfl, rfl, .inl ⟨rfl, rfl⟩⟩ ?_, by decide, by decide⟩
    refine .cons ⟨rfl, rfl, .inr ⟨rfl, ?_⟩⟩ .nil
    exact ⟨_, _, _, rfl, rfl, rfl⟩
  have hfollow := (batch_follows_items _ 0 sampleItems _ sampleReply hreply).2.1
  exact ⟨_, rfl, hfollow _ rfl⟩

end WireRpc.Client
