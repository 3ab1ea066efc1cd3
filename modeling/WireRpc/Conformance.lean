import WireRpc.Replies

/-!
# Conformance

Which items of a message are dispatched, which are answered, and with what.
The dispatch function and the identity check are arbitrary, except that they
are not cancelled and that an answer carries the id of its request.
-/
namespace WireRpc
open Library

/-- Error envelopes are encoded as JSON text. -/
def Codec.JsonErrors (c : Codec) : Prop :=
  ∀ kind message id, c.encode (WireResponse.errorJson ⟨kind, message, .null⟩ id) =
    some (Json.encode (WireResponse.errorJson ⟨kind, message, .null⟩ id))

namespace Execution

variable {W : Type} {app : ExecutionHost W} {dispatch : Dispatch W} {deadline : ℕ}
  {clientId : Option String}

/-- The dispatch function answers with the id of its request, or raises an
ordinary exception. -/
def AnswersWithId (dispatch : Dispatch W) : Prop :=
  ∀ context request deadline w,
    (∃ a, (dispatch context request deadline w).2 = .value a ∧ a.id = request.responseId) ∨
      ∃ e, (dispatch context request deadline w).2 = .raised e

/-- The dispatch function answers or raises an ordinary exception. -/
def DispatchReturns (dispatch : Dispatch W) : Prop :=
  ∀ context request deadline w, (dispatch context request deadline w).2 ≠ .cancelled

theorem AnswersWithId.returns (hd : AnswersWithId dispatch) : DispatchReturns dispatch := by
  intro context request deadline w hc
  obtain ⟨a, ha, -⟩ | ⟨e, he⟩ := hd context request deadline w
  · cases ha.symm.trans hc
  · cases he.symm.trans hc

/-- The transport's identity check returns or raises an ordinary exception. -/
def IdentityReturns (app : ExecutionHost W) : Prop :=
  ∀ getPrincipal, app.getPrincipal = some getPrincipal →
    ∀ clientId deadline w, (getPrincipal clientId deadline w).2 ≠ .cancelled

theorem scope_ne_cancelled (hd : DispatchReturns dispatch) (hi : IdentityReturns app)
    (request : RawWireRequest) (s : State W) :
    (scope app dispatch deadline clientId request s).2 ≠ .cancelled := by
  unfold scope
  cases hp : principalOf app deadline clientId s with
  | mk t outcome =>
    cases outcome with
    | value principal => exact hd _ _ _ _
    | raised e => nofun
    | cancelled =>
      unfold principalOf at hp
      split at hp
      · cases (Prod.mk.inj hp).2
      · exact absurd (Prod.mk.inj hp).2 (hi _ ‹_› _ _ _)

theorem scope_outcome (hd : AnswersWithId dispatch) (hi : IdentityReturns app) (deadline : ℕ)
    (clientId : Option String) (request : RawWireRequest) (s : State W) :
    (∃ a, (scope app dispatch deadline clientId request s).2 = .value a ∧
      a.id = request.responseId) ∨
      ∃ e, (scope app dispatch deadline clientId request s).2 = .raised e := by
  have hne : (scope app dispatch deadline clientId request s).2 ≠ .cancelled :=
    scope_ne_cancelled hd.returns hi request s
  revert hne
  unfold scope
  cases principalOf app deadline clientId s with
  | mk t outcome =>
    cases outcome with
    | value principal => exact fun _ => hd _ _ _ _
    | raised e => exact fun _ => .inr ⟨e, rfl⟩
    | cancelled => exact fun hne => absurd rfl hne

/-- The computation ends with a value. -/
def Returns {α : Type*} (r : State W × Outcome α) : Prop := ∃ a, r.2 = .value a

theorem Returns.eq {α : Type*} {r : State W × Outcome α} (h : Returns r) :
    ∃ a, r = (r.1, .value a) := by
  obtain ⟨a, ha⟩ := h
  exact ⟨a, Prod.ext rfl ha⟩

theorem andThen_returns {α β : Type*} {r : State W × Outcome α}
    {next : State W → α → State W × Outcome β} (h : Returns r)
    (hnext : ∀ s a, Returns (next s a)) : Returns (andThen r next) := by
  obtain ⟨a, ha⟩ := h.eq
  rw [ha]
  exact hnext _ a

theorem encodeReply_returns {c : Codec} (he : c.EncodesErrors) (kind : ErrorKind)
    (message : String) (id : RequestId) :
    ∃ reply, encodeReply c (.error ⟨kind, message, .null⟩ id) = .value reply := by
  obtain ⟨b, hb⟩ := Option.isSome_iff_exists.mp (he kind message id)
  exact ⟨some b, encodeReply_eq_value.mpr ⟨b, hb, rfl⟩⟩

theorem fail_returns (he : app.codec.EncodesErrors) (request : RawWireRequest) (s : State W)
    (e : Failure) : ∃ reply, (fail app.codec request s e).2.2 = .value reply := by
  simp only [fail]
  split_ifs
  · exact ⟨none, rfl⟩
  · cases e <;> exact encodeReply_returns he _ _ _

theorem settle_returns (he : app.codec.EncodesErrors) (request : RawWireRequest) (s : State W)
    {outcome : Outcome WireResponse} (ho : outcome ≠ .cancelled) :
    ∃ reply, (settle app request s outcome).2.2 = .value reply := by
  cases outcome with
  | cancelled => exact absurd rfl ho
  | raised e => exact fail_returns he request s e
  | value response =>
    by_cases hn : request.id.isNone
    · exact ⟨none, by simp only [settle, if_pos hn]⟩
    · simp only [settle, if_neg hn]
      split
      · exact fail_returns he request s .other
      · split_ifs
        · exact fail_returns he request s .other
        · exact ⟨_, rfl⟩

/-- A request always ends with a reply or with silence, never with an exception. -/
theorem processOne_returns (he : app.codec.EncodesErrors) (hd : DispatchReturns dispatch)
    (hi : IdentityReturns app) (item : Json) (s : State W) :
    Returns (processOne app dispatch deadline clientId item s) := by
  unfold processOne
  cases validate item with
  | none => exact encodeReply_returns he _ _ _
  | some request => exact settle_returns he request _ (scope_ne_cancelled hd hi request s.enter)

theorem batchLoop_returns (he : app.codec.EncodesErrors) (hd : DispatchReturns dispatch)
    (hi : IdentityReturns app) (items : List (Json × Option Bytes)) (remaining reserved : ℤ)
    (s : State W) :
    Returns (batchLoop app dispatch deadline clientId items remaining reserved s) := by
  induction items generalizing remaining reserved s with
  | nil => exact ⟨[], rfl⟩
  | cons entry rest ih =>
    obtain ⟨item, f⟩ := entry
    refine andThen_returns (processOne_returns he hd hi item s) fun t reply => ?_
    cases reply with
    | none => exact ih _ _ t
    | some b => exact andThen_returns (ih _ _ t) fun u tail => ⟨_, rfl⟩

theorem fallback_isSome {c : Codec} (he : c.EncodesErrors) (item : Json) :
    (fallback c item).isSome := by
  unfold fallback
  split_ifs
  · rfl
  · rw [Option.isSome_map]
    exact he .internal "Internal server error" (fallbackId item)

/-- The run dispatches requests of the list, each at most once and in its order. -/
def Dispatches {α : Type*} (s : State W) (r : State W × α) (valid : List RawWireRequest) : Prop :=
  ∃ ran, r.1.dispatched = s.dispatched ++ ran ∧ ran.Sublist valid

theorem andThen_dispatches {α β : Type*} {s : State W} {r : State W × Outcome α}
    {next : State W → α → State W × Outcome β} {valid rest : List RawWireRequest}
    (h : Dispatches s r valid) (hnext : ∀ t a, Dispatches t (next t a) rest) :
    Dispatches s (andThen r next) (valid ++ rest) := by
  obtain ⟨ran, hran, hsub⟩ := h
  obtain ⟨t, a | e | _⟩ := r
  · obtain ⟨more, hmore, hrest⟩ := hnext t a
    refine ⟨ran ++ more, ?_, hsub.append hrest⟩
    rw [← List.append_assoc, ← hran]
    exact hmore
  · exact ⟨ran, hran, hsub.trans (List.sublist_append_left _ _)⟩
  · exact ⟨ran, hran, hsub.trans (List.sublist_append_left _ _)⟩

theorem andThen_dispatches_pure {α β : Type*} {s : State W} {r : State W × Outcome α}
    {g : α → Outcome β} {valid : List RawWireRequest} (h : Dispatches s r valid) :
    Dispatches s (andThen r fun t a => (t, g a)) valid := by
  have hnext : ∀ (t : State W) (a : α), Dispatches t (t, g a) [] :=
    fun t a => ⟨[], by simp, .refl _⟩
  simpa using andThen_dispatches h hnext

theorem dispatches_scope (request : RawWireRequest) (s : State W) :
    Dispatches s (scope app dispatch deadline clientId request s) [request] := by
  obtain ⟨world, context, ran, hran, hs⟩ := scope_fst app dispatch deadline clientId request s
  exact ⟨ran, by rw [hs], hran⟩

theorem settle_dispatched (request : RawWireRequest) (s : State W)
    (outcome : Outcome WireResponse) :
    (settle app request s outcome).1.dispatched = s.dispatched := by
  obtain ⟨stats, hs⟩ := settle_fst app request s outcome
  rw [hs]

theorem dispatches_processOne (item : Json) (s : State W) :
    Dispatches s (processOne app dispatch deadline clientId item s) (validate item).toList := by
  unfold processOne
  cases validate item with
  | none => exact ⟨[], by simp, List.nil_sublist _⟩
  | some request =>
    have hscope : Dispatches s.enter (scope app dispatch deadline clientId request s.enter)
      [request] := dispatches_scope request s.enter
    obtain ⟨ran, hran, hsub⟩ := hscope
    exact ⟨ran, by simpa [settle_dispatched] using hran, hsub⟩

/-- The loop dispatches only items that convert, in item order and each at most once. -/
theorem dispatches_batchLoop (items : List (Json × Option Bytes)) (remaining reserved : ℤ)
    (s : State W) :
    Dispatches s (batchLoop app dispatch deadline clientId items remaining reserved s)
      ((items.map Prod.fst).filterMap validate) := by
  induction items generalizing remaining reserved s with
  | nil => exact ⟨[], by simp [batchLoop], .refl _⟩
  | cons entry rest ih =>
    obtain ⟨item, f⟩ := entry
    have hitems : (((item, f) :: rest).map Prod.fst).filterMap validate =
        (validate item).toList ++ (rest.map Prod.fst).filterMap validate := by
      cases hv : validate item <;> simp [hv]
    rw [hitems]
    refine andThen_dispatches (dispatches_processOne item s) fun t reply => ?_
    cases reply with
    | none => exact ih _ _ t
    | some b => exact andThen_dispatches_pure (ih _ _ t)

theorem dispatches_processBatch (items : List Json) (s : State W) :
    Dispatches s (processBatch app dispatch deadline clientId items s)
      (items.filterMap validate) := by
  have hnone : ∀ {α : Type} (a : α) (t : State W), t.dispatched = s.dispatched →
      Dispatches s (t, a) (items.filterMap validate) :=
    fun a t ht => ⟨[], by simp [ht], List.nil_sublist _⟩
  by_cases hrefused : Refused app items
  · rw [processBatch_of_refused hrefused]
    exact hnone _ _ (dispatched_refuseBatch app clientId s)
  · cases hf : items.mapM (fallback app.codec) with
    | none =>
      have hnil : items ≠ [] := fun h' => hrefused (.inl h')
      have hmax : ¬ items.length > app.maxBatchSize := fun h' => hrefused (.inr (.inl h'))
      simp only [processBatch, hf, List.length_eq_zero_iff, if_neg hnil, if_neg hmax]
      exact hnone _ _ rfl
    | some fallbacks =>
      have hlen := (mapM_eq_some_iff.mp hf).length_eq
      rw [processBatch_of_not_refused hrefused hf]
      refine andThen_dispatches_pure ?_
      have hloop : Dispatches s (batchLoop app dispatch deadline clientId (items.zip fallbacks)
          (app.maxResponseSize - items.length - 8) (fallbackBytes fallbacks) s) _ :=
        dispatches_batchLoop _ _ _ s
      rwa [List.map_fst_zip hlen.le] at hloop

/-- A valid request without an id. -/
def notification (item : Json) : Bool := (validate item).any fun r => r.id.isNone

theorem silent_eq_notification (item : Json) : silent item = notification item := by
  rw [Bool.eq_iff_iff, silent_iff, notification, Option.any_eq_true]
  simp [Option.isNone_iff_eq_none]

/-- The answer to a message that was not understood. -/
def invalidRequestJson : Json :=
  WireResponse.errorJson ⟨.invalidRequest, "Invalid request", .null⟩ .null

/-- An entry that answers the item: a result or an error, with the item's own id
when the item is valid. With JSON envelopes an invalid item gets the
invalid-request error itself. -/
structure EntryFor (c : Codec) (item entry : Json) : Prop where
  one_of : (entry.member "result").isSome = !(entry.member "error").isSome
  own_id : ∀ r, validate item = some r → entry.member "id" = some r.responseId.toJson
  invalid : c.JsonErrors → validate item = none → entry = invalidRequestJson

theorem one_of_toJson {a : WireResponse} {v : Json} (h : a.toJson = some v) :
    (v.member "result").isSome = !(v.member "error").isSome ∧
      v.member "id" = some a.id.toJson := by
  cases a with
  | error e id =>
    obtain rfl := Option.some.inj h
    exact ⟨rfl, rfl⟩
  | success result id =>
    obtain ⟨r, rfl, rfl⟩ := Option.map_eq_some_iff.mp h
    exact ⟨rfl, rfl⟩

/-- The response of an execution carries the item's id. -/
theorem answerOf_eq_some (hd : AnswersWithId dispatch) (hi : IdentityReturns app) {item : Json}
    {s : State W} {a : WireResponse} (h : answerOf app dispatch deadline clientId item s = some a) :
    (∀ r, validate item = some r → a.id = r.responseId) ∧
      (validate item = none → a = invalidRequest) := by
  unfold answerOf at h
  cases hv : validate item with
  | none =>
    simp only [hv, Option.some.injEq] at h
    exact ⟨by simp, fun _ => h.symm⟩
  | some request =>
    simp only [hv] at h
    split_ifs at h
    obtain rfl := Option.some.inj h
    refine ⟨?_, by simp⟩
    rintro r ⟨⟩
    obtain ⟨a, ha, hid⟩ | ⟨e, he⟩ := scope_outcome hd hi deadline clientId request s.enter
    · rw [ha]
      simp only [answered]
      split
      · split_ifs
        · rfl
        · exact hid
      · rfl
    · rw [he]
      rfl

theorem entryFor_answer (hd : AnswersWithId dispatch) (hi : IdentityReturns app) {item : Json}
    {s : State W} {a : WireResponse} {v : Json}
    (h : answerOf app dispatch deadline clientId item s = some a) (hv : a.toJson = some v) :
    EntryFor app.codec item v := by
  obtain ⟨hown, hinvalid⟩ := answerOf_eq_some hd hi h
  obtain ⟨hone, hid⟩ := one_of_toJson hv
  refine ⟨hone, fun r hr => by rw [hid, hown r hr], fun _ hnone => ?_⟩
  rw [hinvalid hnone] at hv
  exact (Option.some.inj hv).symm

/-- As JSON, no fallback is shorter than the invalid-request error. -/
theorem length_invalidRequestJson_le (id : RequestId) :
    (Json.encode invalidRequestJson).length ≤ (Json.encode (WireResponse.errorJson
      ⟨.internal, "Internal server error", .null⟩ id)).length := by
  have hid := Json.length_encode_pos id.toJson
  have hnull : (Json.encode RequestId.null.toJson).length = 4 := rfl
  have herror :
      (Json.encode (WireError.toJson ⟨.invalidRequest, "Invalid request", .null⟩)).length + 6 =
        (Json.encode (WireError.toJson ⟨.internal, "Internal server error", .null⟩)).length := by
    decide +kernel
  simp only [invalidRequestJson, WireResponse.errorJson, Json.length_encode_obj, List.map_cons,
    List.map_nil, List.sum_cons, List.length_cons]
  omega

theorem entryFor_fallback {item : Json} {s : State W} {a : WireResponse} {f own : Bytes}
    (h : answerOf app dispatch deadline clientId item s = some a)
    (hown : app.codec.encodeResponse a = some own) (hlong : f.length < own.length)
    (hf : app.codec.encodeResponse (fallbackResponse item) = some f) {v : Json}
    (hv : (fallbackResponse item).toJson = some v) : EntryFor app.codec item v := by
  obtain ⟨hone, hid⟩ := one_of_toJson hv
  refine ⟨hone, fun r hr => ?_, fun hjson hnone => ?_⟩
  · rw [hid, ← fallbackId_of_validate hr]
    rfl
  · -- an invalid item's own reply is never long enough to be replaced
    have hshort := length_invalidRequestJson_le (fallbackId item)
    have ha : a = invalidRequest := by
      unfold answerOf at h
      simpa [hnone, eq_comm] using h
    have hown' : Json.encode invalidRequestJson = own := by
      rw [ha] at hown
      exact Option.some.inj ((hjson .invalidRequest "Invalid request" .null).symm.trans hown)
    have hf' := Option.some.inj ((hjson .internal "Internal server error" _).symm.trans hf)
    rw [hown', hf'] at hshort
    omega

/-- Nothing is sent only for a notification. -/
theorem notification_of_sent_none {c : Codec} {item : Json} {answer : Option WireResponse}
    (h : SentFor c (item, answer) none) : notification item = true := by
  cases h with
  | silent hsilent => rwa [← silent_eq_notification]

/-- What is sent for an item is an entry for it. -/
theorem entryFor_sent (hd : AnswersWithId dispatch) (hi : IdentityReturns app) {item : Json}
    {s : State W} {r : WireResponse} {v : Json}
    (h : SentFor app.codec (item, answerOf app dispatch deadline clientId item s) (some r))
    (hv : r.toJson = some v) : notification item = false ∧ EntryFor app.codec item v := by
  generalize ha : answerOf app dispatch deadline clientId item s = answer at h
  cases h with
  | own hloud => exact ⟨silent_eq_notification item ▸ hloud, entryFor_answer hd hi ha hv⟩
  | short hloud hown hf hlt =>
    exact ⟨silent_eq_notification item ▸ hloud, entryFor_fallback ha hown hlt hf hv⟩

/-- Item by item: silence for the notifications, an entry for every other item. -/
theorem entries_of_sent (hd : AnswersWithId dispatch) (hi : IdentityReturns app)
    {items : List Json} {s : State W} {sent : List (Option WireResponse)} {entries : List Json}
    (hsent : List.Forall₂ (SentFor app.codec) (answers app dispatch deadline clientId items s) sent)
    (hentries : List.Forall₂ (fun r v => WireResponse.toJson r = some v) sent.reduceOption
      entries) :
    List.Forall₂ (EntryFor app.codec) (items.filter fun item => !notification item) entries := by
  induction items generalizing s sent entries with
  | nil =>
    simp only [answers, List.forall₂_nil_left_iff] at hsent
    subst hsent
    cases hentries
    exact .nil
  | cons item items ih =>
    obtain ⟨answer, sent, hitem, htail, rfl⟩ := List.forall₂_cons_left_iff.mp hsent
    cases answer with
    | none => simpa [notification_of_sent_none hitem] using ih htail hentries
    | some r =>
      rw [List.reduceOption_cons_of_some] at hentries
      obtain ⟨v, entries, hv, hrest, rfl⟩ := List.forall₂_cons_left_iff.mp hentries
      obtain ⟨hn, hentry⟩ := entryFor_sent hd hi hitem hv
      simpa [hn] using ⟨hentry, ih htail hrest⟩

/-- The items of a batch, or the one request. -/
def itemsOf : Json → List Json
  | .arr items => items
  | v => [v]

theorem itemsOf_of_ne_arr {item : Json} (hitem : ∀ items, item ≠ .arr items) :
    itemsOf item = [item] := by
  cases item with
  | arr items => exact absurd rfl (hitem items)
  | _ => rfl

/-- A batch is answered by the list of its entries, one request by its entry. -/
def replyOf : Json → List Json → Option Json
  | .arr _, entries => some (.arr entries)
  | _, [entry] => some entry
  | _, _ => none

/-- A batch that is refused as a whole. One request never is. -/
def RefusedMessage (app : ExecutionHost W) (envelope : Json) : Prop :=
  ∃ items, envelope = .arr items ∧ Refused app items

/-- What is dispatched for a decoded message and what it is answered with. -/
structure Conforms (app : ExecutionHost W) (envelope : Json)
    (before after : List RawWireRequest) (reply : Option Bytes) : Prop where
  refused_runs_nothing : RefusedMessage app envelope → after = before
  refused_iff : ∀ items, envelope = .arr items →
    (Refused app items ↔
      ∃ b, reply = some b ∧ app.codec.decode b = some invalidRequestJson)
  dispatched : ∃ ran, after = before ++ ran ∧ ran.Sublist ((itemsOf envelope).filterMap validate)
  answered : ¬ RefusedMessage app envelope → ∀ b, reply = some b →
    ∃ entries, app.codec.decode b = replyOf envelope entries ∧
      List.Forall₂ (EntryFor app.codec)
        ((itemsOf envelope).filter fun item => !notification item) entries
  silent_iff : ¬ RefusedMessage app envelope →
    (reply = none ↔ ∀ item ∈ itemsOf envelope, notification item = true)

/-- Encoded responses are encoded values. -/
theorem encoded_entries {c : Codec} {sent : List WireResponse} {replies : List Bytes}
    (h : List.Forall₂ (fun r b => c.encodeResponse r = some b) sent replies) :
    ∃ entries, List.Forall₂ (fun r v => WireResponse.toJson r = some v) sent entries ∧
      List.Forall₂ (fun b v => c.encode v = some b) replies entries := by
  induction h with
  | nil => exact ⟨[], .nil, .nil⟩
  | cons hb _ ih =>
    obtain ⟨v, hv, henc⟩ := Option.bind_eq_some_iff.mp hb
    obtain ⟨entries, hentries, hencs⟩ := ih
    exact ⟨v :: entries, .cons hv hentries, .cons henc hencs⟩

theorem joinReplies_of_entries {c : Codec} (hr : c.RoundTrips) (hl : c.EncodesLists)
    {replies : List Bytes} {entries : List Json}
    (h : List.Forall₂ (fun b v => c.encode v = some b) replies entries) :
    ∃ reply, joinReplies c replies = .value reply ∧ (reply = none ↔ entries = []) ∧
      ∀ b, reply = some b → c.decode b = some (.arr entries) := by
  by_cases hnil : entries = []
  · subst hnil
    cases h
    exact ⟨none, rfl, by simp, by simp⟩
  · have hne : replies ≠ [] := by
      rintro rfl
      cases h
      exact hnil rfl
    have hsome : (c.encode (.arr entries)).isSome := by
      refine hl entries fun v hv => ?_
      obtain ⟨b, -, hb⟩ := forall₂_exists_left h hv
      simp [hb]
    obtain ⟨b, hb⟩ := Option.isSome_iff_exists.mp hsome
    have hdec := h.imp fun b v hv => hr v b hv
    refine ⟨some b, joinReplies_eq_some.mpr ⟨hne, entries, hdec, hb⟩, by simp [hnil], ?_⟩
    rintro _ ⟨⟩
    exact hr _ _ hb

/-- A batch that is not refused ends with the list of what is sent, or with no
reply when nothing is. -/
theorem processBatch_returns (hr : app.codec.RoundTrips) (he : app.codec.EncodesErrors)
    (hl : app.codec.EncodesLists) (hd : DispatchReturns dispatch) (hi : IdentityReturns app)
    (deadline : ℕ) (clientId : Option String) {items : List Json} (h : ¬ Refused app items)
    (s : State W) :
    ∃ sent entries reply,
      (processBatch app dispatch deadline clientId items s).2 = .value reply ∧
      List.Forall₂ (SentFor app.codec) (answers app dispatch deadline clientId items s) sent ∧
      List.Forall₂ (fun r v => WireResponse.toJson r = some v) sent.reduceOption entries ∧
      (reply = none ↔ entries = []) ∧
      ∀ b, reply = some b → app.codec.decode b = some (.arr entries) := by
  obtain ⟨fallbacks, hf⟩ := exists_mapM_eq_some fun item (_ : item ∈ items) =>
    fallback_isSome he item
  obtain ⟨replies, hloop⟩ : ∃ replies, batchLoop app dispatch deadline clientId
      (items.zip fallbacks) (app.maxResponseSize - items.length - 8) (fallbackBytes fallbacks) s =
        (_, .value replies) := (batchLoop_returns he hd hi _ _ _ s).eq
  obtain ⟨⟨sent, hsent, hreplies⟩, -⟩ :=
    batchLoop_value (mapM_eq_some_iff.mp hf) (fallbackBytes_le h hf) hloop
  obtain ⟨entries, hentries, henc⟩ := encoded_entries hreplies
  obtain ⟨reply, hjoin, hnone, hdec⟩ := joinReplies_of_entries hr hl henc
  refine ⟨sent, entries, reply, ?_, hsent, hentries, hnone, hdec⟩
  rw [processBatch_of_not_refused h hf, hloop]
  exact hjoin

/-- A message always ends with a reply or with silence. -/
theorem process_returns (hr : app.codec.RoundTrips) (he : app.codec.EncodesErrors)
    (hl : app.codec.EncodesLists) (hd : DispatchReturns dispatch) (hi : IdentityReturns app)
    (clientId : Option String) (data : Bytes) (s : State W) :
    Returns (process app dispatch clientId data s) := by
  unfold process
  cases app.codec.decode data with
  | none => exact encodeReply_returns he _ _ _
  | some envelope =>
    by_cases harr : ∃ items, envelope = .arr items
    · obtain ⟨items, rfl⟩ := harr
      by_cases hrefused : Refused app items
      · simp only [processEnvelope_arr, processBatch_of_refused hrefused]
        exact encodeReply_returns he _ _ _
      · obtain ⟨-, -, reply, hreply, -⟩ := processBatch_returns hr he hl hd hi
          (app.clock s.countRequest.world + app.handlerTimeout) clientId hrefused s.countRequest
        exact ⟨reply, hreply⟩
    · simp only [processEnvelope_of_ne_arr (not_exists.mp harr)]
      exact processOne_returns he hd hi envelope s.countRequest

theorem forall_notification_iff {c : Codec} {items entries : List Json}
    (h : List.Forall₂ (EntryFor c) (items.filter fun item => !notification item) entries) :
    entries = [] ↔ ∀ item ∈ items, notification item = true := by
  rw [← List.length_eq_zero_iff, ← h.length_eq, List.length_eq_zero_iff, List.filter_eq_nil_iff]
  simp

theorem processBatch_conforms (hr : app.codec.RoundTrips) (he : app.codec.EncodesErrors)
    (hl : app.codec.EncodesLists) (hd : AnswersWithId dispatch) (hi : IdentityReturns app)
    (items : List Json) (s : State W) :
    ∃ s' reply, processBatch app dispatch deadline clientId items s = (s', .value reply) ∧
      Conforms app (.arr items) s.dispatched s'.dispatched reply := by
  by_cases hrefused : Refused app items
  · obtain ⟨reply, hreply⟩ := encodeReply_returns he .invalidRequest "Invalid request" .null
    obtain ⟨b, hb, rfl⟩ := encodeReply_eq_value.mp hreply
    have hmessage : RefusedMessage app (.arr items) := ⟨items, rfl, hrefused⟩
    refine ⟨_, some b, (processBatch_of_refused hrefused).trans (Prod.ext rfl hreply), ?_⟩
    exact {
      refused_runs_nothing := fun _ => dispatched_refuseBatch app clientId s
      refused_iff := by
        rintro _ ⟨⟩
        exact iff_of_true hrefused ⟨b, rfl, hr _ _ hb⟩
      dispatched := ⟨[], by simp, List.nil_sublist _⟩
      answered := fun h => absurd hmessage h
      silent_iff := fun h => absurd hmessage h }
  · obtain ⟨sent, entries, reply, hrun, hsent, hjson, hnone, hdec⟩ :=
      processBatch_returns hr he hl hd.returns hi deadline clientId hrefused s
    have hentries := entries_of_sent hd hi hsent hjson
    have hmessage : ¬ RefusedMessage app (.arr items) := by
      rintro ⟨_, ⟨⟩, h⟩
      exact hrefused h
    refine ⟨_, reply, Prod.ext rfl hrun, ?_⟩
    exact {
      refused_runs_nothing := fun h => absurd h hmessage
      refused_iff := by
        rintro _ ⟨⟩
        refine iff_of_false hrefused ?_
        rintro ⟨b, hb, herror⟩
        cases (hdec b hb).symm.trans herror
      dispatched := dispatches_processBatch items s
      answered := fun _ b hb => ⟨entries, hdec b hb, hentries⟩
      silent_iff := fun _ => hnone.trans (forall_notification_iff hentries) }

/-- The reply to one request is its entry. -/
theorem processOne_conforms (hr : app.codec.RoundTrips) (he : app.codec.EncodesErrors)
    (hd : AnswersWithId dispatch) (hi : IdentityReturns app) {envelope : Json}
    (hone : ∀ items, envelope ≠ .arr items) (s : State W) :
    ∃ s' reply, processOne app dispatch deadline clientId envelope s = (s', .value reply) ∧
      Conforms app envelope s.dispatched s'.dispatched reply := by
  have hmessage : ¬ RefusedMessage app envelope := by
    rintro ⟨items, h, -⟩
    exact hone items h
  have hitems : itemsOf envelope = [envelope] := itemsOf_of_ne_arr hone
  have hreplyOf : ∀ v, replyOf envelope [v] = some v := by
    cases envelope with
    | arr items => exact absurd rfl (hone items)
    | _ => exact fun _ => rfl
  obtain ⟨reply, hrun⟩ : ∃ reply, processOne app dispatch deadline clientId envelope s =
      (_, .value reply) := (processOne_returns he hd.returns hi envelope s).eq
  have hran : Dispatches s (processOne app dispatch deadline clientId envelope s)
      (validate envelope).toList := dispatches_processOne envelope s
  have hnotification : reply = none ↔ notification envelope = true := by
    rw [← silent_eq_notification, ← answerOf_eq_none]
    obtain ⟨hnone, rfl⟩ | ⟨a, own, ha, -, rfl⟩ := processOne_value hrun
    · exact iff_of_true rfl hnone
    · exact iff_of_false (by simp) (by simp [ha])
  refine ⟨_, reply, hrun, ?_⟩
  exact {
    refused_runs_nothing := fun h => absurd h hmessage
    refused_iff := fun items h => absurd h (hone items)
    dispatched := by
      have hlist : (itemsOf envelope).filterMap validate = (validate envelope).toList := by
        rw [hitems]
        cases hv : validate envelope <;> simp [hv]
      rw [hlist]
      exact hran
    answered := by
      rintro - b hb
      have hn : notification envelope = false := by simpa [hb] using hnotification
      obtain ⟨-, hnone⟩ | ⟨a, own, ha, hown, hreply⟩ := processOne_value hrun
      · cases hnone.symm.trans hb
      obtain rfl := Option.some.inj (hb.symm.trans hreply)
      obtain ⟨v, hv, henc⟩ := Option.bind_eq_some_iff.mp hown
      refine ⟨[v], (hr _ _ henc).trans (hreplyOf v).symm, ?_⟩
      rw [hitems]
      simpa [hn] using entryFor_answer hd hi ha hv
    silent_iff := fun _ => by simpa [hitems] using hnotification }

theorem processEnvelope_conforms (hr : app.codec.RoundTrips) (he : app.codec.EncodesErrors)
    (hl : app.codec.EncodesLists) (hd : AnswersWithId dispatch) (hi : IdentityReturns app)
    (envelope : Json) (s : State W) :
    ∃ s' reply, processEnvelope app dispatch clientId envelope s = (s', .value reply) ∧
      Conforms app envelope s.dispatched s'.dispatched reply := by
  by_cases harr : ∃ items, envelope = .arr items
  · obtain ⟨items, rfl⟩ := harr
    exact processBatch_conforms hr he hl hd hi items s
  · rw [processEnvelope_of_ne_arr (not_exists.mp harr)]
    exact processOne_conforms hr he hd hi (not_exists.mp harr) s

/-- Every decoded message is answered as the protocol asks. -/
theorem process_conforms (app : ExecutionHost W) (dispatch : Dispatch W)
    (clientId : Option String) (hr : app.codec.RoundTrips) (he : app.codec.EncodesErrors)
    (hl : app.codec.EncodesLists) (hd : AnswersWithId dispatch) (hi : IdentityReturns app)
    (data : Bytes) (envelope : Json) (hdec : app.codec.decode data = some envelope) (s : State W) :
    ∃ s' reply, process app dispatch clientId data s = (s', .value reply) ∧
      Conforms app envelope s.dispatched s'.dispatched reply := by
  rw [process_of_decode hdec]
  exact processEnvelope_conforms hr he hl hd hi envelope s.countRequest

theorem failing_answersWithId : AnswersWithId failing := fun _ _ _ _ => .inr ⟨_, rfl⟩

theorem leastHost_identityReturns {n : ℕ} (hn : 0 < n) : IdentityReturns (leastHost n hn) := by
  rintro _ ⟨⟩

/-- A call and an item that is no request, in one batch. -/
theorem process_conforms_batch : ∃ s' reply,
    process (leastHost 2) failing none (Json.encode (.arr [callItem 7, .null])) initial =
        (s', .value reply) ∧
      Conforms (leastHost 2) (.arr [callItem 7, .null]) [] s'.dispatched reply :=
  process_conforms (leastHost 2) failing none msgSpecJsonCodec_roundTrips
    msgSpecJsonCodec_encodesErrors msgSpecJsonCodec_encodesLists failing_answersWithId
    (leastHost_identityReturns _) _ _ (Json.decode_encode _) initial

end Execution
end WireRpc
