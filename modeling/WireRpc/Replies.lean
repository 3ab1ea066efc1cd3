import WireRpc.Execution
import WireRpc.Library.Lists
import Mathlib.Data.List.ReduceOption

/-!
# What a batch answers

`answers` lists, item by item, the response of the server's own execution of
that item. The batch loop keeps each of them or replaces it by the item's
fallback, and the budget it keeps makes every fallback fit.
-/
namespace WireRpc.Execution
open Library

variable {W : Type}

theorem convert_obj {fields : List (String × Json)} {r : RawWireRequest}
    (h : convert (.obj fields) = some r) : convertId (Json.get? fields "id") = some r.id := by
  rw [convert] at h
  split at h
  · rename_i hid _
    split_ifs at h
    obtain rfl := Option.some.inj h
    exact hid
  · cases h

theorem convertId_eq_none {v : Option Json} : convertId v = some none ↔ v = none := by
  cases v with
  | none => simp [convertId]
  | some v =>
    cases hi : RequestId.ofJson v with
    | none => simp [convertId, hi]
    | some i => by_cases ha : i.Allowed <;> simp [convertId, hi, ha]

theorem convertId_eq_some {v : Json} {i : RequestId} (h : convertId (some v) = some (some i)) :
    RequestId.ofJson v = some i ∧ i.Allowed := by
  cases hi : RequestId.ofJson v with
  | none => simp [convertId, hi] at h
  | some j =>
    by_cases ha : j.Allowed
    · obtain rfl : j = i := by simpa [convertId, hi, ha] using h
      exact ⟨rfl, ha⟩
    · simp [convertId, hi, ha] at h

theorem validate_eq_some {item : Json} {r : RawWireRequest} (h : validate item = some r) :
    ∃ fields, item = .obj fields ∧ Json.get? fields "jsonrpc" = some (.str "2.0") ∧
      convert item = some r := by
  cases item with
  | obj fields =>
    rw [validate] at h
    split at h
    · exact ⟨fields, rfl, ‹_›, h⟩
    · cases h
  | _ => simp [validate] at h

theorem validate_allowed {item : Json} {r : RawWireRequest} (h : validate item = some r) :
    r.responseId.Allowed := by
  obtain ⟨fields, rfl, -, hc⟩ := validate_eq_some h
  have hid := convert_obj hc
  cases hr : r.id with
  | none => simp [RawWireRequest.responseId, hr, RequestId.Allowed]
  | some i =>
    cases hf : Json.get? fields "id" with
    | none => simp [hf, hr, convertId] at hid
    | some v =>
      rw [hf, hr] at hid
      simpa [RawWireRequest.responseId, hr] using (convertId_eq_some hid).2

/-- `_fallback` recognises exactly the items that `_process_one` runs as notifications. -/
theorem silent_iff {item : Json} :
    silent item = true ↔ ∃ r, validate item = some r ∧ r.id = none := by
  cases item with
  | obj fields =>
    by_cases hv : Json.get? fields "jsonrpc" = some (.str "2.0")
    · have hval : validate (.obj fields) = convert (.obj fields) := by simp [validate, hv]
      simp only [silent, hv, hval, Bool.and_eq_true, Option.isNone_iff_eq_none]
      constructor
      · rintro ⟨hid, hc⟩
        obtain ⟨r, hr⟩ := Option.isSome_iff_exists.mp hc
        refine ⟨r, hr, ?_⟩
        have h := convert_obj hr
        rw [hid, convertId] at h
        exact (Option.some.inj h).symm
      · rintro ⟨r, hr, hn⟩
        have h := convert_obj hr
        rw [hn] at h
        exact ⟨convertId_eq_none.mp h, by simp [hr]⟩
    · have hs : silent (.obj fields) = false := by
        rw [silent]
        split
        · exact absurd ‹_› hv
        · exact Bool.and_false _
      simp only [hs, Bool.false_eq_true, false_iff, not_exists, not_and]
      intro r hr
      obtain ⟨fields', hf, hv', -⟩ := validate_eq_some hr
      obtain rfl := Json.obj.inj hf
      exact absurd hv' hv
  | _ => simp [silent, validate]

/-- A valid item's fallback carries the item's own id. -/
theorem fallbackId_of_validate {item : Json} {r : RawWireRequest} (h : validate item = some r) :
    fallbackId item = r.responseId := by
  obtain ⟨fields, rfl, -, hc⟩ := validate_eq_some h
  have hid := convert_obj hc
  cases hf : Json.get? fields "id" with
  | none =>
    rw [hf, convertId] at hid
    simp [fallbackId, hf, RawWireRequest.responseId, ← Option.some.inj hid]
  | some v =>
    cases hr : r.id with
    | none =>
      rw [hf, hr] at hid
      exact absurd (convertId_eq_none.mp hid) (by simp)
    | some i =>
      rw [hf, hr] at hid
      simp [fallbackId, hf, (convertId_eq_some hid).1, RawWireRequest.responseId, hr]

/-- The response to a valid call, from the way its dispatch ended. A response
that is not encoded or too large becomes an internal error. -/
def answered (app : ExecutionHost W) (request : RawWireRequest) :
    Outcome WireResponse → WireResponse
  | .value response =>
    match app.codec.encodeResponse response with
    | some b =>
      if b.length > app.maxResponseSize then .error (errorFor .other) request.responseId
      else response
    | none => .error (errorFor .other) request.responseId
  | .raised e => .error (errorFor e) request.responseId
  | .cancelled => .error (errorFor .other) request.responseId

/-- The response the server's execution of one item produces from this state:
none for a valid notification. -/
def answerOf (app : ExecutionHost W) (dispatch : Dispatch W) (deadline : ℕ)
    (clientId : Option String) (item : Json) (s : State W) : Option WireResponse :=
  match validate item with
  | none => some invalidRequest
  | some request =>
    if request.id.isNone then none
    else some (answered app request (scope app dispatch deadline clientId request s.enter).2)

variable {app : ExecutionHost W} {dispatch : Dispatch W} {deadline : ℕ} {clientId : Option String}

theorem andThen_eq_value {α β : Type*} {r : State W × Outcome α}
    {next : State W → α → State W × Outcome β} {s : State W} {b : β} :
    andThen r next = (s, .value b) ↔ ∃ t a, r = (t, .value a) ∧ next t a = (s, .value b) := by
  obtain ⟨t, _ | _ | _⟩ := r <;> simp [andThen]

theorem encodeReply_eq_value {c : Codec} {r : WireResponse} {reply : Option Bytes} :
    encodeReply c r = .value reply ↔ ∃ b, c.encodeResponse r = some b ∧ reply = some b := by
  unfold encodeReply
  cases c.encodeResponse r <;> simp [eq_comm]

theorem encodeReply_ne_cancelled (c : Codec) (r : WireResponse) :
    encodeReply c r ≠ .cancelled := by
  unfold encodeReply
  split <;> nofun

theorem answerOf_eq_none {item : Json} {s : State W} :
    answerOf app dispatch deadline clientId item s = none ↔ silent item = true := by
  rw [silent_iff]
  unfold answerOf
  cases validate item with
  | none => simp
  | some r => by_cases hr : r.id.isNone <;> simp_all

section
variable (app dispatch deadline clientId)

/-- The identity check changes nothing but the world. -/
theorem principalOf_fst (s : State W) :
    ∃ world, (principalOf app deadline clientId s).1 = { s with world := world } := by
  unfold principalOf
  split
  · exact ⟨s.world, rfl⟩
  · exact ⟨_, rfl⟩

/-- The scope of a request leaves the counters and the log as they are. -/
theorem scope_fst (request : RawWireRequest) (s : State W) :
    ∃ world context ran, List.Sublist ran [request] ∧
      (scope app dispatch deadline clientId request s).1 =
        { s with world := world, context := context, dispatched := s.dispatched ++ ran } := by
  obtain ⟨world, hworld⟩ := principalOf_fst app deadline clientId s
  unfold scope
  cases hcase : principalOf app deadline clientId s with
  | mk t outcome =>
    rw [hcase] at hworld
    subst hworld
    cases outcome with
    | value principal => exact ⟨_, _, [request], .refl _, rfl⟩
    | raised e => exact ⟨world, s.context, [], List.nil_sublist _, by simp [andThen]⟩
    | cancelled => exact ⟨world, s.context, [], List.nil_sublist _, by simp [andThen]⟩

/-- Settling a request changes nothing but the counters. -/
theorem settle_fst (request : RawWireRequest) (s : State W) (ran : Outcome WireResponse) :
    ∃ stats, (settle app request s ran).1 = { s with stats := stats } := by
  cases ran with
  | cancelled => exact ⟨_, rfl⟩
  | raised e => exact ⟨_, rfl⟩
  | value response =>
    simp only [settle]
    split_ifs
    · exact ⟨_, rfl⟩
    · split
      · exact ⟨_, rfl⟩
      · split_ifs
        · exact ⟨_, rfl⟩
        · exact ⟨_, rfl⟩

end

/-- The reply to a call is its encoded response, a notification has no reply. -/
theorem settle_value {request : RawWireRequest} {s : State W} {outcome : Outcome WireResponse}
    {reply : Option Bytes} (h : (settle app request s outcome).2.2 = .value reply) :
    if request.id.isNone then reply = none
    else ∃ b, app.codec.encodeResponse (answered app request outcome) = some b ∧
      reply = some b := by
  have hfail : ∀ e, (fail app.codec request s e).2.2 = .value reply →
      if request.id.isNone then reply = none
      else ∃ b, app.codec.encodeResponse (.error (errorFor e) request.responseId) = some b ∧
        reply = some b := by
    intro e he
    simp only [fail] at he
    split_ifs with hn
    · simpa [hn, eq_comm] using he
    · rw [if_neg hn] at he
      exact encodeReply_eq_value.mp he
  cases outcome with
  | cancelled => simp [settle] at h
  | raised e => exact hfail e h
  | value response =>
    by_cases hn : request.id.isNone
    · simpa [settle, hn, eq_comm] using h
    · simp only [settle, if_neg hn] at h
      cases henc : app.codec.encodeResponse response with
      | none =>
        rw [henc] at h
        simpa [answered, henc] using hfail .other h
      | some b =>
        simp only [henc] at h
        by_cases hlen : b.length > app.maxResponseSize
        · rw [if_pos hlen] at h
          simpa [answered, henc, hlen] using hfail .other h
        · rw [if_neg hlen] at h
          have hb : some b = reply := by simpa using h
          simp [hn, answered, henc, hlen, hb.symm]

theorem processOne_value {item : Json} {s s' : State W} {reply : Option Bytes}
    (h : processOne app dispatch deadline clientId item s = (s', .value reply)) :
    (answerOf app dispatch deadline clientId item s = none ∧ reply = none) ∨
      ∃ a b, answerOf app dispatch deadline clientId item s = some a ∧
        app.codec.encodeResponse a = some b ∧ reply = some b := by
  have h2 := congrArg Prod.snd h
  unfold processOne at h2
  unfold answerOf
  cases hv : validate item with
  | none =>
    simp only [hv] at h2
    obtain ⟨b, hb, rfl⟩ := encodeReply_eq_value.mp h2
    exact .inr ⟨invalidRequest, b, rfl, hb, rfl⟩
  | some request =>
    simp only [hv] at h2
    have hs := settle_value h2
    by_cases hn : request.id.isNone
    · rw [if_pos hn] at hs
      exact .inl ⟨by simp [hn], hs⟩
    · rw [if_neg hn] at hs
      obtain ⟨b, hb, rfl⟩ := hs
      exact .inr ⟨_, b, by simp [hn], hb, rfl⟩

/-- The items of a batch with their responses, each from the state its turn starts in. -/
def answers (app : ExecutionHost W) (dispatch : Dispatch W) (deadline : ℕ)
    (clientId : Option String) : List Json → State W → List (Json × Option WireResponse)
  | [], _ => []
  | item :: rest, s =>
    (item, answerOf app dispatch deadline clientId item s) ::
      answers app dispatch deadline clientId rest
        (processOne app dispatch deadline clientId item s).1

@[simp] theorem map_fst_answers (items : List Json) (s : State W) :
    (answers app dispatch deadline clientId items s).map Prod.fst = items := by
  induction items generalizing s with
  | nil => rfl
  | cons item rest ih => simp [answers, ih]

/-- The response that `_fallback` encodes. -/
def fallbackResponse (item : Json) : WireResponse :=
  .error ⟨.internal, "Internal server error", .null⟩ (fallbackId item)

/-- What is sent for an item and its response: nothing for a valid notification,
otherwise the response itself, or the item's fallback when that is shorter. -/
inductive SentFor (c : Codec) : Json × Option WireResponse → Option WireResponse → Prop
  | silent {item : Json} (h : silent item = true) : SentFor c (item, none) none
  | own {item : Json} {a : WireResponse} (h : silent item = false) :
      SentFor c (item, some a) (some a)
  | short {item : Json} {a : WireResponse} {own f : Bytes} (h : silent item = false)
      (hown : c.encodeResponse a = some own)
      (hf : c.encodeResponse (fallbackResponse item) = some f) (hlt : f.length < own.length) :
      SentFor c (item, some a) (some (fallbackResponse item))

/-- The replies of a batch are the encoded responses that are sent, in item order. -/
def Sends (c : Codec) (answers : List (Json × Option WireResponse)) (replies : List Bytes) :
    Prop :=
  ∃ sent, List.Forall₂ (SentFor c) answers sent ∧
    List.Forall₂ (fun r b => c.encodeResponse r = some b) sent.reduceOption replies

theorem Sends.nil {c : Codec} : Sends c [] [] := ⟨[], .nil, .nil⟩

theorem Sends.cons_silent {c : Codec} {item : Json} {answers : List (Json × Option WireResponse)}
    {replies : List Bytes} (h : silent item = true) (hs : Sends c answers replies) :
    Sends c ((item, none) :: answers) replies := by
  obtain ⟨sent, hsent, hreplies⟩ := hs
  exact ⟨none :: sent, .cons (.silent h) hsent, hreplies⟩

theorem Sends.cons_loud {c : Codec} {item : Json} {a r : WireResponse} {b : Bytes}
    {answers : List (Json × Option WireResponse)} {replies : List Bytes}
    (h : SentFor c (item, some a) (some r)) (hb : c.encodeResponse r = some b)
    (hs : Sends c answers replies) : Sends c ((item, some a) :: answers) (b :: replies) := by
  obtain ⟨sent, hsent, hreplies⟩ := hs
  exact ⟨some r :: sent, .cons h hsent, .cons hb hreplies⟩

theorem Sends.length_le {c : Codec} {answers : List (Json × Option WireResponse)}
    {replies : List Bytes} (h : Sends c answers replies) : replies.length ≤ answers.length := by
  obtain ⟨sent, hsent, hreplies⟩ := h
  rw [← hreplies.length_eq, hsent.length_eq]
  exact List.reduceOption_length_le sent

/-- Every reply is an encoded value. -/
theorem Sends.encoded {c : Codec} {answers : List (Json × Option WireResponse)}
    {replies : List Bytes} (h : Sends c answers replies) {b : Bytes} (hb : b ∈ replies) :
    ∃ v, c.encode v = some b := by
  obtain ⟨sent, -, hreplies⟩ := h
  obtain ⟨r, -, hr⟩ := forall₂_exists_left hreplies hb
  obtain ⟨v, -, hv⟩ := Option.bind_eq_some_iff.mp hr
  exact ⟨v, hv⟩

theorem fallback_eq_some {c : Codec} {item : Json} {f : Option Bytes}
    (h : fallback c item = some f) :
    (silent item = true ∧ f = none) ∨
      (silent item = false ∧
        ∃ b, f = some b ∧ c.encodeResponse (fallbackResponse item) = some b) := by
  unfold fallback at h
  cases hs : silent item with
  | true => simpa [hs, eq_comm] using h
  | false =>
    simp only [hs, Bool.false_eq_true, if_false, Option.map_eq_some_iff] at h
    obtain ⟨b, hb, rfl⟩ := h
    exact .inr ⟨rfl, b, rfl, hb⟩

theorem joinReplies_eq_some {c : Codec} {replies : List Bytes} {b : Bytes} :
    joinReplies c replies = .value (some b) ↔ replies ≠ [] ∧ ∃ values,
      List.Forall₂ (fun r v => c.decode r = some v) replies values ∧
        c.encode (.arr values) = some b := by
  unfold joinReplies
  by_cases hnil : replies = []
  · simp [hnil]
  · simp only [if_neg hnil, ← mapM_eq_some_iff]
    cases replies.mapM c.decode with
    | none => simp
    | some values => cases h : c.encode (.arr values) <;> simp [h, hnil]

theorem joinReplies_eq_none {c : Codec} {replies : List Bytes} :
    joinReplies c replies = .value none ↔ replies = [] := by
  unfold joinReplies
  by_cases hnil : replies = []
  · simp [hnil]
  · rw [if_neg hnil]
    refine iff_of_false ?_ hnil
    split
    · nofun
    · split <;> nofun

theorem joinReplies_ne_cancelled (c : Codec) (replies : List Bytes) :
    joinReplies c replies ≠ .cancelled := by
  unfold joinReplies
  split_ifs
  · nofun
  · split
    · nofun
    · split <;> nofun

/-- The room that a list of fallbacks takes. -/
def fallbackBytes (fallbacks : List (Option Bytes)) : ℕ :=
  (fallbacks.map fun f => (f.getD []).length).sum

@[simp] theorem fallbackBytes_nil : fallbackBytes [] = 0 := rfl

@[simp] theorem fallbackBytes_cons (f : Option Bytes) (fs : List (Option Bytes)) :
    fallbackBytes (f :: fs) = (f.getD []).length + fallbackBytes fs := by simp [fallbackBytes]

/-- As long as the fallbacks of the unfinished items fit in the room that is
left, the loop keeps for each item its reply or its fallback, and what it keeps
fits as well. -/
theorem batchLoop_value {items : List Json} {fallbacks : List (Option Bytes)}
    (hf : List.Forall₂ (fun item f => fallback app.codec item = some f) items fallbacks)
    {remaining : ℤ} {s s' : State W} {replies : List Bytes}
    (hfit : (fallbackBytes fallbacks : ℤ) ≤ remaining)
    (h : batchLoop app dispatch deadline clientId (items.zip fallbacks) remaining
      (fallbackBytes fallbacks) s = (s', .value replies)) :
    Sends app.codec (answers app dispatch deadline clientId items s) replies ∧
      ((replies.map List.length).sum : ℤ) ≤ remaining := by
  induction hf generalizing remaining s replies with
  | nil =>
    simp only [List.zip_nil_left, batchLoop, Prod.mk.injEq, Outcome.value.injEq] at h
    obtain ⟨-, rfl⟩ := h
    exact ⟨.nil, by simpa using hfit⟩
  | @cons item f items fallbacks hitem hrest ih =>
    simp only [List.zip_cons_cons, batchLoop] at h
    obtain ⟨t, reply, hone, h⟩ := andThen_eq_value.mp h
    have ht : (processOne app dispatch deadline clientId item s).1 = t := by rw [hone]
    simp only [answers, ht]
    obtain ⟨hsilent, rfl⟩ | ⟨hloud, b, rfl, hb⟩ := fallback_eq_some hitem
    · -- a valid notification has neither a fallback nor a reply
      have hanswer : answerOf app dispatch deadline clientId item s = none :=
        answerOf_eq_none.mpr hsilent
      obtain ⟨-, rfl⟩ | ⟨a, own, ha, -, -⟩ := processOne_value hone
      · simp only [fallbackBytes_cons, Option.getD_none, List.length_nil, Nat.zero_add] at hfit h
        obtain ⟨hsends, hsum⟩ := ih hfit h
        exact ⟨hanswer ▸ hsends.cons_silent hsilent, hsum⟩
      · simp [hanswer] at ha
    · obtain ⟨hnone, -⟩ | ⟨a, own, ha, hown, rfl⟩ := processOne_value hone
      · simp [answerOf_eq_none.mp hnone] at hloud
      simp only [fallbackBytes_cons, Option.getD_some, Nat.cast_add] at hfit h
      have hreserved : (b.length : ℤ) + fallbackBytes fallbacks - b.length =
          fallbackBytes fallbacks := by omega
      rw [hreserved] at h
      obtain ⟨u, tail, htail, h⟩ := andThen_eq_value.mp h
      simp only [Prod.mk.injEq, Outcome.value.injEq] at h
      obtain ⟨rfl, rfl⟩ := h
      have hkept : ∃ r, SentFor app.codec (item, some a) (some r) ∧ app.codec.encodeResponse r =
          some (if (own.length : ℤ) > remaining - fallbackBytes fallbacks then b else own) := by
        split_ifs with hlong
        · exact ⟨_, .short hloud hown hb (by omega), hb⟩
        · exact ⟨a, .own hloud, hown⟩
      have hroom : (fallbackBytes fallbacks : ℤ) ≤ remaining -
          (if (own.length : ℤ) > remaining - fallbackBytes fallbacks then b else own).length := by
        split_ifs <;> omega
      obtain ⟨hsends, hsum⟩ := ih hroom htail
      obtain ⟨r, hr, henc⟩ := hkept
      refine ⟨ha ▸ hsends.cons_loud hr henc, ?_⟩
      simp only [List.map_cons, List.sum_cons, Nat.cast_add]
      omega

/-- A batch that is refused before anything runs: it is empty, too long, or its
fallbacks alone do not fit. -/
def Refused (app : ExecutionHost W) (items : List Json) : Prop :=
  items = [] ∨ app.maxBatchSize < items.length ∨
    ∃ fallbacks, items.mapM (fallback app.codec) = some fallbacks ∧
      app.maxResponseSize < reserve fallbacks

theorem processBatch_of_refused {items : List Json} {s : State W} (h : Refused app items) :
    processBatch app dispatch deadline clientId items s = refuseBatch app clientId s := by
  unfold processBatch
  obtain rfl | h | ⟨fallbacks, hf, h⟩ := h
  · rw [if_pos List.length_nil]
  · rw [if_pos h]
    split_ifs <;> rfl
  · simp only [hf, if_pos h]
    split_ifs <;> rfl

/-- A batch that is not refused runs its loop with room for every fallback. -/
theorem processBatch_of_not_refused {items : List Json} {s : State W}
    {fallbacks : List (Option Bytes)} (h : ¬ Refused app items)
    (hf : items.mapM (fallback app.codec) = some fallbacks) :
    processBatch app dispatch deadline clientId items s =
      andThen (batchLoop app dispatch deadline clientId (items.zip fallbacks)
        (app.maxResponseSize - items.length - 8) (fallbackBytes fallbacks) s)
        fun s replies => (s, joinReplies app.codec replies) := by
  have hlen : fallbacks.length = items.length := (mapM_eq_some_iff.mp hf).length_eq.symm
  have hnil : items ≠ [] := fun h' => h (.inl h')
  have hmax : ¬ items.length > app.maxBatchSize := fun h' => h (.inr (.inl h'))
  have hreserve : ¬ reserve fallbacks > app.maxResponseSize := fun h' =>
    h (.inr (.inr ⟨fallbacks, hf, h'⟩))
  have hreserved : (reserve fallbacks : ℤ) - items.length - 8 = fallbackBytes fallbacks := by
    simp only [reserve, fallbackBytes]
    omega
  simp only [processBatch, hf, hreserved, if_neg hmax, if_neg hreserve, List.length_eq_zero_iff,
    if_neg hnil]

/-- A batch that is not refused has room for the fallbacks of all its items. -/
theorem fallbackBytes_le {items : List Json} {fallbacks : List (Option Bytes)}
    (h : ¬ Refused app items) (hf : items.mapM (fallback app.codec) = some fallbacks) :
    (fallbackBytes fallbacks : ℤ) ≤ app.maxResponseSize - items.length - 8 := by
  have hlen := (mapM_eq_some_iff.mp hf).length_eq
  have hfit : ¬ app.maxResponseSize < reserve fallbacks := fun h' =>
    h (.inr (.inr ⟨fallbacks, hf, h'⟩))
  simp only [reserve] at hfit
  simp only [fallbackBytes]
  omega

/-- How a batch that is not refused ends with a value. -/
theorem processBatch_value {items : List Json} {s s' : State W} {reply : Option Bytes}
    (h : ¬ Refused app items)
    (hp : processBatch app dispatch deadline clientId items s = (s', .value reply)) :
    ∃ fallbacks replies, items.mapM (fallback app.codec) = some fallbacks ∧
      Sends app.codec (answers app dispatch deadline clientId items s) replies ∧
      (replies.map List.length).sum + items.length + 8 ≤ app.maxResponseSize ∧
      joinReplies app.codec replies = .value reply := by
  cases hf : items.mapM (fallback app.codec) with
  | none =>
    have hnil : items ≠ [] := fun h' => h (.inl h')
    have hmax : ¬ items.length > app.maxBatchSize := fun h' => h (.inr (.inl h'))
    simp [processBatch, hf, hnil, hmax] at hp
  | some fallbacks =>
    rw [processBatch_of_not_refused h hf] at hp
    obtain ⟨t, replies, hloop, hjoin⟩ := andThen_eq_value.mp hp
    obtain ⟨hsends, hsum⟩ := batchLoop_value (mapM_eq_some_iff.mp hf) (fallbackBytes_le h hf) hloop
    exact ⟨fallbacks, replies, rfl, hsends, by omega, (Prod.mk.inj hjoin).2⟩

end WireRpc.Execution
