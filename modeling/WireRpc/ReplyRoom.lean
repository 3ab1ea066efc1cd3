import WireRpc.AccessLog

/-!
# The room of a reply

Which batches have an access log that tells what the caller receives is decided by what the
identity check and the handlers make of the items, and by the sizes of these responses.
-/
namespace WireRpc.Execution
open Library

variable {W : Type}

section
variable (app : ExecutionHost W) (dispatch : Dispatch W) (deadline : ℕ)
  (clientId : Option String)

/-- What the identity check and the handlers make of a request. -/
def handle (request : RawWireRequest) (w : W) : W × Outcome WireResponse :=
  let checked : W × Outcome (Option String) := match app.getPrincipal with
    | none => (w, .value none)
    | some getPrincipal => getPrincipal clientId deadline w
  match checked with
  | (w, .value principal) =>
    dispatch ⟨request.responseId, request.method, principal, clientId⟩ request deadline w
  | (w, .raised e) => (w, .raised e)
  | (w, .cancelled) => (w, .cancelled)

/-- The response to one item, none to a notification. -/
def respond (item : Json) (w : W) : W × Outcome (Option WireResponse) :=
  match validate item with
  | none => (w, .value (some invalidRequest))
  | some request =>
    match handle app dispatch deadline clientId request w with
    | (w, .cancelled) => (w, .cancelled)
    | (w, outcome) =>
      (w, .value (if request.id.isNone then none else some (answered app request outcome)))

/-- The responses to the items, one after the other, unless one of them is cancelled. -/
def responses : List Json → W → Option (List (Option WireResponse))
  | [], _ => some []
  | item :: items, w =>
    match respond app dispatch deadline clientId item w with
    | (w, .value response) => (responses items w).map (response :: ·)
    | _ => none

end

/-- The bytes that a response takes. -/
def responseSize (c : Codec) (r : WireResponse) : ℕ := ((c.encodeResponse r).getD []).length

/-- The bytes that the fallback of an item takes. -/
def fallbackSize (c : Codec) (item : Json) : ℕ :=
  if silent item then 0 else responseSize c (fallbackResponse item)

/-- Every response has room beside the fallbacks of the items that follow, or is an internal
error for which its own fallback is put. -/
def fits (c : Codec) : ℤ → List (Json × Option WireResponse) → Bool
  | _, [] => true
  | room, (_, none) :: rest => fits c room rest
  | room, (item, some r) :: rest =>
    let later := (rest.map fun p => fallbackSize c p.1).sum
    if (responseSize c r : ℤ) ≤ room - later then fits c (room - responseSize c r) rest
    else decide (responseOutcome r = .code (-32603)) && fits c (room - fallbackSize c item) rest

/-- The responses of a batch that is neither refused nor cancelled fit into its reply. -/
def HasRoom (app : ExecutionHost W) (dispatch : Dispatch W) (clientId : Option String)
    (data : Bytes) (w : W) : Prop :=
  ∀ items, app.codec.decode data = some (.arr items) → ¬ Refused app items →
    ∀ rs, responses app dispatch (app.clock w + app.handlerTimeout) clientId items w = some rs →
      fits app.codec (app.maxResponseSize - items.length - 8) (items.zip rs) = true

variable {app : ExecutionHost W} {dispatch : Dispatch W} {deadline : ℕ}
  {clientId : Option String}

theorem scope_handle (request : RawWireRequest) (s : State W) :
    (scope app dispatch deadline clientId request s).1.world =
        (handle app dispatch deadline clientId request s.world).1 ∧
      (scope app dispatch deadline clientId request s).2 =
        (handle app dispatch deadline clientId request s.world).2 := by
  unfold scope handle principalOf
  cases app.getPrincipal with
  | none => exact ⟨rfl, rfl⟩
  | some getPrincipal =>
    dsimp only
    obtain ⟨w, principal | e | _⟩ := getPrincipal clientId deadline s.world <;> exact ⟨rfl, rfl⟩

section
variable {item : Json} {s : State W}

theorem processOne_valid {request : RawWireRequest} (hvalid : validate item = some request) :
    (processOne app dispatch deadline clientId item s).1.world =
        (handle app dispatch deadline clientId request s.world).1 ∧
      ∃ t, (processOne app dispatch deadline clientId item s).2 = (settle app request t
        (handle app dispatch deadline clientId request s.world).2).2.2 := by
  obtain ⟨hworld, hran⟩ : (scope app dispatch deadline clientId request s.enter).1.world = _ ∧
    (scope app dispatch deadline clientId request s.enter).2 = _ := scope_handle request s.enter
  obtain ⟨stats, hs⟩ := settle_fst app request
    (scope app dispatch deadline clientId request s.enter).1
    (scope app dispatch deadline clientId request s.enter).2
  simp only [processOne, hvalid]
  constructor
  · simp only [State.access, State.leave, hs, hworld]
    rfl
  · rw [hran]
    exact ⟨_, rfl⟩

section
variable {request : RawWireRequest} {w w' : W}

theorem respond_of_handle (hvalid : validate item = some request) {outcome : Outcome WireResponse}
    (hran : handle app dispatch deadline clientId request w = (w', outcome))
    (hne : outcome ≠ .cancelled) : respond app dispatch deadline clientId item w =
      (w', .value (if request.id.isNone then none else some (answered app request outcome))) := by
  cases outcome with
  | cancelled => exact absurd rfl hne
  | _ => simp only [respond, hvalid, hran]

theorem respond_cancelled (hvalid : validate item = some request)
    (hran : handle app dispatch deadline clientId request w = (w', .cancelled)) :
    respond app dispatch deadline clientId item w = (w', .cancelled) := by
  simp only [respond, hvalid, hran]

end

/-- An item with a response is answered with it, and leaves the world of its handlers. -/
theorem processOne_respond (he : app.codec.EncodesErrors) {w : W} {response : Option WireResponse}
    (h : respond app dispatch deadline clientId item s.world = (w, .value response)) :
    answerOf app dispatch deadline clientId item s = response ∧
      (processOne app dispatch deadline clientId item s).1.world = w ∧
      ∃ reply, (processOne app dispatch deadline clientId item s).2 = .value reply := by
  cases hvalid : validate item with
  | none =>
    simp only [respond, hvalid, Prod.mk.injEq, Outcome.value.injEq] at h
    obtain ⟨rfl, rfl⟩ := h
    simp only [answerOf, processOne, hvalid]
    exact ⟨trivial, rfl, encodeReply_returns he _ _ _⟩
  | some request =>
    obtain ⟨hworld, t, hreply⟩ : (processOne app dispatch deadline clientId item s).1.world = _ ∧
      ∃ t, (processOne app dispatch deadline clientId item s).2 = _ := processOne_valid hvalid
    have hscope : (scope app dispatch deadline clientId request s.enter).2 =
      (handle app dispatch deadline clientId request s.world).2 := (scope_handle request s.enter).2
    obtain ⟨v, outcome, hran⟩ : ∃ v outcome,
      handle app dispatch deadline clientId request s.world = (v, outcome) := ⟨_, _, rfl⟩
    rw [hran] at hworld hreply hscope
    by_cases hcancelled : outcome = .cancelled
    · subst hcancelled
      nomatch (respond_cancelled hvalid hran).symm.trans h
    · obtain ⟨rfl, hresponse⟩ := Prod.mk.inj
        ((respond_of_handle hvalid hran hcancelled).symm.trans h)
      refine ⟨?_, hworld, ?_⟩
      · simp only [answerOf, hvalid, hscope]
        exact Outcome.value.inj hresponse
      · rw [hreply]
        exact settle_returns he request t hcancelled

/-- An item without a response is cancelled. -/
theorem processOne_without_response
    (h : ∀ w response, respond app dispatch deadline clientId item s.world ≠ (w, .value response)) :
    (processOne app dispatch deadline clientId item s).2 = .cancelled := by
  cases hvalid : validate item with
  | none =>
    have hrespond : respond app dispatch deadline clientId item s.world =
        (s.world, .value (some invalidRequest)) := by
      simp only [respond, hvalid]
    exact absurd hrespond (h _ _)
  | some request =>
    obtain ⟨-, t, hreply⟩ : (processOne app dispatch deadline clientId item s).1.world = _ ∧
      ∃ t, (processOne app dispatch deadline clientId item s).2 = _ := processOne_valid hvalid
    obtain ⟨v, outcome, hran⟩ : ∃ v outcome,
      handle app dispatch deadline clientId request s.world = (v, outcome) := ⟨_, _, rfl⟩
    rw [hreply, hran]
    by_cases hcancelled : outcome = .cancelled
    · rw [hcancelled]
      rfl
    · exact absurd (respond_of_handle hvalid hran hcancelled) (h _ _)

end

/-- The loop goes on after an item that ends with a reply or with silence. -/
theorem turns_cons {item : Json} {f : Option Bytes} {rest : List (Json × Option Bytes)}
    {remaining reserved : ℤ} {s s' : State W} {reply : Option Bytes}
    (h : processOne app dispatch deadline clientId item s = (s', .value reply)) :
    turns app dispatch deadline clientId ((item, f) :: rest) remaining reserved s =
      let t := turn app dispatch deadline clientId item f
        (remaining - (reserved - (f.getD []).length)) s
      t :: turns app dispatch deadline clientId rest (remaining - (t.kept.getD []).length)
        (reserved - (f.getD []).length) s' := by
  simp only [turns, turn, h]

theorem fallbackBytes_eq {c : Codec} {items : List Json} {fallbacks : List (Option Bytes)}
    (hf : List.Forall₂ (fun item f => fallback c item = some f) items fallbacks) :
    fallbackBytes fallbacks = (items.map (fallbackSize c)).sum := by
  induction hf with
  | nil => rfl
  | @cons item f items fallbacks hitem _ ih =>
    have hsize : (f.getD []).length = fallbackSize c item := by
      obtain ⟨hsilent, rfl⟩ | ⟨hloud, b, rfl, hb⟩ := fallback_eq_some hitem
      · simp [fallbackSize, hsilent]
      · simp [fallbackSize, hloud, responseSize, hb]
    rw [fallbackBytes_cons, ih, List.map_cons, List.sum_cons, hsize]

section
variable {items : List Json} {rs : List (Option WireResponse)}

theorem responses_cons {item : Json} {w : W}
    (h : responses app dispatch deadline clientId (item :: items) w = some rs) :
    ∃ v response rest, respond app dispatch deadline clientId item w = (v, .value response) ∧
      responses app dispatch deadline clientId items v = some rest ∧ rs = response :: rest := by
  rw [responses] at h
  split at h
  · rename_i v response hrespond
    obtain ⟨rest, hrest, rfl⟩ := Option.map_eq_some_iff.mp h
    exact ⟨v, response, rest, hrespond, hrest, rfl⟩
  · nomatch h

theorem length_responses {w : W}
    (h : responses app dispatch deadline clientId items w = some rs) :
    rs.length = items.length := by
  induction items generalizing w rs with
  | nil => rw [← Option.some.inj h, List.length_nil, List.length_nil]
  | cons item items ih =>
    obtain ⟨v, response, rest, -, hrest, rfl⟩ := responses_cons h
    rw [List.length_cons, List.length_cons, ih hrest]

/-- What the loop does with a response, against its size. -/
theorem turn_respond (room : ℤ) {item : Json} {f : Option Bytes} {s : State W} {a : WireResponse}
    (hf : fallback app.codec item = some f)
    (hanswer : answerOf app dispatch deadline clientId item s = some a) {reply : Option Bytes}
    {s' : State W}
    (hreply : processOne app dispatch deadline clientId item s = (s', .value reply)) :
    let t := turn app dispatch deadline clientId item f room s
    (t.exchanged = true ↔ room < responseSize app.codec a) ∧
      ((t.kept.getD []).length : ℤ) = if (responseSize app.codec a : ℤ) ≤ room
        then responseSize app.codec a else fallbackSize app.codec item := by
  obtain ⟨hnone, -⟩ | ⟨a', b, ha, henc, rfl⟩ := processOne_value hreply
  · nomatch hanswer.symm.trans hnone
  obtain rfl := Option.some.inj (hanswer.symm.trans ha)
  have hsize : responseSize app.codec a = b.length := by rw [responseSize, henc, Option.getD_some]
  obtain ⟨hsilent, -⟩ | ⟨hloud, fb, rfl, hfb⟩ := fallback_eq_some hf
  · nomatch hanswer.symm.trans (answerOf_eq_none.mpr hsilent)
  have hfallback : fallbackSize app.codec item = fb.length := by
    simp [fallbackSize, hloud, responseSize, hfb]
  simp only [turn, hreply, keep, exchanges, Option.isSome_some, Bool.true_and, Option.getD_some,
    decide_eq_true_eq, hsize, hfallback]
  refine ⟨trivial, ?_⟩
  split_ifs <;> first | rfl | omega

/-- What the fallbacks of the items that follow take of the room. -/
theorem later_eq {fallbacks : List (Option Bytes)} {w : W}
    (hf : List.Forall₂ (fun item f => fallback app.codec item = some f) items fallbacks)
    (hrs : responses app dispatch deadline clientId items w = some rs) :
    ((items.zip rs).map fun p => fallbackSize app.codec p.1).sum = fallbackBytes fallbacks := by
  have hfst : (items.zip rs).map Prod.fst = items :=
    List.map_fst_zip (length_responses hrs).ge
  rw [fallbackBytes_eq hf]
  nth_rewrite 2 [← hfst]
  rw [List.map_map]
  rfl

/-- Only internal errors are exchanged, exactly if the responses fit. -/
theorem turns_exchanged_iff (he : app.codec.EncodesErrors) {fallbacks : List (Option Bytes)}
    (hf : List.Forall₂ (fun item f => fallback app.codec item = some f) items fallbacks)
    (remaining : ℤ) {s : State W}
    (hrs : responses app dispatch deadline clientId items s.world = some rs) :
    (∀ t ∈ turns app dispatch deadline clientId (items.zip fallbacks) remaining
        (fallbackBytes fallbacks) s, t.exchanged = true →
          InternalError app dispatch deadline clientId t) ↔
      fits app.codec remaining (items.zip rs) = true := by
  induction hf generalizing remaining s rs with
  | nil => simp [turns, fits]
  | @cons item f items fallbacks hitem hrest ih =>
    obtain ⟨w, response, rest, hrespond, hmore, rfl⟩ := responses_cons hrs
    obtain ⟨hanswer, hworld, reply, hreply⟩ := processOne_respond he hrespond
    obtain ⟨s', hone⟩ : ∃ s', processOne app dispatch deadline clientId item s =
      (s', .value reply) := ⟨_, Prod.ext rfl hreply⟩
    have hreserved : (fallbackBytes (f :: fallbacks) : ℤ) - (f.getD []).length =
        fallbackBytes fallbacks := by
      rw [fallbackBytes_cons]
      omega
    rw [← hworld, hone] at hmore
    rw [List.zip_cons_cons, turns_cons hone, List.forall_mem_cons, hreserved, ih _ hmore]
    cases response with
    | none =>
      obtain ⟨-, rfl⟩ | ⟨a, -, ha, -⟩ := processOne_value hone
      · simp [turn, hone, fits]
      · cases hanswer.symm.trans ha
    | some a =>
      obtain ⟨hexchanged, hkept⟩ := turn_respond (remaining - fallbackBytes fallbacks)
        hitem hanswer hone
      have hinternal : InternalError app dispatch deadline clientId (turn app dispatch deadline
          clientId item f (remaining - fallbackBytes fallbacks) s) ↔
            responseOutcome a = .code (-32603) := by
        rw [responseOutcome_eq_code]
        simp only [InternalError, turn, hanswer, Option.some.injEq]
      rw [List.zip_cons_cons, fits, later_eq hrest hmore, hexchanged, hinternal, hkept]
      split_ifs with hroom
      · exact and_iff_right fun hlong => absurd hroom (not_le.mpr hlong)
      · rw [Bool.and_eq_true, decide_eq_true_eq]
        exact and_congr_left' (forall_prop_of_true (not_le.mp hroom))

/-- The turns of items that have responses end with replies or with silence. -/
theorem turns_values (he : app.codec.EncodesErrors) {fallbacks : List (Option Bytes)}
    {remaining reserved : ℤ} {s : State W}
    (hrs : responses app dispatch deadline clientId items s.world = some rs) {t : Turn W}
    (ht : t ∈ turns app dispatch deadline clientId (items.zip fallbacks) remaining reserved s) :
    ∃ reply, t.own = .value reply := by
  induction items generalizing fallbacks remaining reserved s rs with
  | nil => cases ht
  | cons item items ih =>
    cases fallbacks with
    | nil => cases ht
    | cons f fallbacks =>
      obtain ⟨w, response, rest, hrespond, hmore, rfl⟩ := responses_cons hrs
      obtain ⟨-, hworld, reply, hreply⟩ := processOne_respond he hrespond
      rw [← hworld] at hmore
      rw [List.zip_cons_cons, turns_cons (Prod.ext rfl hreply)] at ht
      obtain rfl | ht := List.mem_cons.mp ht
      · exact ⟨reply, hreply⟩
      · exact ih hmore ht

/-- The turn of an item without a response is the last one. -/
theorem turns_cancelled (he : app.codec.EncodesErrors) {fallbacks : List (Option Bytes)}
    (hlen : items.length ≤ fallbacks.length) (remaining reserved : ℤ) {s : State W}
    (hnone : responses app dispatch deadline clientId items s.world = none) :
    ∃ t ∈ turns app dispatch deadline clientId (items.zip fallbacks) remaining reserved s,
      t.own = .cancelled := by
  induction items generalizing fallbacks remaining reserved s with
  | nil => nomatch hnone
  | cons item items ih =>
    cases fallbacks with
    | nil => nomatch hlen
    | cons f fallbacks =>
      by_cases hsome : ∃ w response, respond app dispatch deadline clientId item s.world =
        (w, .value response)
      · obtain ⟨w, response, hrespond⟩ := hsome
        obtain ⟨-, hworld, reply, hreply⟩ := processOne_respond he hrespond
        have hmore : responses app dispatch deadline clientId items w = none := by
          rw [responses, hrespond] at hnone
          exact Option.map_eq_none_iff.mp hnone
        rw [← hworld] at hmore
        rw [List.zip_cons_cons, turns_cons (Prod.ext rfl hreply)]
        obtain ⟨t, ht, hown⟩ := ih (Nat.le_of_succ_le_succ hlen) _ _ hmore
        exact ⟨t, List.mem_cons_of_mem _ ht, hown⟩
      · have hcancelled : (processOne app dispatch deadline clientId item s).2 = .cancelled :=
          processOne_without_response fun w response h => hsome ⟨w, response, h⟩
        exact ⟨_, first_mem_turns .., hcancelled⟩

end

theorem joinReplies_returns {c : Codec} (hr : c.RoundTrips) (hl : c.EncodesLists)
    {replies : List Bytes} (h : ∀ b ∈ replies, ∃ v, c.encode v = some b) :
    ∃ reply, joinReplies c replies = .value reply := by
  by_cases hnil : replies = []
  · exact ⟨none, joinReplies_eq_none.mpr hnil⟩
  · obtain ⟨values, hvalues⟩ : ∃ values, replies.mapM c.decode = some values := by
      refine exists_mapM_eq_some fun b hb => ?_
      obtain ⟨v, hv⟩ := h b hb
      rw [hr v b hv, Option.isSome_some]
    have hdec := mapM_eq_some_iff.mp hvalues
    obtain ⟨b, hb⟩ : ∃ b, c.encode (.arr values) = some b := by
      refine Option.isSome_iff_exists.mp (hl values fun v hv => ?_)
      obtain ⟨b, hb, hdecb⟩ := forall₂_exists_left hdec hv
      obtain ⟨v', hv'⟩ := h b hb
      obtain rfl := Option.some.inj ((hr v' b hv').symm.trans hdecb)
      rw [hv', Option.isSome_some]
    exact ⟨some b, joinReplies_eq_some.mpr ⟨hnil, values, hdec, hb⟩⟩

/-- A batch in which something is kept is answered, if all of its turns end. -/
theorem Course.replies (hr : app.codec.RoundTrips) (hl : app.codec.EncodesLists) {data : Bytes}
    {s : State W} {ts : List (Turn W)} {r : State W × Outcome (Option Bytes)}
    (h : Course app dispatch clientId data s ts r) {items : List Json}
    (hdec : app.codec.decode data = some (.arr items))
    (hvalues : ∀ t ∈ ts, ∃ reply, t.own = .value reply) {t : Turn W} (ht : t ∈ ts) {kept : Bytes}
    (hkept : t.kept = some kept) : ∃ b, r.2 = .value (some b) := by
  have hturn := fun t (ht : t ∈ ts) => h.isTurn ht
  cases h with
  | unparseable | refused | unencodable => cases ht
  | single t hsingle hitem => exact absurd (Option.some.inj (hsingle.symm.trans hdec)) (hitem items)
  | batch =>
    have hreplies : repliesOf ts = .value (ts.filterMap Turn.kept) :=
      repliesOf_eq_value.mpr ⟨hvalues, rfl⟩
    obtain ⟨reply, hreply⟩ : ∃ reply, joinReplies app.codec (ts.filterMap Turn.kept) =
        .value reply := by
      refine joinReplies_returns hr hl fun b hb => ?_
      obtain ⟨u, hu, hub⟩ := List.mem_filterMap.mp hb
      obtain ⟨a, henc, -⟩ := (hturn u hu).kept_response hub
      obtain ⟨v, -, hv⟩ := Option.bind_eq_some_iff.mp henc
      exact ⟨v, hv⟩
    have hsome : ts.filterMap Turn.kept ≠ [] :=
      List.ne_nil_of_mem (List.mem_filterMap.mpr ⟨t, ht, hkept⟩)
    cases reply with
    | none => exact absurd (joinReplies_eq_none.mp hreply) hsome
    | some b => exact ⟨b, joined_eq_value.mpr ⟨_, hreplies, hreply⟩⟩

/-- Outside of a batch nothing is exchanged. -/
theorem Course.not_exchanged {data : Bytes} {s : State W} {ts : List (Turn W)}
    {r : State W × Outcome (Option Bytes)} (h : Course app dispatch clientId data s ts r)
    (hbatch : ∀ items, ¬ (app.codec.decode data = some (.arr items) ∧ ¬ Refused app items))
    {t : Turn W} (ht : t ∈ ts) : t.exchanged = false := by
  cases h with
  | unparseable | refused | unencodable => cases ht
  | batch items ts hdec hrefused => exact absurd ⟨hdec, hrefused⟩ (hbatch items)
  | single t hdec hitem hbefore hturn hown => rwa [List.mem_singleton.mp ht]

/-- The replies that are exchanged are internal errors, exactly if the responses have room. -/
theorem exchanged_iff_hasRoom (hr : app.codec.RoundTrips) (he : app.codec.EncodesErrors)
    (hl : app.codec.EncodesLists) (data : Bytes) (s : State W) :
    (∀ b, (process app dispatch clientId data s).2 = .value (some b) →
      ∀ t ∈ messageTurns app dispatch clientId data s, t.exchanged = true →
        InternalError app dispatch (app.clock s.world + app.handlerTimeout) clientId t) ↔
      HasRoom app dispatch clientId data s.world := by
  have hcourse : Course app dispatch clientId data s
    (messageTurns app dispatch clientId data s) (process app dispatch clientId data s) :=
    process_course data s
  by_cases hbatch : ∃ items, app.codec.decode data = some (.arr items) ∧ ¬ Refused app items
  · obtain ⟨items, hdec, hrefused⟩ := hbatch
    obtain ⟨fallbacks, hf⟩ : ∃ fallbacks, items.mapM (fallback app.codec) = some fallbacks :=
      exists_mapM_eq_some fun item _ => fallback_isSome he item
    have hturns : messageTurns app dispatch clientId data s = _ :=
      (messageTurns_arr hdec).trans (batchTurns_of_not_refused hrefused hf)
    have hroom : HasRoom app dispatch clientId data s.world ↔ ∀ rs, responses app dispatch
        (app.clock s.world + app.handlerTimeout) clientId items s.world = some rs →
          fits app.codec (app.maxResponseSize - items.length - 8) (items.zip rs) = true := by
      constructor
      · exact fun h => h items hdec hrefused
      · intro h items' hdec' _
        obtain rfl := Json.arr.inj (Option.some.inj (hdec.symm.trans hdec'))
        exact h
    rw [hroom]
    cases hrs : responses app dispatch (app.clock s.world + app.handlerTimeout) clientId items
        s.world with
    | none =>
      refine iff_of_true (fun b hb => ?_) nofun
      obtain ⟨t, ht, hown⟩ := turns_cancelled he (mapM_eq_some_iff.mp hf).length_eq.le
        (app.maxResponseSize - items.length - 8) (fallbackBytes fallbacks) (s := s.countRequest) hrs
      rw [← hturns] at ht
      obtain ⟨own, hvalue⟩ := hcourse.values hb ht
      nomatch hown.symm.trans hvalue
    | some rs =>
      have hiff := turns_exchanged_iff he (mapM_eq_some_iff.mp hf)
        (app.maxResponseSize - items.length - 8) (s := s.countRequest) hrs
      have hvalues : ∀ t ∈ turns app dispatch (app.clock s.world + app.handlerTimeout) clientId
          (items.zip fallbacks) (app.maxResponseSize - items.length - 8)
          (fallbackBytes fallbacks) s.countRequest, ∃ reply, t.own = .value reply :=
        fun t ht => turns_values (s := s.countRequest) he hrs ht
      rw [← hturns] at hiff hvalues
      simp only [Option.some.injEq, forall_eq', ← hiff]
      constructor
      · intro h t ht hexchanged
        obtain ⟨_, f, -, -, hkept, -⟩ := (hcourse.isTurn ht).kept_fallback hexchanged
        obtain ⟨b, hb⟩ := hcourse.replies hr hl hdec hvalues ht hkept
        exact h b hb t ht hexchanged
      · exact fun h _ _ => h
  · refine iff_of_true (fun b _ t ht hexchanged => ?_) fun items hdec hrefused =>
      absurd ⟨items, hdec, hrefused⟩ hbatch
    nomatch (hcourse.not_exchanged (not_exists.mp hbatch) ht).symm.trans hexchanged

/-- The lines tell what the caller receives, exactly when the responses to the items of a batch
have room. -/
theorem access_log_tells_iff (app : ExecutionHost W) (dispatch : Dispatch W)
    (clientId : Option String) (hr : app.codec.RoundTrips) (he : app.codec.EncodesErrors)
    (hl : app.codec.EncodesLists) (data : Bytes) (s : State W) :
    LogTells app dispatch clientId data s ↔ HasRoom app dispatch clientId data s.world :=
  (logTells_iff_exchanged app dispatch clientId hr data s).trans
    (exchanged_iff_hasRoom hr he hl data s)

/-- Sums are answered, and everything else is denied. -/
def adding : Dispatch Unit := fun _ request _ w =>
  (w, if request.method = "add" then .value (.success (some (.int 3)) request.responseId)
    else .raised .permission)

/-- A batch of a result and an error. -/
theorem access_log_tells_iff_adding : LogTells (leastHost 2) adding none
    (Json.encode (.arr [callItem 1, RawWireRequest.toJson ⟨"drop", some (.int 2), .null⟩]))
    initial := by
  refine (access_log_tells_iff (leastHost 2) adding none msgSpecJsonCodec_roundTrips
    msgSpecJsonCodec_encodesErrors msgSpecJsonCodec_encodesLists _ initial).mpr ?_
  intro items hdec _ rs hrs
  obtain rfl := Json.arr.inj (Option.some.inj ((leastHost_decode _ _).symm.trans hdec))
  obtain rfl := Option.some.inj (hrs.symm.trans rfl)
  decide +kernel

/-- The result is a text of so many letters. -/
def textReply (n : ℕ) : WireResponse :=
  .success (some (.str (String.ofList (List.replicate n 'a')))) (.int 1)

def answering (n : ℕ) : Dispatch Unit := fun _ _ _ w => (w, .value (textReply n))

theorem encode_textReply (n : ℕ) :
    ∃ b, msgSpecJsonCodec.encodeResponse (textReply n) = some b ∧ b.length = n + 36 := by
  refine ⟨Json.encode (WireResponse.successJson (.str (String.ofList (List.replicate n 'a')))
    (.int 1)), rfl, ?_⟩
  have htext : (Json.encode (.str (String.ofList (List.replicate n 'a')))).length = n + 2 :=
    Json.length_encode_str_replicate (by decide) rfl n
  have hkeys : (Json.encode (.str "result")).length = 8 ∧ (Json.encode (.str "id")).length = 4 ∧
      (Json.encode (.str "jsonrpc")).length = 9 := by decide
  have hrest : (Json.encode (RequestId.toJson (.int 1))).length = 1 ∧
      (Json.encode (.str "2.0")).length = 5 := by decide
  rw [WireResponse.successJson, Json.length_encode_obj]
  simp only [List.map_cons, List.map_nil, List.sum_cons, List.sum_nil, List.length_cons,
    List.length_nil, htext]
  omega

/-- The reply fits the budget on its own. -/
theorem processOne_answering {n : ℕ} (hn : n + 36 ≤ 2048) (deadline : ℕ) (s : State Unit) :
    ∃ b, (processOne (leastHost 1) (answering n) deadline none (callItem 1) s).2 =
      .value (some b) ∧ b.length = n + 36 ∧
      answerOf (leastHost 1) (answering n) deadline none (callItem 1) s = some (textReply n) := by
  obtain ⟨b, hb, hlen⟩ := encode_textReply n
  have hvalid : validate (callItem 1) = some ⟨"add", some (.int 1), .null⟩ := rfl
  have hran : ∀ request, (scope (leastHost 1) (answering n) deadline none request s.enter).2 =
      .value (textReply n) := fun _ => rfl
  have henc : (leastHost 1).codec.encodeResponse (textReply n) = some b := hb
  have hfits : ¬ b.length > (leastHost 1).maxResponseSize := by
    rw [hlen]
    exact Nat.not_lt.mpr hn
  refine ⟨b, ?_, hlen, ?_⟩
  · simp only [processOne, hvalid, hran, settle, Option.isNone_some, henc, if_neg hfits,
      Bool.false_eq_true, if_false]
  · simp only [answerOf, hvalid, hran, answered, Option.isNone_some, henc, if_neg hfits,
      Bool.false_eq_true, if_false]

/-- With room for 2039 bytes the loop takes the fallback instead. -/
theorem exchanged_answering {n : ℕ} (hn : n + 36 ≤ 2048) (hlong : 2039 < n + 36) :
    ∃ t ∈ messageTurns (leastHost 1) (answering n) none (Json.encode (.arr [callItem 1])) initial,
      t.exchanged = true ∧ ¬ InternalError (leastHost 1) (answering n) (0 + 30) none t := by
  obtain ⟨b, hb, hlen, hanswer⟩ := processOne_answering hn (0 + 30) initial.countRequest
  have hdec : (leastHost 1).codec.decode (Json.encode (.arr [callItem 1])) =
      some (.arr [callItem 1]) := leastHost_decode _ _
  obtain ⟨f, hf⟩ : ∃ f, [callItem 1].mapM (fallback (leastHost 1).codec) = some [some f] :=
    ⟨_, rfl⟩
  have hrefused : ¬ Refused (leastHost 1) [callItem 1] := by
    rw [← refuses_iff]
    decide +kernel
  have hroom : ((leastHost 1).maxResponseSize : ℤ) - [callItem 1].length - 8 -
      (fallbackBytes [some f] - ((some f).getD []).length) = 2039 := by
    simp [leastHost]
  have hmem := first_mem_turns (leastHost 1) (answering n) (0 + 30) none (callItem 1) (some f) []
    ((leastHost 1).maxResponseSize - [callItem 1].length - 8) (fallbackBytes [some f])
    initial.countRequest
  rw [hroom] at hmem
  refine ⟨turn (leastHost 1) (answering n) (0 + 30) none (callItem 1) (some f) 2039
    initial.countRequest, ?_, ?_, ?_⟩
  · rw [messageTurns_arr hdec, batchTurns_of_not_refused hrefused hf]
    exact hmem
  · have hroom : ¬ n + 36 ≤ 2039 := by omega
    simp only [turn, hb, exchanges, hlen]
    simp
    omega
  · intro h
    obtain ⟨e, id, herror, -⟩ := h
    cases hanswer.symm.trans herror

/-- A result of 2006 letters in a batch of one call: the line says `ok`, and the caller receives
the fallback. -/
theorem longReply_logged_ok :
    ¬ LogTells (leastHost 1) (answering 2006) none (Json.encode (.arr [callItem 1])) initial := by
  intro h
  obtain ⟨t, ht, hexchanged, herror⟩ := exchanged_answering (n := 2006) (by omega) (by omega)
  have hcourse : Course (leastHost 1) (answering 2006) none (Json.encode (.arr [callItem 1]))
      initial _ _ := process_course _ _
  obtain ⟨_, f, -, -, hkept, -⟩ := (hcourse.isTurn ht).kept_fallback hexchanged
  obtain ⟨reply, hreply⟩ : Returns (process (leastHost 1) (answering 2006) none
      (Json.encode (.arr [callItem 1])) initial) :=
    process_returns msgSpecJsonCodec_roundTrips msgSpecJsonCodec_encodesErrors
      msgSpecJsonCodec_encodesLists (by nofun) (leastHost_identityReturns _) ..
  obtain ⟨b, hb⟩ := hcourse.replies msgSpecJsonCodec_roundTrips msgSpecJsonCodec_encodesLists
    (leastHost_decode _ _) (fun u hu => hcourse.values hreply hu) ht hkept
  exact herror ((logTells_iff_exchanged (leastHost 1) (answering 2006) none
    msgSpecJsonCodec_roundTrips _ initial).mp h b hb t ht hexchanged)

end WireRpc.Execution
