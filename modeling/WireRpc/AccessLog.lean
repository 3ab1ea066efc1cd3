import WireRpc.Turns

/-!
# The access log

Each turn writes one line when it ends, before the loop decides whether its reply has
room. So the line tells what the caller receives, unless the reply is exchanged for its
fallback afterwards.
-/
namespace WireRpc.Execution
open Library

variable {W : Type} {app : ExecutionHost W} {dispatch : Dispatch W} {deadline : ℕ}
  {clientId : Option String}

theorem scope_log (request : RawWireRequest) (s : State W) :
    (scope app dispatch deadline clientId request s).1.log = s.log := by
  obtain ⟨world, context, ran, -, hs⟩ := scope_fst app dispatch deadline clientId request s
  rw [hs]

theorem settle_log (request : RawWireRequest) (s : State W) (outcome : Outcome WireResponse) :
    (settle app request s outcome).1.log = s.log := by
  obtain ⟨stats, hs⟩ := settle_fst app request s outcome
  rw [hs]

theorem processOne_log (item : Json) (s : State W) :
    (processOne app dispatch deadline clientId item s).1.log = s.log ++
      [⟨subjectOf item, outcomeOf app dispatch deadline clientId item s, clientId⟩] := by
  unfold processOne subjectOf outcomeOf
  cases validate item with
  | none => rfl
  | some request =>
    have hlog : (settle app request (scope app dispatch deadline clientId request s.enter).1
        (scope app dispatch deadline clientId request s.enter).2).1.log = s.log := by
      rw [settle_log, scope_log]
      rfl
    simp only [State.access, State.leave, hlog]

theorem IsTurn.log {t : Turn W} (h : IsTurn app dispatch deadline clientId t) :
    t.after.log = t.before.log ++ [t.line clientId] := by
  have hlog : (processOne app dispatch deadline clientId t.item t.before).1.log = t.before.log ++
      [⟨subjectOf t.item, outcomeOf app dispatch deadline clientId t.item t.before, clientId⟩] :=
    processOne_log t.item t.before
  rw [h.ran, ← h.outcome_eq] at hlog
  exact hlog

theorem Chain.log {items : List Json} {ts : List (Turn W)} {s : State W}
    (h : Chain app dispatch deadline clientId s items ts) :
    (stateAfter s ts).log = s.log ++ ts.map (Turn.line clientId) := by
  induction h with
  | nil => simp [stateAfter]
  | next reply hturn hvalue _ ih => simp [stateAfter, ih, hturn.log]
  | stop hturn => simp [stateAfter, hturn.log]

/-- Every dispatched request belongs to the turn of its item, so it has that turn's line. -/
theorem Chain.dispatched {items : List Json} {ts : List (Turn W)} {s : State W}
    (h : Chain app dispatch deadline clientId s items ts) :
    ∃ ran, List.Forall₂ (fun t ran => List.Sublist ran (validate t.item).toList) ts ran ∧
      (stateAfter s ts).dispatched = s.dispatched ++ ran.flatten := by
  have hone : ∀ t, IsTurn app dispatch deadline clientId t → ∃ ran,
      t.after.dispatched = t.before.dispatched ++ ran ∧
        ran.Sublist (validate t.item).toList := by
    intro t hturn
    have hran : Dispatches t.before (processOne app dispatch deadline clientId t.item t.before)
      (validate t.item).toList := dispatches_processOne t.item t.before
    rw [hturn.ran] at hran
    exact hran
  induction h with
  | nil => exact ⟨[], .nil, by simp [stateAfter]⟩
  | @next t items ts reply hturn hvalue _ ih =>
    obtain ⟨first, hfirst, hsub⟩ := hone t hturn
    obtain ⟨ran, hran, hrest⟩ := ih
    refine ⟨first :: ran, .cons hsub hran, ?_⟩
    rw [stateAfter, hrest, hfirst, List.flatten_cons, List.append_assoc]
  | @stop t items hturn =>
    obtain ⟨first, hfirst, hsub⟩ := hone t hturn
    exact ⟨[first], .cons hsub .nil, by simpa [stateAfter] using hfirst⟩

/-- The tests of `process` that refuse a batch. -/
def refuses (app : ExecutionHost W) (items : List Json) : Bool :=
  items.isEmpty || decide (items.length > app.maxBatchSize) ||
    match items.mapM (fallback app.codec) with
    | none => false
    | some fallbacks => decide (reserve fallbacks > app.maxResponseSize)

theorem refuses_iff {items : List Json} : refuses app items = true ↔ Refused app items := by
  unfold refuses Refused
  cases items.mapM (fallback app.codec) <;> simp [or_assoc]

/-- The lines of a message that has no items to run: it is unparseable, or a refused batch. -/
def messageLines (app : ExecutionHost W) (clientId : Option String) (data : Bytes) :
    List AccessLine :=
  match app.codec.decode data with
  | none => [⟨.unparseable, .code (-32700), clientId⟩]
  | some (.arr items) =>
    if refuses app items then [⟨.batch, .code (-32600), clientId⟩] else []
  | some _ => []

theorem messageLines_arr {data : Bytes} {items : List Json}
    (hdec : app.codec.decode data = some (.arr items)) (h : ¬ Refused app items) :
    messageLines app clientId data = [] := by
  have hrefuses : ¬ refuses app items = true := mt refuses_iff.mp h
  simp only [messageLines, hdec, if_neg hrefuses]

theorem messageLines_refused {data : Bytes} {items : List Json}
    (hdec : app.codec.decode data = some (.arr items)) (h : Refused app items) :
    messageLines app clientId data = [⟨.batch, .code (-32600), clientId⟩] := by
  simp only [messageLines, hdec, if_pos (refuses_iff.mpr h)]

theorem messageLines_single {data : Bytes} {item : Json} (hdec : app.codec.decode data = some item)
    (hitem : ∀ items, item ≠ .arr items) : messageLines app clientId data = [] := by
  unfold messageLines
  rw [hdec]
  cases item with
  | arr items => exact absurd rfl (hitem items)
  | _ => rfl

/-- The message's own line, then one line a turn. -/
theorem Course.log {data : Bytes} {s : State W} {ts : List (Turn W)}
    {r : State W × Outcome (Option Bytes)} (h : Course app dispatch clientId data s ts r) :
    r.1.log = s.log ++ messageLines app clientId data ++ ts.map (Turn.line clientId) := by
  cases h with
  | unparseable hdec => simp [messageLines, hdec, State.access, State.countInvalid,
      State.countRequest]
  | refused items hdec hrefused =>
    rw [messageLines_refused hdec hrefused, List.map_nil, List.append_nil]
    rfl
  | unencodable items hdec hrefused =>
    simp [messageLines_arr hdec hrefused, State.countRequest]
  | batch items ts hdec hrefused hchain =>
    rw [messageLines_arr hdec hrefused, List.append_nil]
    exact hchain.log
  | single t hdec hitem hbefore hturn =>
    rw [messageLines_single hdec hitem, List.append_nil]
    simp [hturn.log, hbefore, State.countRequest]

theorem Course.dispatched {data : Bytes} {s : State W} {ts : List (Turn W)}
    {r : State W × Outcome (Option Bytes)} (h : Course app dispatch clientId data s ts r) :
    ∃ ran, List.Forall₂ (fun t ran => List.Sublist ran (validate t.item).toList) ts ran ∧
      r.1.dispatched = s.dispatched ++ ran.flatten := by
  have hnone : ∀ t : State W, t.dispatched = s.dispatched → ∃ ran,
      List.Forall₂ (fun t ran => List.Sublist ran (validate t.item).toList) ([] : List (Turn W))
        ran ∧ t.dispatched = s.dispatched ++ ran.flatten :=
    fun t ht => ⟨[], .nil, by simpa using ht⟩
  cases h with
  | unparseable => exact hnone _ (by simp)
  | refused => exact hnone _ (by simp)
  | unencodable => exact hnone _ (by simp)
  | batch items ts hdec hrefused hchain => exact hchain.dispatched
  | single t hdec hitem hbefore hturn =>
    have hran := hturn.chain.dispatched
    rw [hbefore] at hran
    exact hran

/-- The line says `ok` when the entry carries a result, and the error code of the entry
otherwise. -/
structure Tells (outcome : AccessOutcome) (entry : Json) : Prop where
  ok_iff : outcome = .ok ↔ (entry.member "result").isSome
  code : entry.member "result" = none → ∃ code : ℤ,
    (entry.member "error").bind (Json.member · "code") = some (.int code) ∧ outcome = .code code

theorem errorJson_code (e : WireError) (id : RequestId) :
    ((WireResponse.errorJson e id).member "error").bind (Json.member · "code") =
      some (.int e.code) := by
  obtain ⟨kind, message, data⟩ := e
  cases kind <;> rfl

/-- Only an error envelope has an error code. -/
theorem toJson_code_iff {r : WireResponse} {v : Json} (hv : r.toJson = some v) {code : ℤ} :
    (v.member "error").bind (Json.member · "code") = some (.int code) ↔
      ∃ e id, r = .error e id ∧ e.code = code := by
  cases r with
  | success result id =>
    obtain ⟨j, -, rfl⟩ := Option.map_eq_some_iff.mp hv
    have herror : (WireResponse.successJson j id).member "error" = none := rfl
    simp [herror]
  | error e id =>
    obtain rfl := Option.some.inj hv
    simp [errorJson_code]

/-- A line tells a response when it says its outcome. -/
theorem tells_iff {outcome : AccessOutcome} {r : WireResponse} {v : Json}
    (hv : r.toJson = some v) : Tells outcome v ↔ outcome = responseOutcome r := by
  cases r with
  | success result id =>
    obtain ⟨j, -, rfl⟩ := Option.map_eq_some_iff.mp hv
    have hresult : (WireResponse.successJson j id).member "result" = some j := rfl
    constructor
    · intro h
      exact h.ok_iff.mpr (by rw [hresult, Option.isSome_some])
    · intro h
      constructor
      · exact iff_of_true h (by rw [hresult, Option.isSome_some])
      · intro hnone
        nomatch hresult.symm.trans hnone
  | error e id =>
    obtain rfl := Option.some.inj hv
    have hresult : (WireResponse.errorJson e id).member "result" = none := rfl
    constructor
    · intro h
      obtain ⟨code, hcode, rfl⟩ := h.code hresult
      obtain rfl : e.code = code := by
        simpa using (errorJson_code e id).symm.trans hcode
      rfl
    · intro h
      rw [h, responseOutcome]
      constructor
      · exact iff_of_false nofun (by rw [hresult]; simp)
      · intro _
        exact ⟨e.code, errorJson_code e id, rfl⟩

theorem settle_outcome {request : RawWireRequest} {s : State W} {ran : Outcome WireResponse}
    {reply : Bytes} (h : (settle app request s ran).2.2 = .value (some reply)) :
    (settle app request s ran).2.1 = responseOutcome (answered app request ran) := by
  cases ran with
  | cancelled => simp [settle] at h
  | raised e => rfl
  | value response =>
    by_cases hn : request.id.isNone
    · simp [settle, hn] at h
    · simp only [settle, answered, if_neg hn]
      cases app.codec.encodeResponse response with
      | none => rfl
      | some encoded =>
        simp only
        split_ifs <;> rfl

/-- The line of an item that has a reply of its own says the outcome of that reply. -/
theorem outcomeOf_answer {item : Json} {s s' : State W} {reply : Bytes}
    (h : processOne app dispatch deadline clientId item s = (s', .value (some reply))) :
    ∃ a, answerOf app dispatch deadline clientId item s = some a ∧
      app.codec.encodeResponse a = some reply ∧
      outcomeOf app dispatch deadline clientId item s = responseOutcome a := by
  obtain ⟨-, hnone⟩ | ⟨a, b, ha, hb, hreply⟩ := processOne_value h
  · nomatch hnone
  · obtain rfl := Option.some.inj hreply
    refine ⟨a, ha, hb, ?_⟩
    have h2 := congrArg Prod.snd h
    unfold processOne at h2
    unfold answerOf at ha
    unfold outcomeOf
    cases hv : validate item with
    | none =>
      simp only [hv, Option.some.injEq] at ha
      subst ha
      rfl
    | some request =>
      simp only [hv] at h2 ha
      by_cases hn : request.id.isNone
      · simp [hn] at ha
      · simp only [if_neg hn, Option.some.injEq] at ha
        subst ha
        exact settle_outcome h2

section
variable (app dispatch deadline clientId)

/-- The response of the item itself is an internal error. -/
def InternalError (t : Turn W) : Prop :=
  ∃ e id, answerOf app dispatch deadline clientId t.item t.before = some (.error e id) ∧
    e.code = -32603

end

theorem responseOutcome_eq_code {r : WireResponse} {code : ℤ} :
    responseOutcome r = .code code ↔ ∃ e id, r = .error e id ∧ e.code = code := by
  cases r <;> simp [responseOutcome]

/-- The reply to one item is no list. -/
theorem itemsOf_toJson {r : WireResponse} {v : Json} (hv : r.toJson = some v) :
    itemsOf v = [v] := by
  cases r with
  | success result id =>
    obtain ⟨j, -, rfl⟩ := Option.map_eq_some_iff.mp hv
    rfl
  | error e id =>
    obtain rfl := Option.some.inj hv
    rfl

/-- What is kept is the response of the item itself, or its fallback. -/
theorem IsTurn.kept_response {t : Turn W} (h : IsTurn app dispatch deadline clientId t) {b : Bytes}
    (hb : t.kept = some b) : ∃ r, app.codec.encodeResponse r = some b ∧
      (answerOf app dispatch deadline clientId t.item t.before = some r ∨
        r = fallbackResponse t.item) := by
  cases hexchanged : t.exchanged with
  | false =>
    have hown : t.own = .value (some b) :=
      Outcome.reply_eq_some.mp ((h.kept_own hexchanged).symm.trans hb)
    obtain ⟨a, ha, henc, -⟩ := outcomeOf_answer (h.ran.trans (by rw [hown]))
    exact ⟨a, henc, .inl ha⟩
  | true =>
    obtain ⟨-, f, -, hf, hkept, -⟩ := h.kept_fallback hexchanged
    obtain rfl := Option.some.inj (hb.symm.trans hkept)
    obtain ⟨-, hnone⟩ | ⟨-, f, hsome, henc⟩ := fallback_eq_some hf
    · cases hnone
    · obtain rfl := Option.some.inj hsome
      exact ⟨_, henc, .inr rfl⟩

/-- A reply of the item's own is what the caller gets, or its fallback is. -/
theorem IsTurn.kept_of_own {t : Turn W} (h : IsTurn app dispatch deadline clientId t) {own : Bytes}
    (hown : t.own = .value (some own)) :
    ∃ kept, t.kept = some kept ∧ (kept = own ∨ fallback app.codec t.item = some (some kept)) := by
  cases hexchanged : t.exchanged with
  | false => exact ⟨own, (h.kept_own hexchanged).trans (congrArg Outcome.reply hown), .inl rfl⟩
  | true =>
    obtain ⟨-, f, -, hf, hkept, -⟩ := h.kept_fallback hexchanged
    exact ⟨f, hkept, .inr hf⟩

/-- The line of a turn tells what is kept, unless that is the fallback of another response. -/
theorem IsTurn.tells (hr : app.codec.RoundTrips) {t : Turn W}
    (h : IsTurn app dispatch deadline clientId t) {own : Option Bytes}
    (hown : t.own = .value own) {b : Bytes} (hb : t.kept = some b) :
    ∃ v, app.codec.decode b = some v ∧ itemsOf v = [v] ∧
      (Tells t.outcome v ↔
        (t.exchanged = true → InternalError app dispatch deadline clientId t)) := by
  have hvalue : ∀ {r : WireResponse}, app.codec.encodeResponse r = some b →
      ∃ v, app.codec.decode b = some v ∧ itemsOf v = [v] ∧
        (Tells t.outcome v ↔ t.outcome = responseOutcome r) := by
    intro r henc
    obtain ⟨v, hv, hencode⟩ := Option.bind_eq_some_iff.mp henc
    exact ⟨v, hr v b hencode, itemsOf_toJson hv, tells_iff hv⟩
  cases hexchanged : t.exchanged with
  | false =>
    have hkept : some b = own := by
      rw [← hb, h.kept_own hexchanged, hown, Outcome.reply]
    obtain ⟨a, -, henc, houtcome⟩ := outcomeOf_answer
      (h.ran.trans (by rw [hown, ← hkept]))
    obtain ⟨v, hdec, hone, htells⟩ := hvalue henc
    refine ⟨v, hdec, hone, iff_of_true (htells.mpr ?_) fun htrue => ?_⟩
    · rw [h.outcome_eq, houtcome]
    · exact absurd htrue Bool.false_ne_true
  | true =>
    obtain ⟨reply, f, hreply, hf, hkept, -⟩ := h.kept_fallback hexchanged
    obtain rfl := Option.some.inj (hb.symm.trans hkept)
    obtain ⟨a, ha, -, houtcome⟩ := outcomeOf_answer (h.ran.trans (by rw [hreply]))
    obtain ⟨-, hnone⟩ | ⟨-, f, hsome, henc⟩ := fallback_eq_some hf
    · cases hnone
    · obtain rfl := Option.some.inj hsome
      obtain ⟨v, hdec, hone, htells⟩ := hvalue henc
      refine ⟨v, hdec, hone, htells.trans ?_⟩
      have hcode : responseOutcome (fallbackResponse t.item) = .code (-32603) := rfl
      rw [h.outcome_eq, houtcome, hcode, responseOutcome_eq_code]
      simp only [InternalError, ha, Option.some.injEq, forall_const]

/-- A reply that is kept, value by value. -/
theorem tells_turns (hr : app.codec.RoundTrips) {ts : List (Turn W)}
    (hturn : ∀ t ∈ ts, IsTurn app dispatch deadline clientId t)
    (hvalue : ∀ t ∈ ts, ∃ own, t.own = .value own) {values : List Json}
    (hdec : List.Forall₂ (fun b v => app.codec.decode b = some v) (ts.filterMap Turn.kept)
      values) :
    List.Forall₂ (fun line entry => Tells line.outcome entry)
        ((ts.filter fun t => t.kept.isSome).map (Turn.line clientId)) values ↔
      ∀ t ∈ ts, t.exchanged = true → InternalError app dispatch deadline clientId t := by
  induction ts generalizing values with
  | nil =>
    cases hdec
    simp
  | cons t ts ih =>
    have hrest := @ih (fun u hu => hturn u (List.mem_cons_of_mem _ hu))
      (fun u hu => hvalue u (List.mem_cons_of_mem _ hu))
    have ht := hturn t List.mem_cons_self
    obtain ⟨own, hown⟩ := hvalue t List.mem_cons_self
    cases hkept : t.kept with
    | none =>
      have hexchanged : t.exchanged ≠ true := by
        intro h
        obtain ⟨_, f, -, -, hf, -⟩ := ht.kept_fallback h
        nomatch hkept.symm.trans hf
      rw [List.filterMap_cons_none hkept] at hdec
      simp [hkept, hrest hdec, hexchanged]
    | some b =>
      rw [List.filterMap_cons_some hkept] at hdec
      obtain ⟨v, values, hv, htail, rfl⟩ := List.forall₂_cons_left_iff.mp hdec
      obtain ⟨v', hv', -, htells⟩ := ht.tells hr hown hkept
      obtain rfl := Option.some.inj (hv.symm.trans hv')
      simp only [List.filter_cons, hkept, Option.isSome_some, if_true, List.map_cons,
        List.forall₂_cons, hrest htail, List.forall_mem_cons]
      exact and_congr_left' htells

section
variable (app dispatch clientId)

/-- The lines of the items that are answered, or that of the message. -/
def answeredLines (data : Bytes) (s : State W) : List AccessLine :=
  messageLines app clientId data ++
    ((messageTurns app dispatch clientId data s).filter fun t => t.kept.isSome).map
      (Turn.line clientId)

/-- One line for each item that is taken up and one for a message that has none; every
dispatched request belongs to one of the items; and for each entry of the reply there is one
line, which tells it. -/
structure LogTells (data : Bytes) (s : State W) : Prop where
  lines : (process app dispatch clientId data s).1.log = s.log ++ messageLines app clientId data ++
    (messageTurns app dispatch clientId data s).map (Turn.line clientId)
  dispatched : ∃ ran, List.Forall₂ (fun t ran => List.Sublist ran (validate t.item).toList)
      (messageTurns app dispatch clientId data s) ran ∧
    (process app dispatch clientId data s).1.dispatched = s.dispatched ++ ran.flatten
  reached : ∀ envelope, app.codec.decode data = some envelope →
    (messageTurns app dispatch clientId data s).map Turn.item <+: itemsOf envelope ∧
      (¬ Rejected app data →
        (∃ reply, (process app dispatch clientId data s).2 = .value reply) →
          (messageTurns app dispatch clientId data s).map Turn.item = itemsOf envelope)
  silent : (process app dispatch clientId data s).2 = .value none →
    answeredLines app dispatch clientId data s = []
  tells : ∀ b, (process app dispatch clientId data s).2 = .value (some b) →
    ∃ v, app.codec.decode b = some v ∧
      List.Forall₂ (fun line entry => Tells line.outcome entry)
        (answeredLines app dispatch clientId data s) (itemsOf v)

end

/-- The line of a whole message tells the error that is sent back. -/
theorem encodeReply_tells {c : Codec} (hr : c.RoundTrips) {r : WireResponse} {b : Bytes}
    (h : encodeReply c r = .value (some b)) (line : AccessLine)
    (hline : line.outcome = responseOutcome r) :
    ∃ v, c.decode b = some v ∧
      List.Forall₂ (fun line entry => Tells line.outcome entry) [line] (itemsOf v) := by
  obtain ⟨b', hb', hsome⟩ := encodeReply_eq_value.mp h
  obtain rfl := Option.some.inj hsome
  obtain ⟨v, hv, hencode⟩ := Option.bind_eq_some_iff.mp hb'
  refine ⟨v, hr v b hencode, ?_⟩
  rw [itemsOf_toJson hv]
  exact .cons ((tells_iff hv).mpr hline) .nil

/-- The entries of a reply are what the turns keep, one by one, or the error that refuses the
message as a whole. -/
theorem Course.entries (hr : app.codec.RoundTrips) {data : Bytes} {s : State W} {ts : List (Turn W)}
    {r : State W × Outcome (Option Bytes)} (h : Course app dispatch clientId data s ts r)
    {b : Bytes} (hb : r.2 = .value (some b)) : ∃ v, app.codec.decode b = some v ∧
      (List.Forall₂ (fun b entry => app.codec.decode b = some entry) (ts.filterMap Turn.kept)
          (itemsOf v) ∨
        ts = [] ∧ ∃ e, itemsOf v = [WireResponse.errorJson e .null] ∧
          (e.code = -32700 ∨ e.code = -32600)) := by
  have herror : ∀ {e : WireError}, encodeReply app.codec (.error e .null) = .value (some b) →
      app.codec.decode b = some (WireResponse.errorJson e .null) := by
    intro e henc
    obtain ⟨b', hb', hsome⟩ := encodeReply_eq_value.mp henc
    obtain rfl := Option.some.inj hsome
    obtain ⟨v, hv, hencode⟩ := Option.bind_eq_some_iff.mp hb'
    obtain rfl := Option.some.inj hv
    exact hr _ b hencode
  cases h with
  | unparseable => exact ⟨_, herror hb, .inr ⟨rfl, _, rfl, .inl rfl⟩⟩
  | refused => exact ⟨_, herror hb, .inr ⟨rfl, _, rfl, .inr rfl⟩⟩
  | unencodable => nomatch hb
  | batch items ts =>
    obtain ⟨replies, hreplies, hjoin⟩ := joined_eq_value.mp hb
    obtain ⟨-, values, hvalues, hencode⟩ := joinReplies_eq_some.mp hjoin
    rw [(repliesOf_eq_value.mp hreplies).2] at hvalues
    exact ⟨.arr values, hr _ _ hencode, .inl hvalues⟩
  | single t hdec hitem hbefore ht hown =>
    have hkept : t.kept = some b := (ht.kept_own hown).trans (congrArg Outcome.reply hb)
    obtain ⟨r, henc, -⟩ := ht.kept_response hkept
    obtain ⟨v, hv, hencode⟩ := Option.bind_eq_some_iff.mp henc
    refine ⟨v, hr v b hencode, .inl ?_⟩
    rw [itemsOf_toJson hv]
    simpa [hkept] using hr v b hencode

/-- One of the entries of the reply is an error with this code. -/
def AnswersWith (c : Codec) (code : ℤ) (reply : Bytes) : Prop :=
  ∃ v, c.decode reply = some v ∧ ∃ entry ∈ itemsOf v,
    (entry.member "error").bind (Json.member · "code") = some (.int code)

/-- An error code that is none of `process` itself comes from the response to a call. -/
theorem Course.answersWith (hr : app.codec.RoundTrips) {data : Bytes} {s : State W}
    {ts : List (Turn W)} {r : State W × Outcome (Option Bytes)}
    (h : Course app dispatch clientId data s ts r) {b : Bytes} (hb : r.2 = .value (some b))
    {code : ℤ} (hcode : AnswersWith app.codec code b)
    (hforeign : code ≠ -32700 ∧ code ≠ -32600 ∧ code ≠ -32603) :
    ∃ t ∈ ts, ∃ request, validate t.item = some request ∧ request.id.isNone = false ∧
      responseOutcome (answered app request (scope app dispatch
        (app.clock s.world + app.handlerTimeout) clientId request t.before.enter).2) =
          .code code := by
  obtain ⟨v, hv, entry, hentry, herror⟩ := hcode
  obtain ⟨v', hv', hentries⟩ := h.entries hr hb
  obtain rfl := Option.some.inj (hv.symm.trans hv')
  obtain hkept | ⟨-, e, hone, hown⟩ := hentries
  · obtain ⟨b', hb', hdec⟩ := forall₂_exists_left hkept hentry
    obtain ⟨t, ht, htb⟩ := List.mem_filterMap.mp hb'
    obtain ⟨a, henc, hanswer⟩ := (h.isTurn ht).kept_response htb
    obtain ⟨w, hw, hencode⟩ := Option.bind_eq_some_iff.mp henc
    obtain rfl := Option.some.inj ((hr w b' hencode).symm.trans hdec)
    obtain ⟨e, id, rfl, rfl⟩ := (toJson_code_iff hw).mp herror
    obtain hanswer | hfallback := hanswer
    · refine ⟨t, ht, ?_⟩
      unfold answerOf at hanswer
      cases hvalid : validate t.item with
      | none =>
        simp only [hvalid, Option.some.injEq] at hanswer
        obtain ⟨rfl, -⟩ := WireResponse.error.inj hanswer
        exact absurd rfl hforeign.2.1
      | some request =>
        simp only [hvalid] at hanswer
        split_ifs at hanswer with hcall
        refine ⟨request, rfl, Bool.eq_false_iff.mpr hcall, ?_⟩
        rw [Option.some.inj hanswer, responseOutcome]
    · obtain ⟨rfl, -⟩ := WireResponse.error.inj hfallback
      exact absurd rfl hforeign.2.2
  · rw [hone, List.mem_singleton] at hentry
    rw [hentry, errorJson_code] at herror
    obtain rfl := Json.int.inj (Option.some.inj herror)
    obtain hparse | hinvalid := hown
    · exact absurd hparse hforeign.1
    · exact absurd hinvalid hforeign.2.1

/-- What is sent back is told by the lines if no other reply is exchanged for its fallback. -/
theorem Course.tells (hr : app.codec.RoundTrips) {data : Bytes} {s : State W} {ts : List (Turn W)}
    {r : State W × Outcome (Option Bytes)} (h : Course app dispatch clientId data s ts r)
    {b : Bytes} (hb : r.2 = .value (some b)) :
    ∃ v, app.codec.decode b = some v ∧
      (List.Forall₂ (fun line entry => Tells line.outcome entry)
        (messageLines app clientId data ++
          (ts.filter fun t => t.kept.isSome).map (Turn.line clientId)) (itemsOf v) ↔
        ∀ t ∈ ts, t.exchanged = true →
          InternalError app dispatch (app.clock s.world + app.handlerTimeout) clientId t) := by
  have hturn := fun t (ht : t ∈ ts) => h.isTurn ht
  have hvalue := fun t (ht : t ∈ ts) => h.values hb ht
  cases h with
  | unparseable hdec =>
    obtain ⟨v, hv, htells⟩ :=
      encodeReply_tells hr hb ⟨.unparseable, .code (-32700), clientId⟩ rfl
    refine ⟨v, hv, iff_of_true ?_ (by simp)⟩
    simpa [messageLines, hdec] using htells
  | refused items hdec hrefused =>
    obtain ⟨v, hv, htells⟩ := encodeReply_tells hr hb ⟨.batch, .code (-32600), clientId⟩ rfl
    refine ⟨v, hv, iff_of_true ?_ (by simp)⟩
    simpa [messageLines_refused hdec hrefused] using htells
  | unencodable => nomatch hb
  | batch items ts hdec hrefused hchain =>
    obtain ⟨replies, hreplies, hjoin⟩ := joined_eq_value.mp hb
    obtain ⟨-, values, hvalues, hencode⟩ := joinReplies_eq_some.mp hjoin
    rw [(repliesOf_eq_value.mp hreplies).2] at hvalues
    refine ⟨.arr values, hr _ _ hencode, ?_⟩
    rw [messageLines_arr hdec hrefused]
    exact tells_turns hr hturn hvalue hvalues
  | single t hdec hitem hbefore ht hown =>
    have hkept : t.kept = some b := (ht.kept_own hown).trans (congrArg Outcome.reply hb)
    obtain ⟨v, hv, hone, -⟩ := ht.tells hr hb hkept
    refine ⟨v, hv, ?_⟩
    rw [messageLines_single hdec hitem, hone]
    exact tells_turns hr hturn hvalue (by simpa [hkept] using hv)

theorem Course.silent {data : Bytes} {s : State W} {ts : List (Turn W)}
    {r : State W × Outcome (Option Bytes)} (h : Course app dispatch clientId data s ts r)
    (hr : r.2 = .value none) :
    messageLines app clientId data ++
      (ts.filter fun t => t.kept.isSome).map (Turn.line clientId) = [] := by
  have hloud : ∀ e, encodeReply app.codec (.error e .null) ≠ .value none := by
    intro e henc
    obtain ⟨b, -, hb⟩ := encodeReply_eq_value.mp henc
    nomatch hb
  cases h with
  | unparseable => exact absurd hr (hloud _)
  | refused => exact absurd hr (hloud _)
  | unencodable => nomatch hr
  | batch items ts hdec hrefused hchain =>
    obtain ⟨replies, hreplies, hjoin⟩ := joined_eq_value.mp hr
    have hnil := joinReplies_eq_none.mp hjoin
    rw [(repliesOf_eq_value.mp hreplies).2] at hnil
    rw [messageLines_arr hdec hrefused]
    simpa [List.filterMap_eq_nil_iff] using hnil
  | single t hdec hitem hbefore ht hown =>
    have hkept : t.kept = none := (ht.kept_own hown).trans (congrArg Outcome.reply hr)
    rw [messageLines_single hdec hitem]
    simp [hkept]

/-- The lines tell what the caller receives, exactly when no reply but an internal error is
exchanged for its fallback in a batch that is answered. -/
theorem logTells_iff_exchanged (app : ExecutionHost W) (dispatch : Dispatch W)
    (clientId : Option String) (hr : app.codec.RoundTrips) (data : Bytes) (s : State W) :
    LogTells app dispatch clientId data s ↔
      ∀ b, (process app dispatch clientId data s).2 = .value (some b) →
        ∀ t ∈ messageTurns app dispatch clientId data s, t.exchanged = true →
          InternalError app dispatch (app.clock s.world + app.handlerTimeout) clientId t := by
  have hcourse : Course app dispatch clientId data s
    (messageTurns app dispatch clientId data s) (process app dispatch clientId data s) :=
    process_course data s
  constructor
  · intro h b hb
    obtain ⟨v, hv, htells⟩ := hcourse.tells hr hb
    obtain ⟨v', hv', hlines⟩ := h.tells b hb
    obtain rfl := Option.some.inj (hv.symm.trans hv')
    exact htells.mp hlines
  · intro h
    constructor
    · exact hcourse.log
    · exact hcourse.dispatched
    · exact fun envelope hdec => hcourse.reached hdec
    · exact hcourse.silent
    · intro b hb
      obtain ⟨v, hv, htells⟩ := hcourse.tells hr hb
      exact ⟨v, hv, htells.mpr (h b hb)⟩

end WireRpc.Execution
