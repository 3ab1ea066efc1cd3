import WireRpc.Turns

/-!
# Request accounting

Each item that is taken up has one fate, and the counters are the tally of the fates. The
cancelled item, if there is one, is the last.
-/
namespace WireRpc.Execution
open Library

variable {W : Type} {app : ExecutionHost W} {dispatch : Dispatch W} {deadline : ℕ}
  {clientId : Option String}

/-- What becomes of an item. A notification that does not fail is counted nowhere. -/
inductive Fate where
  | invalid
  | completed
  | failed (timedOut : Bool)
  | notified
  | cancelled
  deriving DecidableEq, Repr

def Fate.isFailed : Fate → Bool
  | failed _ => true
  | _ => false

/-- The counters after one more item. -/
def Fate.count : Fate → ExecutionStats → ExecutionStats
  | invalid, stats => { stats with invalid := stats.invalid + 1 }
  | completed, stats => { stats with completed := stats.completed + 1 }
  | failed timedOut, stats =>
    { stats with
      failed := stats.failed + 1
      timedOut := if timedOut then stats.timedOut + 1 else stats.timedOut }
  | notified, stats => stats
  | cancelled, stats => stats

/-- The fate of a request, from the way its dispatch ended. -/
def requestFate (app : ExecutionHost W) (request : RawWireRequest) : Outcome WireResponse → Fate
  | .cancelled => .cancelled
  | .raised e => .failed (e = .timeout)
  | .value response =>
    if request.id.isNone then .notified
    else
      match app.codec.encodeResponse response with
      | none => .failed false
      | some encoded => if encoded.length > app.maxResponseSize then .failed false else .completed

def fateOf (app : ExecutionHost W) (dispatch : Dispatch W) (deadline : ℕ)
    (clientId : Option String) (item : Json) (s : State W) : Fate :=
  match validate item with
  | none => .invalid
  | some request =>
    requestFate app request (scope app dispatch deadline clientId request s.enter).2

/-- The counters after all the items. -/
def tally (fates : List Fate) (stats : ExecutionStats) : ExecutionStats :=
  { stats with
    completed := stats.completed + fates.count .completed
    failed := stats.failed + fates.countP Fate.isFailed
    timedOut := stats.timedOut + fates.count (.failed true)
    invalid := stats.invalid + fates.count .invalid }

theorem tally_cons (fate : Fate) (fates : List Fate) (stats : ExecutionStats) :
    tally (fate :: fates) stats = tally fates (fate.count stats) := by
  cases fate with
  | failed timedOut =>
    cases timedOut <;> simp [tally, Fate.count, Fate.isFailed, List.countP_cons, Nat.add_assoc,
      Nat.add_comm 1]
  | _ => simp [tally, Fate.count, Fate.isFailed, Nat.add_assoc, Nat.add_comm 1]

theorem scope_stats (request : RawWireRequest) (s : State W) :
    (scope app dispatch deadline clientId request s).1.stats = s.stats := by
  obtain ⟨world, context, ran, -, hs⟩ := scope_fst app dispatch deadline clientId request s
  rw [hs]

theorem fail_stats (c : Codec) (request : RawWireRequest) (s : State W) (e : Failure) :
    (fail c request s e).1.stats = (Fate.failed (e = .timeout)).count s.stats := by
  cases e <;> rfl

theorem settle_stats (request : RawWireRequest) (s : State W) (ran : Outcome WireResponse) :
    (settle app request s ran).1.stats = (requestFate app request ran).count s.stats := by
  cases ran with
  | cancelled => rfl
  | raised e => exact fail_stats app.codec request s e
  | value response =>
    by_cases hn : request.id.isNone
    · simp only [settle, requestFate, if_pos hn, Fate.count]
    · simp only [settle, requestFate, if_neg hn]
      cases app.codec.encodeResponse response with
      | none => exact fail_stats app.codec request s .other
      | some encoded =>
        simp only
        split_ifs
        · exact fail_stats app.codec request s .other
        · rfl

/-- `active` goes up and down again around whatever else is counted. -/
theorem Fate.count_active (fate : Fate) (stats : ExecutionStats) :
    { fate.count { stats with active := stats.active + 1 } with
      active := (fate.count { stats with active := stats.active + 1 }).active - 1 } =
        fate.count stats := by
  cases fate <;> rfl

theorem processOne_stats (item : Json) (s : State W) :
    (processOne app dispatch deadline clientId item s).1.stats =
      (fateOf app dispatch deadline clientId item s).count s.stats := by
  unfold processOne fateOf
  cases validate item with
  | none => rfl
  | some request =>
    have hstats : (settle app request (scope app dispatch deadline clientId request s.enter).1
        (scope app dispatch deadline clientId request s.enter).2).1.stats =
        (requestFate app request (scope app dispatch deadline clientId request s.enter).2).count
          s.enter.stats := by
      rw [settle_stats, scope_stats]
    simp only [State.access, State.leave, hstats]
    exact Fate.count_active _ _

/-- The context is as it was before the item, however the item ended. -/
theorem processOne_context (item : Json) (s : State W) :
    (processOne app dispatch deadline clientId item s).1.context = s.context := by
  unfold processOne
  cases validate item <;> rfl

theorem fail_ne_cancelled (c : Codec) (request : RawWireRequest) (s : State W) (e : Failure) :
    (fail c request s e).2.2 ≠ .cancelled := by
  simp only [fail]
  split_ifs
  · intro hcancelled
    cases hcancelled
  · exact encodeReply_ne_cancelled c _

theorem settle_cancelled {request : RawWireRequest} {s : State W} {ran : Outcome WireResponse} :
    (settle app request s ran).2.2 = .cancelled ↔ requestFate app request ran = .cancelled := by
  cases ran with
  | cancelled => simp [settle, requestFate]
  | raised e => simp [settle, requestFate, fail_ne_cancelled]
  | value response =>
    by_cases hn : request.id.isNone
    · simp [settle, requestFate, hn]
    · simp only [settle, requestFate, if_neg hn]
      cases app.codec.encodeResponse response with
      | none => simp [fail_ne_cancelled]
      | some encoded =>
        simp only
        split_ifs <;> simp [fail_ne_cancelled]

/-- An item ends with `CancelledError` exactly when that is its fate. -/
theorem processOne_cancelled {item : Json} {s : State W} :
    (processOne app dispatch deadline clientId item s).2 = .cancelled ↔
      fateOf app dispatch deadline clientId item s = .cancelled := by
  unfold processOne fateOf
  cases validate item with
  | none => simp [encodeReply_ne_cancelled]
  | some request => exact settle_cancelled

section
variable (app dispatch deadline clientId)

def Turn.fate (t : Turn W) : Fate := fateOf app dispatch deadline clientId t.item t.before

end

theorem IsTurn.stats {t : Turn W} (h : IsTurn app dispatch deadline clientId t) :
    t.after.stats = (t.fate app dispatch deadline clientId).count t.before.stats := by
  have hstats : (processOne app dispatch deadline clientId t.item t.before).1.stats =
      (t.fate app dispatch deadline clientId).count t.before.stats := processOne_stats _ _
  rwa [h.ran] at hstats

theorem IsTurn.context {t : Turn W} (h : IsTurn app dispatch deadline clientId t) :
    t.after.context = t.before.context := by
  have hcontext : (processOne app dispatch deadline clientId t.item t.before).1.context =
      t.before.context := processOne_context _ _
  rwa [h.ran] at hcontext

theorem IsTurn.cancelled_iff {t : Turn W} (h : IsTurn app dispatch deadline clientId t) :
    t.own = .cancelled ↔ t.fate app dispatch deadline clientId = .cancelled := by
  have hown : (processOne app dispatch deadline clientId t.item t.before).2 = t.own := by
    rw [h.ran]
  rw [← hown]
  exact processOne_cancelled

theorem Chain.stats {items : List Json} {ts : List (Turn W)} {s : State W}
    (h : Chain app dispatch deadline clientId s items ts) :
    (stateAfter s ts).stats =
      tally (ts.map (Turn.fate app dispatch deadline clientId)) s.stats := by
  induction h with
  | nil => rfl
  | next reply hturn _ _ ih => rw [stateAfter, ih, hturn.stats, List.map_cons, tally_cons]
  | stop hturn =>
    rw [stateAfter, stateAfter, hturn.stats, List.map_singleton, tally_cons]
    rfl

theorem Chain.context {items : List Json} {ts : List (Turn W)} {s : State W}
    (h : Chain app dispatch deadline clientId s items ts) :
    (stateAfter s ts).context = s.context := by
  induction h with
  | nil => rfl
  | next reply hturn _ _ ih => rw [stateAfter, ih, hturn.context]
  | stop hturn => exact hturn.context

/-- The items before the last one ended with a reply or with silence. -/
theorem Chain.dropLast {items : List Json} {ts : List (Turn W)} {s : State W}
    (h : Chain app dispatch deadline clientId s items ts) {t : Turn W} (ht : t ∈ ts.dropLast) :
    ∃ reply, t.own = .value reply := by
  induction h with
  | nil => simp at ht
  | @next u items ts reply hturn hvalue _ ih =>
    cases ts with
    | nil => simp at ht
    | cons u' ts =>
      rw [List.dropLast_cons_cons] at ht
      obtain rfl | ht := List.mem_cons.mp ht
      · exact ⟨reply, hvalue⟩
      · exact ih ht
  | stop => simp at ht

theorem repliesOf_cancelled {items : List Json} {ts : List (Turn W)} {s : State W}
    (h : Chain app dispatch deadline clientId s items ts) :
    repliesOf ts = .cancelled ↔ ∃ t ∈ ts, t.own = .cancelled := by
  induction h with
  | nil => simp [repliesOf]
  | @next t items ts reply hturn hvalue _ ih =>
    have hprepend : ∀ r, prepend t.kept r = .cancelled ↔ r = .cancelled := by
      intro r
      cases r <;> simp [prepend]
    simp [repliesOf, hvalue, hprepend, ih]
  | @stop t items hturn hends =>
    cases hown : t.own with
    | value reply => exact absurd hown (hends reply)
    | raised e => simp [repliesOf, hown]
    | cancelled => simp [repliesOf, hown]

theorem joined_cancelled {c : Codec} {r : Outcome (List Bytes)} :
    joined c r = .cancelled ↔ r = .cancelled := by
  cases r with
  | value replies => simp [joined, joinReplies_ne_cancelled]
  | raised e => simp [joined]
  | cancelled => simp [joined]

section
variable (app dispatch clientId)

/-- The fate of an item under the deadline of the message. -/
def messageFate (s : State W) (t : Turn W) : Fate :=
  t.fate app dispatch (app.clock s.world + app.handlerTimeout) clientId

/-- A message that is rejected counts once and as invalid. The counters of any other are the
tally of the fates of its items, which are reached in order; only the last can be cancelled, and
then the message is. The context is restored by each item. -/
structure Accounts (data : Bytes) (s : State W) : Prop where
  rejected : Rejected app data → messageTurns app dispatch clientId data s = [] ∧
    (process app dispatch clientId data s).1.stats =
      { s.stats with
        requests := s.stats.requests + 1
        invalid := s.stats.invalid + 1 }
  counted : ¬ Rejected app data → (process app dispatch clientId data s).1.stats =
    tally ((messageTurns app dispatch clientId data s).map (messageFate app dispatch clientId s))
      { s.stats with requests := s.stats.requests + 1 }
  reached : ∀ envelope, app.codec.decode data = some envelope →
    (messageTurns app dispatch clientId data s).map Turn.item <+: itemsOf envelope ∧
      (¬ Rejected app data →
        (∃ reply, (process app dispatch clientId data s).2 = .value reply) →
          (messageTurns app dispatch clientId data s).map Turn.item = itemsOf envelope)
  each : ∀ t ∈ messageTurns app dispatch clientId data s,
    t.after.stats = (messageFate app dispatch clientId s t).count t.before.stats ∧
      t.after.context = t.before.context
  last : ∀ t ∈ (messageTurns app dispatch clientId data s).dropLast,
    messageFate app dispatch clientId s t ≠ .cancelled
  cancelled_iff : (process app dispatch clientId data s).2 = .cancelled ↔
    ∃ t ∈ messageTurns app dispatch clientId data s,
      messageFate app dispatch clientId s t = .cancelled
  context : (process app dispatch clientId data s).1.context = s.context

end

theorem Course.stats {data : Bytes} {s : State W} {ts : List (Turn W)}
    {r : State W × Outcome (Option Bytes)} (h : Course app dispatch clientId data s ts r) :
    (Rejected app data → ts = [] ∧ r.1.stats = s.countRequest.countInvalid.stats) ∧
      (¬ Rejected app data →
        r.1.stats = tally (ts.map (messageFate app dispatch clientId s)) s.countRequest.stats) := by
  cases h with
  | unparseable hdec => exact ⟨fun _ => ⟨rfl, rfl⟩, fun h => absurd (.inl hdec) h⟩
  | refused items hdec hrefused =>
    exact ⟨fun _ => ⟨rfl, rfl⟩, fun h => absurd (.inr ⟨items, hdec, hrefused⟩) h⟩
  | unencodable items hdec hrefused =>
    exact ⟨fun h => absurd h (not_rejected_arr hdec hrefused), fun _ => rfl⟩
  | batch items ts hdec hrefused hchain =>
    exact ⟨fun h => absurd h (not_rejected_arr hdec hrefused), fun _ => hchain.stats⟩
  | single t hdec hitem hbefore hturn =>
    refine ⟨fun h => absurd h (not_rejected_single hdec hitem), fun _ => ?_⟩
    have hstats := hturn.chain.stats
    rwa [hbefore] at hstats

theorem Course.context {data : Bytes} {s : State W} {ts : List (Turn W)}
    {r : State W × Outcome (Option Bytes)} (h : Course app dispatch clientId data s ts r) :
    r.1.context = s.context := by
  cases h with
  | unparseable => rfl
  | refused => rfl
  | unencodable => rfl
  | batch items ts hdec hrefused hchain => exact hchain.context
  | single t hdec hitem hbefore hturn =>
    rw [hturn.context, hbefore]
    rfl

theorem Course.dropLast {data : Bytes} {s : State W} {ts : List (Turn W)}
    {r : State W × Outcome (Option Bytes)} (h : Course app dispatch clientId data s ts r)
    {t : Turn W} (ht : t ∈ ts.dropLast) : ∃ reply, t.own = .value reply := by
  cases h with
  | batch items ts hdec hrefused hchain => exact hchain.dropLast ht
  | _ => simp at ht

theorem Course.cancelled_iff {data : Bytes} {s : State W} {ts : List (Turn W)}
    {r : State W × Outcome (Option Bytes)} (h : Course app dispatch clientId data s ts r) :
    r.2 = .cancelled ↔ ∃ t ∈ ts, t.own = .cancelled := by
  cases h with
  | unparseable => simp [encodeReply_ne_cancelled]
  | refused => simp [refuseBatch, encodeReply_ne_cancelled]
  | unencodable => simp
  | batch items ts hdec hrefused hchain =>
    exact joined_cancelled.trans (repliesOf_cancelled hchain)
  | single => simp

theorem request_accounting (app : ExecutionHost W) (dispatch : Dispatch W)
    (clientId : Option String) (data : Bytes) (s : State W) :
    Accounts app dispatch clientId data s := by
  have hcourse : Course app dispatch clientId data s
    (messageTurns app dispatch clientId data s) (process app dispatch clientId data s) :=
    process_course data s
  constructor
  · exact hcourse.stats.1
  · exact hcourse.stats.2
  · exact fun envelope hdec => hcourse.reached hdec
  · intro t ht
    exact ⟨(hcourse.isTurn ht).stats, (hcourse.isTurn ht).context⟩
  · intro t ht hcancelled
    obtain ⟨reply, hreply⟩ := hcourse.dropLast ht
    have hown := (hcourse.isTurn (List.dropLast_subset _ ht)).cancelled_iff.mpr hcancelled
    nomatch hown.symm.trans hreply
  · refine hcourse.cancelled_iff.trans (exists_congr fun t => and_congr_right fun ht => ?_)
    exact (hcourse.isTurn ht).cancelled_iff
  · exact hcourse.context

end WireRpc.Execution
