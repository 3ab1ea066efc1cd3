import WireRpc.Conformance

/-!
# The turns of a message

The items of a message are taken up one after another. A turn is what happens to one of
them: the state before and after it, how it is logged, and what the caller gets.
-/
namespace WireRpc.Execution
open Library

variable {W : Type}

/-- `outcome` is what the access line says and `own` how `_process_one` ends. The reply that
is kept is the own one, or the fallback when the two are `exchanged`. -/
structure Turn (W : Type) where
  item : Json
  before : State W
  after : State W
  outcome : AccessOutcome
  own : Outcome (Option Bytes)
  exchanged : Bool
  kept : Option Bytes

/-- The reply, if there is one. -/
def Outcome.reply : Outcome (Option Bytes) → Option Bytes
  | .value reply => reply
  | .raised _ => none
  | .cancelled => none

theorem Outcome.reply_eq_some {outcome : Outcome (Option Bytes)} {b : Bytes} :
    outcome.reply = some b ↔ outcome = .value (some b) := by
  cases outcome <;> simp [Outcome.reply]

/-- What the access line of an item is about. -/
def subjectOf (item : Json) : Subject :=
  match validate item with
  | none => .invalid
  | some request => .method request.method

/-- What the access line of an item says. -/
def outcomeOf (app : ExecutionHost W) (dispatch : Dispatch W) (deadline : ℕ)
    (clientId : Option String) (item : Json) (s : State W) : AccessOutcome :=
  match validate item with
  | none => .code (-32600)
  | some request =>
    let ran := scope app dispatch deadline clientId request s.enter
    (settle app request ran.1 ran.2).2.1

def Turn.line (clientId : Option String) (t : Turn W) : AccessLine :=
  ⟨subjectOf t.item, t.outcome, clientId⟩

/-- The loop has no room for the reply, and a fallback to take in its place. -/
def exchanges (fallback : Option Bytes) (room : ℤ) (reply : Bytes) : Bool :=
  fallback.isSome && decide (reply.length > room)

/-- What the loop keeps of a reply. -/
def keep (fallback : Option Bytes) (room : ℤ) (reply : Bytes) : Bytes :=
  if exchanges fallback room reply then fallback.getD reply else reply

section
variable (app : ExecutionHost W) (dispatch : Dispatch W) (deadline : ℕ)
  (clientId : Option String)

/-- The turn of an item whose reply may take so much room. -/
def turn (item : Json) (fallback : Option Bytes) (room : ℤ) (s : State W) : Turn W :=
  let ran := processOne app dispatch deadline clientId item s
  { item := item
    before := s
    after := ran.1
    outcome := outcomeOf app dispatch deadline clientId item s
    own := ran.2
    exchanged := match ran.2 with
      | .value (some reply) => exchanges fallback room reply
      | _ => false
    kept := match ran.2 with
      | .value (some reply) => some (keep fallback room reply)
      | _ => none }

/-- The turns of the batch loop. -/
def turns : List (Json × Option Bytes) → ℤ → ℤ → State W → List (Turn W)
  | [], _, _, _ => []
  | (item, fallback) :: rest, remaining, reserved, s =>
    let reserved := reserved - (fallback.getD []).length
    let t := turn app dispatch deadline clientId item fallback (remaining - reserved) s
    match t.own with
    | .value _ => t :: turns rest (remaining - (t.kept.getD []).length) reserved t.after
    | _ => [t]

def batchTurns (items : List Json) (s : State W) : List (Turn W) :=
  if items.length = 0 then []
  else if items.length > app.maxBatchSize then []
  else
    match items.mapM (fallback app.codec) with
    | none => []
    | some fallbacks =>
      if reserve fallbacks > app.maxResponseSize then []
      else turns app dispatch deadline clientId (items.zip fallbacks)
        (app.maxResponseSize - items.length - 8) (reserve fallbacks - items.length - 8) s

/-- The turns that `process` gives to the items of a message. -/
def messageTurns (data : Bytes) (s : State W) : List (Turn W) :=
  match app.codec.decode data with
  | none => []
  | some envelope =>
    let s := s.countRequest
    let deadline := app.clock s.world + app.handlerTimeout
    match envelope with
    | .arr items => batchTurns app dispatch deadline clientId items s
    | item => [turn app dispatch deadline clientId item none 0 s]

end

/-- The state after the turns. -/
def stateAfter (s : State W) : List (Turn W) → State W
  | [] => s
  | t :: ts => stateAfter t.after ts

/-- One more reply, if there is one, in front of the others. -/
def prepend (kept : Option Bytes) : Outcome (List Bytes) → Outcome (List Bytes)
  | .value replies => .value (kept.toList ++ replies)
  | .raised e => .raised e
  | .cancelled => .cancelled

/-- The replies that the turns leave, if none of them ends with an exception. -/
def repliesOf : List (Turn W) → Outcome (List Bytes)
  | [] => .value []
  | t :: ts =>
    match t.own with
    | .value _ => prepend t.kept (repliesOf ts)
    | .raised e => .raised e
    | .cancelled => .cancelled

@[simp] theorem prepend_none (r : Outcome (List Bytes)) : prepend none r = r := by
  cases r <;> rfl

theorem andThen_prepend (s : State W) (r : Outcome (List Bytes)) (kept : Bytes) :
    andThen (s, r) (fun s replies => (s, .value (kept :: replies))) =
      (s, prepend (some kept) r) := by
  cases r <;> rfl

variable {app : ExecutionHost W} {dispatch : Dispatch W} {deadline : ℕ}
  {clientId : Option String}

theorem batchLoop_cons (item : Json) (fallback : Option Bytes) (rest : List (Json × Option Bytes))
    (remaining reserved : ℤ) (s : State W) :
    batchLoop app dispatch deadline clientId ((item, fallback) :: rest) remaining reserved s =
      andThen (processOne app dispatch deadline clientId item s) fun s reply =>
        let reserved := reserved - (fallback.getD []).length
        match reply with
        | none => batchLoop app dispatch deadline clientId rest remaining reserved s
        | some reply =>
          let kept := keep fallback (remaining - reserved) reply
          andThen
            (batchLoop app dispatch deadline clientId rest (remaining - kept.length) reserved s)
            fun s replies => (s, .value (kept :: replies)) := by
  simp only [batchLoop]
  congr 1
  funext t reply
  cases fallback <;> cases reply <;> simp [keep, exchanges]

/-- The loop goes from turn to turn and collects what they keep. -/
theorem batchLoop_eq_turns (items : List (Json × Option Bytes)) (remaining reserved : ℤ)
    (s : State W) :
    batchLoop app dispatch deadline clientId items remaining reserved s =
      (stateAfter s (turns app dispatch deadline clientId items remaining reserved s),
        repliesOf (turns app dispatch deadline clientId items remaining reserved s)) := by
  induction items generalizing remaining reserved s with
  | nil => rfl
  | cons p rest ih =>
    obtain ⟨item, fallback⟩ := p
    simp only [batchLoop_cons, turns, turn]
    obtain ⟨after, own⟩ := processOne app dispatch deadline clientId item s
    cases own with
    | raised e => rfl
    | cancelled => rfl
    | value reply =>
      cases reply with
      | none => simp [andThen, stateAfter, repliesOf, ih]
      | some reply =>
        simp only [andThen, ih, Option.getD_some]
        exact andThen_prepend _ _ _

section
variable (app dispatch deadline clientId)

/-- The item is processed, and the caller gets its reply or its fallback. -/
structure IsTurn (t : Turn W) : Prop where
  ran : processOne app dispatch deadline clientId t.item t.before = (t.after, t.own)
  outcome_eq : t.outcome = outcomeOf app dispatch deadline clientId t.item t.before
  kept_own : t.exchanged = false → t.kept = t.own.reply
  kept_fallback : t.exchanged = true → ∃ own f, t.own = .value (some own) ∧
    fallback app.codec t.item = some (some f) ∧ t.kept = some f ∧ f.length < own.length

/-- The turns of the items from a state on, until one of them ends with an exception. -/
inductive Chain : State W → List Json → List (Turn W) → Prop
  | nil (s : State W) : Chain s [] []
  | next {t : Turn W} {items : List Json} {ts : List (Turn W)} (reply : Option Bytes)
      (hturn : IsTurn app dispatch deadline clientId t) (hvalue : t.own = .value reply)
      (h : Chain t.after items ts) : Chain t.before (t.item :: items) (t :: ts)
  | stop {t : Turn W} {items : List Json} (hturn : IsTurn app dispatch deadline clientId t)
      (hends : ∀ reply, t.own ≠ .value reply) : Chain t.before (t.item :: items) [t]

end

/-- The room is enough for the fallback, so what takes more is longer. -/
theorem turn_isTurn {item : Json} {fb : Option Bytes} {room : ℤ} {s : State W}
    (hf : fallback app.codec item = some fb) (hroom : ((fb.getD []).length : ℤ) ≤ room) :
    IsTurn app dispatch deadline clientId (turn app dispatch deadline clientId item fb room s) := by
  constructor
  · rfl
  · rfl
  · intro hexchanged
    cases hone : processOne app dispatch deadline clientId item s with
    | mk after own =>
      cases own with
      | raised e => simp [turn, hone, Outcome.reply]
      | cancelled => simp [turn, hone, Outcome.reply]
      | value reply => cases reply <;> simp_all [turn, keep, Outcome.reply]
  · intro hexchanged
    cases hone : processOne app dispatch deadline clientId item s with
    | mk after own =>
      cases own with
      | raised e => simp [turn, hone] at hexchanged
      | cancelled => simp [turn, hone] at hexchanged
      | value reply =>
        cases reply with
        | none => simp [turn, hone] at hexchanged
        | some reply =>
          cases fb with
          | none => simp [turn, hone, exchanges] at hexchanged
          | some f =>
            have hlong : room < reply.length := by simpa [turn, hone, exchanges] using hexchanged
            refine ⟨reply, f, ?_, hf, ?_, ?_⟩
            · simp [turn, hone]
            · simp [turn, hone, keep, exchanges, hlong]
            · simp only [Option.getD_some] at hroom
              omega

variable (dispatch deadline clientId) in
/-- A notification leaves no reply, and any other item one that fits. -/
theorem turn_kept_le {item : Json} {fb : Option Bytes} {room : ℤ} (s : State W)
    (hf : fallback app.codec item = some fb) (hroom : ((fb.getD []).length : ℤ) ≤ room) :
    (((turn app dispatch deadline clientId item fb room s).kept.getD []).length : ℤ) ≤ room := by
  have hpos : (0 : ℤ) ≤ room := le_trans (Int.natCast_nonneg _) hroom
  cases hone : processOne app dispatch deadline clientId item s with
  | mk after own =>
    cases own with
    | raised e => simpa [turn, hone] using hpos
    | cancelled => simpa [turn, hone] using hpos
    | value reply =>
      cases reply with
      | none => simpa [turn, hone] using hpos
      | some reply =>
        obtain ⟨hsilent, -⟩ | ⟨-, f, rfl, -⟩ := fallback_eq_some hf
        · have hanswer : answerOf app dispatch deadline clientId item s = none :=
            answerOf_eq_none.mpr hsilent
          obtain ⟨-, h⟩ | ⟨a, b, ha, -⟩ := processOne_value hone
          · nomatch h
          · nomatch hanswer.symm.trans ha
        · simp only [turn, hone, keep, exchanges, Option.isSome_some, Bool.true_and,
            Option.getD_some, decide_eq_true_eq]
          rw [Option.getD_some] at hroom
          split_ifs <;> omega

/-- As long as the fallbacks fit, the turns of the loop are a chain. -/
theorem turns_chain {items : List Json} {fallbacks : List (Option Bytes)}
    (hf : List.Forall₂ (fun item f => fallback app.codec item = some f) items fallbacks)
    {remaining : ℤ} {s : State W} (hfit : (fallbackBytes fallbacks : ℤ) ≤ remaining) :
    Chain app dispatch deadline clientId s items
      (turns app dispatch deadline clientId (items.zip fallbacks) remaining
        (fallbackBytes fallbacks) s) := by
  induction hf generalizing remaining s with
  | nil => exact .nil s
  | @cons item f items fallbacks hitem hrest ih =>
    have hreserved : (fallbackBytes (f :: fallbacks) : ℤ) - (f.getD []).length =
        fallbackBytes fallbacks := by
      rw [fallbackBytes_cons]
      omega
    have hroom : ((f.getD []).length : ℤ) ≤ remaining - fallbackBytes fallbacks := by
      rw [fallbackBytes_cons] at hfit
      omega
    have hturn : IsTurn app dispatch deadline clientId
        (turn app dispatch deadline clientId item f (remaining - fallbackBytes fallbacks) s) :=
      turn_isTurn hitem hroom
    have hkept := turn_kept_le dispatch deadline clientId s hitem hroom
    simp only [List.zip_cons_cons, turns, hreserved]
    generalize ht : turn app dispatch deadline clientId item f (remaining - fallbackBytes fallbacks)
      s = t at hturn hkept
    have hitem' : t.item = item := by rw [← ht, turn]
    have hbefore : t.before = s := by rw [← ht, turn]
    rw [← hitem', ← hbefore]
    split
    · rename_i reply hown
      exact .next reply hturn hown (ih (by omega))
    · rename_i hends
      exact .stop hturn hends

/-- None of it runs: the message is unparseable or a batch that is refused. -/
def Rejected (app : ExecutionHost W) (data : Bytes) : Prop :=
  app.codec.decode data = none ∨
    ∃ items, app.codec.decode data = some (.arr items) ∧ Refused app items

theorem not_rejected_arr {data : Bytes} {items : List Json}
    (hdec : app.codec.decode data = some (.arr items)) (h : ¬ Refused app items) :
    ¬ Rejected app data := by
  intro hrejected
  obtain hnone | ⟨items', hdec', hrefused⟩ := hrejected
  · nomatch hdec.symm.trans hnone
  · obtain rfl := Json.arr.inj (Option.some.inj (hdec.symm.trans hdec'))
    exact h hrefused

theorem not_rejected_single {data : Bytes} {item : Json}
    (hdec : app.codec.decode data = some item) (hitem : ∀ items, item ≠ .arr items) :
    ¬ Rejected app data := by
  intro hrejected
  obtain hnone | ⟨items, hdec', -⟩ := hrejected
  · nomatch hdec.symm.trans hnone
  · exact hitem items (Option.some.inj (hdec.symm.trans hdec'))

/-- What becomes of the replies of a batch. -/
def joined (c : Codec) : Outcome (List Bytes) → Outcome (Option Bytes)
  | .value replies => joinReplies c replies
  | .raised e => .raised e
  | .cancelled => .cancelled

theorem andThen_joined (c : Codec) (s : State W) (r : Outcome (List Bytes)) :
    andThen (s, r) (fun s replies => (s, joinReplies c replies)) = (s, joined c r) := by
  cases r <;> rfl

section
variable (app dispatch clientId)

/-- A message is unparseable, a batch that is refused or has a fallback that does not
encode, a batch whose items take their turns, or one item. -/
inductive Course (data : Bytes) (s : State W) :
    List (Turn W) → State W × Outcome (Option Bytes) → Prop
  | unparseable (hdec : app.codec.decode data = none) :
      Course data s [] (s.countRequest.countInvalid.access .unparseable (.code (-32700)) clientId,
        encodeReply app.codec parseError)
  | refused (items : List Json) (hdec : app.codec.decode data = some (.arr items))
      (hrefused : Refused app items) : Course data s [] (refuseBatch app clientId s.countRequest)
  | unencodable (items : List Json) (hdec : app.codec.decode data = some (.arr items))
      (hrefused : ¬ Refused app items) (hf : items.mapM (fallback app.codec) = none) :
      Course data s [] (s.countRequest, .raised .other)
  | batch (items : List Json) (ts : List (Turn W))
      (hdec : app.codec.decode data = some (.arr items)) (hrefused : ¬ Refused app items)
      (hchain : Chain app dispatch (app.clock s.world + app.handlerTimeout) clientId
        s.countRequest items ts) :
      Course data s ts (stateAfter s.countRequest ts, joined app.codec (repliesOf ts))
  | single (t : Turn W) (hdec : app.codec.decode data = some t.item)
      (hitem : ∀ items, t.item ≠ .arr items) (hbefore : t.before = s.countRequest)
      (hturn : IsTurn app dispatch (app.clock s.world + app.handlerTimeout) clientId t)
      (hown : t.exchanged = false) : Course data s [t] (t.after, t.own)

end

theorem batchTurns_of_refused {items : List Json} {s : State W} (h : Refused app items) :
    batchTurns app dispatch deadline clientId items s = [] := by
  unfold batchTurns
  obtain rfl | h | ⟨fallbacks, hf, h⟩ := h
  · rw [if_pos List.length_nil]
  · split_ifs <;> rfl
  · simp only [hf, if_pos h]
    split_ifs <;> rfl

theorem batchTurns_of_not_refused {items : List Json} {s : State W}
    {fallbacks : List (Option Bytes)} (h : ¬ Refused app items)
    (hf : items.mapM (fallback app.codec) = some fallbacks) :
    batchTurns app dispatch deadline clientId items s =
      turns app dispatch deadline clientId (items.zip fallbacks)
        (app.maxResponseSize - items.length - 8) (fallbackBytes fallbacks) s := by
  have hlen : fallbacks.length = items.length := (mapM_eq_some_iff.mp hf).length_eq.symm
  have hnil : ¬ items.length = 0 := fun h' => h (.inl (List.length_eq_zero_iff.mp h'))
  have hmax : ¬ items.length > app.maxBatchSize := fun h' => h (.inr (.inl h'))
  have hreserve : ¬ reserve fallbacks > app.maxResponseSize := fun h' =>
    h (.inr (.inr ⟨fallbacks, hf, h'⟩))
  have hreserved : (reserve fallbacks : ℤ) - items.length - 8 = fallbackBytes fallbacks := by
    simp only [reserve, fallbackBytes]
    omega
  simp only [batchTurns, hf, hreserved, if_neg hnil, if_neg hmax, if_neg hreserve]

theorem batch_unencodable {items : List Json} {s : State W} (h : ¬ Refused app items)
    (hf : items.mapM (fallback app.codec) = none) :
    batchTurns app dispatch deadline clientId items s = [] ∧
      processBatch app dispatch deadline clientId items s = (s, .raised .other) := by
  have hnil : ¬ items.length = 0 := fun h' => h (.inl (List.length_eq_zero_iff.mp h'))
  have hmax : ¬ items.length > app.maxBatchSize := fun h' => h (.inr (.inl h'))
  simp only [batchTurns, processBatch, hf, if_neg hnil, if_neg hmax, and_self]

/-- Without a fallback nothing is exchanged. -/
theorem turn_not_exchanged (item : Json) (room : ℤ) (s : State W) :
    (turn app dispatch deadline clientId item none room s).exchanged = false := by
  simp only [turn]
  split <;> rfl

theorem messageTurns_arr {data : Bytes} {items : List Json} {s : State W}
    (hdec : app.codec.decode data = some (.arr items)) :
    messageTurns app dispatch clientId data s =
      batchTurns app dispatch (app.clock s.world + app.handlerTimeout) clientId items
        s.countRequest := by
  unfold messageTurns
  rw [hdec]
  rfl

theorem messageTurns_single {data : Bytes} {item : Json} {s : State W}
    (hdec : app.codec.decode data = some item) (hitem : ∀ items, item ≠ .arr items) :
    messageTurns app dispatch clientId data s =
      [turn app dispatch (app.clock s.world + app.handlerTimeout) clientId item none 0
        s.countRequest] := by
  unfold messageTurns
  rw [hdec]
  cases item with
  | arr items => exact absurd rfl (hitem items)
  | _ => rfl

variable (app dispatch deadline clientId) in
theorem first_mem_turns (item : Json) (fb : Option Bytes) (rest : List (Json × Option Bytes))
    (remaining reserved : ℤ) (s : State W) :
    turn app dispatch deadline clientId item fb (remaining - (reserved - (fb.getD []).length)) s ∈
      turns app dispatch deadline clientId ((item, fb) :: rest) remaining reserved s := by
  simp only [turns]
  split
  · exact List.mem_cons_self
  · exact List.mem_singleton_self _

/-- `process` takes the course of its message. -/
theorem process_course (data : Bytes) (s : State W) :
    Course app dispatch clientId data s (messageTurns app dispatch clientId data s)
      (process app dispatch clientId data s) := by
  cases hdec : app.codec.decode data with
  | none =>
    have hturns : messageTurns app dispatch clientId data s = [] := by
      unfold messageTurns
      rw [hdec]
    rw [hturns, process_of_not_decode hdec]
    exact .unparseable hdec
  | some envelope =>
    rw [process_of_decode hdec]
    by_cases harr : ∃ items, envelope = .arr items
    · obtain ⟨items, rfl⟩ := harr
      rw [messageTurns_arr hdec, processEnvelope_arr]
      by_cases hrefused : Refused app items
      · rw [batchTurns_of_refused hrefused, processBatch_of_refused hrefused]
        exact .refused items hdec hrefused
      · cases hf : items.mapM (fallback app.codec) with
        | none =>
          rw [(batch_unencodable hrefused hf).1, (batch_unencodable hrefused hf).2]
          exact .unencodable items hdec hrefused hf
        | some fallbacks =>
          rw [batchTurns_of_not_refused hrefused hf, processBatch_of_not_refused hrefused hf,
            batchLoop_eq_turns, andThen_joined]
          exact .batch items _ hdec hrefused
            (turns_chain (mapM_eq_some_iff.mp hf) (fallbackBytes_le hrefused hf))
    · have hitem : ∀ items, envelope ≠ .arr items := not_exists.mp harr
      rw [messageTurns_single hdec hitem, processEnvelope_of_ne_arr hitem]
      refine .single _ hdec hitem rfl ⟨rfl, rfl, fun _ => ?_, fun h => ?_⟩
        (turn_not_exchanged ..)
      · cases hown : (processOne app dispatch (app.clock s.world + app.handlerTimeout) clientId
          envelope s.countRequest).2 with
        | raised e => simp [turn, hown, Outcome.reply]
        | cancelled => simp [turn, hown, Outcome.reply]
        | value reply => cases reply <;> simp [turn, hown, keep, exchanges, Outcome.reply]
      · nomatch (turn_not_exchanged ..).symm.trans h

theorem Chain.isTurn {items : List Json} {ts : List (Turn W)} {s : State W}
    (h : Chain app dispatch deadline clientId s items ts) {t : Turn W} (ht : t ∈ ts) :
    IsTurn app dispatch deadline clientId t := by
  induction h with
  | nil => simp at ht
  | next reply hturn _ _ ih =>
    obtain rfl | ht := List.mem_cons.mp ht
    · exact hturn
    · exact ih ht
  | stop hturn =>
    obtain rfl := List.mem_singleton.mp ht
    exact hturn

theorem IsTurn.chain {t : Turn W} (h : IsTurn app dispatch deadline clientId t) :
    Chain app dispatch deadline clientId t.before [t.item] [t] := by
  by_cases hvalue : ∃ reply, t.own = .value reply
  · obtain ⟨reply, hreply⟩ := hvalue
    exact .next reply h hreply (.nil _)
  · exact .stop h (not_exists.mp hvalue)

/-- The items have their turns in order, all of them if no turn ends with an exception. -/
theorem Chain.map_item {items : List Json} {ts : List (Turn W)} {s : State W}
    (h : Chain app dispatch deadline clientId s items ts) :
    ts.map Turn.item <+: items ∧
      ((∀ t ∈ ts, ∃ reply, t.own = .value reply) → ts.map Turn.item = items) := by
  induction h with
  | nil => simp
  | @next t items ts reply hturn hvalue _ ih =>
    obtain ⟨hfirst, hall⟩ := ih
    constructor
    · simpa using hfirst
    · intro hvalues
      rw [List.map_cons, hall fun t ht => hvalues t (List.mem_cons_of_mem _ ht)]
  | @stop t items hturn hends =>
    constructor
    · simp
    · intro hvalues
      obtain ⟨reply, hreply⟩ := hvalues t List.mem_cons_self
      exact absurd hreply (hends reply)

theorem prepend_eq_value {kept : Option Bytes} {r : Outcome (List Bytes)} {replies : List Bytes} :
    prepend kept r = .value replies ↔ ∃ rest, r = .value rest ∧ replies = kept.toList ++ rest := by
  cases r <;> simp [prepend, eq_comm]

/-- The turns leave replies when each of them ends with one or with silence. -/
theorem repliesOf_eq_value {ts : List (Turn W)} {replies : List Bytes} :
    repliesOf ts = .value replies ↔
      (∀ t ∈ ts, ∃ reply, t.own = .value reply) ∧ replies = ts.filterMap Turn.kept := by
  induction ts generalizing replies with
  | nil => simp [repliesOf, eq_comm]
  | cons t ts ih =>
    cases hown : t.own with
    | value reply =>
      have hfilter : (t :: ts).filterMap Turn.kept = t.kept.toList ++ ts.filterMap Turn.kept := by
        cases hk : t.kept <;> simp [hk]
      simp [repliesOf, hown, prepend_eq_value, ih, hfilter]
    | raised e => simp [repliesOf, hown]
    | cancelled => simp [repliesOf, hown]

theorem joined_eq_value {c : Codec} {r : Outcome (List Bytes)} {reply : Option Bytes} :
    joined c r = .value reply ↔
      ∃ replies, r = .value replies ∧ joinReplies c replies = .value reply := by
  cases r <;> simp [joined]

/-- When the message ends with a reply or with silence, so do all its turns. -/
theorem Course.values {data : Bytes} {s : State W} {ts : List (Turn W)}
    {r : State W × Outcome (Option Bytes)} (h : Course app dispatch clientId data s ts r)
    {reply : Option Bytes} (hr : r.2 = .value reply) {t : Turn W} (ht : t ∈ ts) :
    ∃ own, t.own = .value own := by
  cases h with
  | unparseable => simp at ht
  | refused => simp at ht
  | unencodable => simp at ht
  | batch =>
    obtain ⟨replies, hreplies, -⟩ := joined_eq_value.mp hr
    exact (repliesOf_eq_value.mp hreplies).1 t ht
  | single =>
    obtain rfl := List.mem_singleton.mp ht
    exact ⟨reply, hr⟩

theorem Course.isTurn {data : Bytes} {s : State W} {ts : List (Turn W)}
    {r : State W × Outcome (Option Bytes)} (h : Course app dispatch clientId data s ts r)
    {t : Turn W} (ht : t ∈ ts) :
    IsTurn app dispatch (app.clock s.world + app.handlerTimeout) clientId t := by
  cases h with
  | unparseable => simp at ht
  | refused => simp at ht
  | unencodable => simp at ht
  | batch _ _ _ _ hchain => exact hchain.isTurn ht
  | single _ _ _ _ hturn =>
    obtain rfl := List.mem_singleton.mp ht
    exact hturn

/-- The turns go to the first items of the message, and to all of them when the message is not
rejected and ends with a reply or with silence. -/
theorem Course.reached {data : Bytes} {s : State W} {ts : List (Turn W)}
    {r : State W × Outcome (Option Bytes)} (h : Course app dispatch clientId data s ts r)
    {envelope : Json} (hdec : app.codec.decode data = some envelope) :
    ts.map Turn.item <+: itemsOf envelope ∧
      (¬ Rejected app data → (∃ reply, r.2 = .value reply) →
        ts.map Turn.item = itemsOf envelope) := by
  have hvalues : ∀ reply, r.2 = .value reply → ∀ t ∈ ts, ∃ own, t.own = .value own :=
    fun reply hr t ht => h.values hr ht
  cases h with
  | unparseable hdec' => nomatch hdec.symm.trans hdec'
  | refused items hdec' hrefused =>
    exact ⟨List.nil_prefix, fun hrejected => absurd (.inr ⟨items, hdec', hrefused⟩) hrejected⟩
  | unencodable =>
    refine ⟨List.nil_prefix, fun _ hr => ?_⟩
    obtain ⟨reply, hr⟩ := hr
    nomatch hr
  | batch items ts hdec' hrefused hchain =>
    obtain rfl := Option.some.inj (hdec.symm.trans hdec')
    obtain ⟨hfirst, hall⟩ := hchain.map_item
    refine ⟨hfirst, fun _ hr => ?_⟩
    obtain ⟨reply, hr⟩ := hr
    exact hall (hvalues reply hr)
  | single t hdec' hitem =>
    obtain rfl := Option.some.inj (hdec.symm.trans hdec')
    rw [List.map_singleton, itemsOf_of_ne_arr hitem]
    exact ⟨List.prefix_refl _, fun _ _ => rfl⟩

end WireRpc.Execution
