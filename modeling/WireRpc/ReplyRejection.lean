import WireRpc.ReplyAcceptance
import WireRpc.ChannelOwnership

/-!
# What the client does with a reply that it does not accept

A message that is neither the reply nor a notification closes the client and raises
a connection error, save for one kind of batch reply.
-/
namespace WireRpc.Client
open Library

/-- The operations that read messages, with the ids they wait for. -/
inductive Operation where
  | call (requestId : String)
  | batch (expected : Finset String)
  | receiveNotification

/-- What an accepted message becomes: the response to a call, or the reply to a batch. -/
abbrev Reply := Envelope ⊕ BatchReply

namespace Operation

/-- What is read as the reply. -/
def accept : Operation → Json → Except ClientError Reply
  | call requestId, message => (response message requestId).map Sum.inl
  | batch expected, message => (batchResponse expected message).map Sum.inr
  | receiveNotification, _ => .error (.connection "Expected a server notification")

/-- Use of the channel by the operation, which sends `data` first. -/
def exchange (data : Bytes) : Operation → ClientChannel.Exchange Reply
  | receiveNotification => .receiveNotification
  | op => .locked data (some op.accept)

/-- The exception on a message, if it is taken neither as the reply nor as a notification. -/
def raises (c : Codec) (data : Bytes) : Operation → Option ClientError
  | receiveNotification =>
    match ClientChannel.receiveNotification c data with
    | .ok _ => none
    | .error e => some e
  | op =>
    match readMessage c op.accept data with
    | .returns (.error e) => some e
    | _ => none

end Operation

theorem validateError_error {envelope : Envelope} {e : ClientError}
    (h : validateError envelope = .error e) : ∃ text, e = .connection text := by
  unfold validateError at h
  split at h
  · split at h
    · nomatch h
    · exact ⟨_, (Except.error.inj h).symm⟩
  · exact ⟨_, (Except.error.inj h).symm⟩

theorem validateResponse_error {envelope : Envelope} {id : String} {e : ClientError}
    (h : validateResponse envelope id = .error e) : ∃ text, e = .connection text := by
  unfold validateResponse at h
  split_ifs at h
  · split at h
    · nomatch h
    · obtain rfl := Except.error.inj h
      exact validateError_error ‹_›
  · exact ⟨_, (Except.error.inj h).symm⟩

theorem notification_error {envelope : Envelope} {e : ClientError}
    (h : notification envelope = .error e) : ∃ text, e = .connection text := by
  unfold notification at h
  split at h
  · split_ifs at h
    exact ⟨_, (Except.error.inj h).symm⟩
  · exact ⟨_, (Except.error.inj h).symm⟩

theorem response_error {message : Json} {id : String} {e : ClientError}
    (h : response message id = .error e) : ∃ text, e = .connection text := by
  unfold response at h
  split at h
  · split at h
    · nomatch h
    · obtain rfl := Except.error.inj h
      exact validateResponse_error ‹_›
  · exact ⟨_, (Except.error.inj h).symm⟩

/-- The id is a list or an object, which no set can be asked for. -/
def HasUnhashableId (envelope : Envelope) : Prop :=
  (∃ items, Json.get? envelope "id" = some (.arr items)) ∨
    ∃ fields, Json.get? envelope "id" = some (.obj fields)

/-- After responses to distinct expected ids comes an object with an id that is a list
or an object. -/
def Unhashable (expected seen : Finset String) (entries : List Json) : Prop :=
  ∃ (es : List Envelope) (ids : List String) (envelope : Envelope) (rest : List Json),
    entries = es.map .obj ++ .obj envelope :: rest ∧ List.Forall₂ Answers es ids ∧ ids.Nodup ∧
      (∀ id ∈ ids, id ∈ expected ∧ id ∉ seen) ∧ HasUnhashableId envelope

theorem Unhashable.here {expected seen : Finset String} {envelope : Envelope} {rest : List Json}
    (h : HasUnhashableId envelope) : Unhashable expected seen (.obj envelope :: rest) :=
  ⟨[], [], envelope, rest, rfl, .nil, List.nodup_nil, nofun, h⟩

theorem unhashable_cons {expected seen : Finset String} {envelope : Envelope} {rest : List Json}
    {id : String} (hid : Json.get? envelope "id" = some (.str id)) :
    Unhashable expected seen (.obj envelope :: rest) ↔
      Answers envelope id ∧ id ∈ expected ∧ id ∉ seen ∧
        Unhashable expected (insert id seen) rest := by
  constructor
  · rintro ⟨es, ids, stuck, rest', hentries, hanswers, hnodup, hids, hstuck⟩
    cases hanswers with
    | nil =>
      obtain ⟨rfl, rfl⟩ : envelope = stuck ∧ rest = rest' := by simpa using hentries
      obtain ⟨_, h⟩ | ⟨_, h⟩ := hstuck <;> simp [hid] at h
    | @cons first id' es ids hfirst hanswers =>
      obtain ⟨rfl, rfl⟩ : envelope = first ∧ rest = es.map .obj ++ .obj stuck :: rest' := by
        simpa using hentries
      obtain rfl : id = id' := by simpa [hid] using hfirst.id_eq
      obtain ⟨hnotin, hnodup⟩ := List.nodup_cons.mp hnodup
      obtain ⟨⟨hexpected, hseen⟩, hids⟩ := List.forall_mem_cons.mp hids
      refine ⟨hfirst, hexpected, hseen, es, ids, stuck, rest', rfl, hanswers, hnodup, ?_, hstuck⟩
      intro i hi
      have hne : i ≠ id := fun h => hnotin (h ▸ hi)
      exact ⟨(hids i hi).1, by simp [hne, (hids i hi).2]⟩
  · rintro ⟨hfirst, hexpected, hseen, es, ids, stuck, rest', rfl, hanswers, hnodup, hids, hstuck⟩
    refine ⟨envelope :: es, id :: ids, stuck, rest', rfl, .cons hfirst hanswers, ?_, ?_, hstuck⟩
    · apply List.nodup_cons.mpr ⟨fun hmem => ?_, hnodup⟩
      exact (hids id hmem).2 (Finset.mem_insert_self id seen)
    · intro i hi
      obtain rfl | hi := List.mem_cons.mp hi
      · exact ⟨hexpected, hseen⟩
      · exact ⟨(hids i hi).1, fun h => (hids i hi).2 (Finset.mem_insert_of_mem h)⟩

theorem Unhashable.head {expected seen : Finset String} {entry : Json} {rest : List Json}
    (h : Unhashable expected seen (entry :: rest)) :
    ∃ envelope, entry = .obj envelope ∧
      ((∃ id, Json.get? envelope "id" = some (.str id)) ∨ HasUnhashableId envelope) := by
  obtain ⟨es, ids, envelope, rest', hentries, hanswers, -, -, hstuck⟩ := h
  cases hanswers with
  | nil => exact ⟨envelope, (List.cons.inj hentries).1, .inr hstuck⟩
  | @cons first id es ids hfirst hanswers =>
    exact ⟨first, (List.cons.inj hentries).1, .inl ⟨id, hfirst.id_eq⟩⟩

/-- An error of the loop at one entry: the entries after it have the error, the id of the entry
is unhashable, or the entry is no response to a new expected id. -/
theorem checkEnvelopes_cons_error {expected seen : Finset String} {entry : Json}
    {entries : List Json} {e : ClientError}
    (h : checkEnvelopes expected (entry :: entries) seen = .error e) :
    (∃ envelope id, entry = .obj envelope ∧ Answers envelope id ∧ id ∈ expected ∧ id ∉ seen ∧
        checkEnvelopes expected entries (insert id seen) = .error e) ∨
      (e = .type ∧ Unhashable expected seen (entry :: entries)) ∨
      (∃ text, e = .connection text) ∧ ¬ Unhashable expected seen (entry :: entries) := by
  unfold checkEnvelopes at h
  split at h
  · cases ‹entry :: entries = []›
  · rename_i envelope rest heq
    obtain ⟨rfl, rfl⟩ := List.cons.inj heq
    split at h
    · rename_i id hid
      rw [unhashable_cons hid]
      split_ifs at h with hnew
      · split at h
        · rename_i hvalid
          split at h
          · cases h
          · rename_i e' he'
            obtain rfl := Except.error.inj h
            exact .inl ⟨envelope, id, rfl, validateResponse_eq_ok.mp hvalid, hnew.1, hnew.2, he'⟩
        · rename_i e' he'
          obtain rfl := Except.error.inj h
          refine .inr (.inr ⟨validateResponse_error he', fun hstuck => ?_⟩)
          cases he'.symm.trans (validateResponse_eq_ok.mpr hstuck.1)
      · refine .inr (.inr ⟨⟨_, (Except.error.inj h).symm⟩, fun hstuck => ?_⟩)
        exact hnew ⟨hstuck.2.1, hstuck.2.2.1⟩
    · rename_i items hid
      exact .inr (.inl ⟨(Except.error.inj h).symm, .here (.inl ⟨items, hid⟩)⟩)
    · rename_i fields hid
      exact .inr (.inl ⟨(Except.error.inj h).symm, .here (.inr ⟨fields, hid⟩)⟩)
    · rename_i hstr harr hobj
      refine .inr (.inr ⟨⟨_, (Except.error.inj h).symm⟩, fun hstuck => ?_⟩)
      obtain ⟨envelope', heq', ⟨id, hid⟩ | ⟨items, hid⟩ | ⟨fields, hid⟩⟩ := hstuck.head
      · exact hstr id (Json.obj.inj heq' ▸ hid)
      · exact harr items (Json.obj.inj heq' ▸ hid)
      · exact hobj fields (Json.obj.inj heq' ▸ hid)
  · rename_i hne heq
    obtain ⟨rfl, rfl⟩ := List.cons.inj heq
    refine .inr (.inr ⟨⟨_, (Except.error.inj h).symm⟩, fun hstuck => ?_⟩)
    obtain ⟨envelope, heq', -⟩ := hstuck.head
    exact hne envelope heq'

/-- The loop raises a connection error, or gets stuck at an unhashable id. -/
theorem checkEnvelopes_error {expected seen : Finset String} {entries : List Json}
    {e : ClientError} (h : checkEnvelopes expected entries seen = .error e) :
    (∃ text, e = .connection text) ∧ ¬ Unhashable expected seen entries ∨
      e = .type ∧ Unhashable expected seen entries := by
  induction entries generalizing seen with
  | nil =>
    rw [checkEnvelopes] at h
    split_ifs at h
    refine .inl ⟨⟨_, (Except.error.inj h).symm⟩, ?_⟩
    rintro ⟨es, ids, envelope, rest, hentries, -⟩
    simp at hentries
  | cons entry entries ih =>
    obtain ⟨envelope, id, rfl, hanswers, hexpected, hseen, hrest⟩ | hstuck | htext :=
      checkEnvelopes_cons_error h
    · rw [unhashable_cons hanswers.id_eq]
      obtain ⟨htext, hnot⟩ | ⟨htype, hunhashable⟩ := ih hrest
      · exact .inl ⟨htext, fun hstuck => hnot hstuck.2.2.2⟩
      · exact .inr ⟨htype, hanswers, hexpected, hseen, hunhashable⟩
    · exact .inr hstuck
    · exact .inl htext

/-- The one kind of message that is rejected with a `TypeError`. -/
def UnhashableReply : Operation → Json → Prop
  | .batch expected, .arr entries => Unhashable expected ∅ entries
  | _, _ => False

theorem batchResponse_error {expected : Finset String} {message : Json} {e : ClientError}
    (h : batchResponse expected message = .error e) :
    (∃ text, e = .connection text) ↔ ¬ UnhashableReply (.batch expected) message := by
  unfold batchResponse at h
  split at h
  · have hnot : ∀ envelope, ¬ UnhashableReply (.batch expected) (.obj envelope) := fun _ => id
    refine iff_of_true ?_ (hnot _)
    split at h
    · split_ifs at h
      · split at h
        · nomatch h
        · exact Except.error.inj h ▸ validateError_error ‹_›
      · exact ⟨_, (Except.error.inj h).symm⟩
    · exact ⟨_, (Except.error.inj h).symm⟩
  · split at h
    · nomatch h
    · rename_i e' he'
      obtain rfl := Except.error.inj h
      obtain ⟨htext, hnot⟩ | ⟨rfl, hunhashable⟩ := checkEnvelopes_error he'
      · exact iff_of_true htext hnot
      · exact iff_of_false nofun fun hnot => hnot hunhashable
  · rename_i harr
    refine iff_of_true ⟨_, (Except.error.inj h).symm⟩ fun hstuck => ?_
    cases message with
    | arr entries => exact harr entries rfl
    | _ => exact hstuck

theorem unhashable_not_notice {op : Operation} {message : Json} (h : UnhashableReply op message) :
    ¬ IsNotice message := by
  rintro ⟨envelope, rfl, -⟩
  cases op <;> exact h

theorem receiveNotification_error {c : Codec} {data : Bytes} {e : ClientError}
    (h : ClientChannel.receiveNotification c data = .error e) : ∃ text, e = .connection text := by
  unfold ClientChannel.receiveNotification at h
  split at h
  · exact ⟨_, (Except.error.inj h).symm⟩
  · split_ifs at h
    · exact notification_error h
    · exact ⟨_, (Except.error.inj h).symm⟩
  · exact ⟨_, (Except.error.inj h).symm⟩

theorem accept_error {op : Operation} {message : Json} {e : ClientError}
    (h : op.accept message = .error e) :
    (∃ text, e = .connection text) ↔ ¬ UnhashableReply op message := by
  cases op with
  | call requestId =>
    cases hr : response message requestId with
    | ok envelope => simp [Operation.accept, hr, Except.map] at h
    | error e' =>
      obtain rfl : e' = e := by simpa [Operation.accept, hr, Except.map] using h
      exact iff_of_true (response_error hr) id
  | batch expected =>
    cases hr : batchResponse expected message with
    | ok reply => simp [Operation.accept, hr, Except.map] at h
    | error e' =>
      obtain rfl : e' = e := by simpa [Operation.accept, hr, Except.map] using h
      exact batchResponse_error hr
  | receiveNotification => exact iff_of_true ⟨_, (Except.error.inj h).symm⟩ id

theorem readMessage_error {op : Operation} {c : Codec} {data : Bytes} {message : Json}
    (hdec : c.decode data = some message) {e : ClientError}
    (h : readMessage c op.accept data = .returns (.error e)) :
    (∃ text, e = .connection text) ↔ ¬ UnhashableReply op message := by
  by_cases hn : IsNotice message
  · refine iff_of_true ?_ fun hstuck => unhashable_not_notice hstuck hn
    obtain ⟨envelope, rfl, hn⟩ := hn
    obtain ⟨n, hread⟩ | ⟨e', he', hread⟩ := readMessage_of_notice op.accept hdec hn
    · nomatch hread.symm.trans h
    · obtain rfl := Except.error.inj (Turn.returns.inj (hread.symm.trans h))
      exact notification_error he'
  · rw [readMessage_of_not_notice _ hdec hn] at h
    exact accept_error (Turn.returns.inj h)

theorem raises_locked {op : Operation} (h : op ≠ .receiveNotification) (c : Codec) (data : Bytes) :
    op.raises c data = match readMessage c op.accept data with
      | .returns (.error e) => some e
      | _ => none := by
  cases op with
  | receiveNotification => exact absurd rfl h
  | _ => rfl

/-- The exception on a decoded value. -/
theorem raises_error {op : Operation} {c : Codec} {data : Bytes} {message : Json}
    (hdec : c.decode data = some message) {e : ClientError} (h : op.raises c data = some e) :
    (∃ text, e = .connection text) ↔ ¬ UnhashableReply op message := by
  by_cases hop : op = .receiveNotification
  · subst hop
    simp only [Operation.raises] at h
    split at h
    · nomatch h
    · rename_i e' he'
      obtain rfl := Option.some.inj h
      exact iff_of_true (receiveNotification_error he') id
  · rw [raises_locked hop] at h
    split at h
    · rename_i e' he'
      obtain rfl := Option.some.inj h
      exact readMessage_error hdec he'
    · nomatch h

/-- The envelope with the unhashable id is no response. -/
theorem Unhashable.not_accepted {expected : Finset String} {entries : List Json}
    (h : Unhashable expected ∅ entries) {reply : BatchReply} :
    batchResponse expected (.arr entries) ≠ .ok reply := by
  intro hreply
  obtain ⟨_, es, -, rfl⟩ | ⟨_, _, heq, -⟩ := batchResponse_eq_ok hreply
  · obtain ⟨hmap, ids, hanswers, -⟩ := batchResponse_responses.mp hreply
    obtain ⟨_, _, envelope, rest, hentries, -, -, -, hstuck⟩ := h
    have hmem : Json.obj envelope ∈ es.map .obj := by simp [← hmap, hentries]
    obtain ⟨envelope', henvelope, heq⟩ := List.mem_map.mp hmem
    obtain rfl := Json.obj.inj heq
    obtain ⟨id, -, hanswer⟩ := forall₂_exists_right hanswers henvelope
    obtain ⟨_, hid⟩ | ⟨_, hid⟩ := hstuck <;> nomatch hanswer.id_eq.symm.trans hid
  · nomatch heq

theorem raises_of_unhashable {op : Operation} {c : Codec} {data : Bytes} {message : Json}
    (hdec : c.decode data = some message) (h : UnhashableReply op message) :
    ∃ e, op.raises c data = some e := by
  cases op with
  | batch expected =>
    cases message with
    | arr entries =>
      cases hr : batchResponse expected (.arr entries) with
      | ok reply => exact absurd hr (Unhashable.not_accepted h)
      | error e =>
        refine ⟨e, ?_⟩
        rw [raises_locked (by nofun), readMessage_of_not_notice _ hdec (unhashable_not_notice h)]
        simp only [Operation.accept, hr, Except.map]
    | _ => exact h.elim
  | _ => exact h.elim

section
variable {config : ClientChannel.Config} {s : ClientChannel.State Reply} {k : ℕ}
  {sent data : Bytes} {op : Operation}
open ClientChannel

theorem exchange_locked (h : op ≠ .receiveNotification) :
    op.exchange sent = .locked sent (some op.accept) := by
  cases op with
  | receiveNotification => exact absurd rfl h
  | _ => rfl

/-- An exception closes the client. -/
theorem step_of_raises (hphase : s.phases k = .receiving)
    (hop : s.exchanges k = some (op.exchange sent)) {e : ClientError}
    (h : op.raises config.codec data = some e) :
    step config s (.received k data) = some (abort s k [.received data]) := by
  simp only [step, hphase, hop, Option.bind_some]
  by_cases hreceive : op = .receiveNotification
  · subst hreceive
    simp only [Operation.raises] at h
    split at h
    · cases h
    · rename_i e' he'
      simp only [Operation.exchange, received, he']
  · rw [raises_locked hreceive] at h
    rw [exchange_locked hreceive]
    split at h
    · rename_i e' he'
      simp only [received, he']
    · cases h

/-- Without one the message is the reply or a notification. -/
theorem step_of_not_raises (hphase : s.phases k = .receiving)
    (hop : s.exchanges k = some (op.exchange sent)) (h : op.raises config.codec data = none) :
    ∃ s', step config s (.received k data) = some s' ∧
      (s'.phases k = .over .returned ∨ (notice config.codec data).isSome) := by
  simp only [step, hphase, hop, Option.bind_some]
  have hupdate : ∀ phase, Function.update s.phases k phase k = phase := fun phase =>
    Function.update_self ..
  by_cases hreceive : op = .receiveNotification
  · subst hreceive
    simp only [Operation.raises] at h
    split at h
    · rename_i n hn
      simp only [Operation.exchange, received, hn]
      exact ⟨_, rfl, .inl (hupdate _)⟩
    · cases h
  · rw [raises_locked hreceive] at h
    rw [exchange_locked hreceive]
    cases hread : readMessage config.codec op.accept data with
    | delivers n =>
      have hsome : (notice config.codec data).isSome := by rw [notice_of_delivers hread]; rfl
      simp only [received, hread]
      split_ifs
      · exact ⟨_, rfl, .inr hsome⟩
      · exact ⟨_, rfl, .inr hsome⟩
    | returns r =>
      cases r with
      | ok reply =>
        simp only [received, hread]
        exact ⟨_, rfl, .inl (hupdate _)⟩
      | error e => simp [hread] at h

theorem closed_run {es es' : List (Event Reply)} {t : ClientChannel.State Reply}
    (hrun : Machine.run (step config) start es = some s) (hclosed : s.closed = true)
    (hrun' : Machine.run (step config) s es' = some t) : t.closed = true := by
  have hinv : Inv s := (inv_exact_run hrun).1
  have hboth : Inv t ∧ t.closed = true := by
    refine Machine.invariant (P := fun s => Inv s ∧ s.closed = true) ?_ ⟨hinv, hclosed⟩ hrun'
    rintro s e s' ⟨hs, hclosed⟩ hstep
    have hm := step_moves hs hstep
    exact ⟨hm.inv hs, hm.closed hclosed⟩
  exact hboth.2

/-- Every operation comes to wait for a message. -/
theorem exists_receiving (config : Config) (op : Operation) (sent : Bytes) :
    ∃ es s, Machine.run (step config) start es = some s ∧ s.phases 0 = .receiving ∧
      s.exchanges 0 = some (op.exchange sent) := by
  by_cases hreceive : op = .receiveNotification
  · subst hreceive
    exact ⟨[.begin 0 .receiveNotification, .acquire 0], _, rfl, rfl, rfl⟩
  · rw [exchange_locked hreceive]
    exact ⟨[.begin 0 (.locked sent (some op.accept)), .acquire 0, .sent 0], _, rfl, rfl, rfl⟩

/-- A value on which an operation raises nothing is its reply or a notification. On the
others it raises a connection error and the client stays closed, if and only if the value
is no list that breaks off at an unhashable id. -/
theorem rejected_reply_iff (config : Config) (op : Operation) (data : Bytes) (message : Json)
    (hdec : config.codec.decode data = some message) :
    (∀ es s k sent, Machine.run (step config) start es = some s → s.phases k = .receiving →
      s.exchanges k = some (op.exchange sent) → ∃ s', step config s (.received k data) = some s' ∧
        match op.raises config.codec data with
        | none => s'.phases k = .over .returned ∨ (notice config.codec data).isSome
        | some e => (∃ text, e = .connection text) ∧ (s'.phases k).failed = true ∧
          ∀ es' t, Machine.run (step config) s' es' = some t → t.closed = true) ↔
      ¬ UnhashableReply op message := by
  constructor
  · intro h hstuck
    obtain ⟨e, he⟩ := raises_of_unhashable hdec hstuck
    obtain ⟨es, s, hrun, hphase, hop⟩ := exists_receiving config op []
    obtain ⟨s', -, hs'⟩ := h es s 0 [] hrun hphase hop
    simp only [he] at hs'
    exact (raises_error hdec he).mp hs'.1 hstuck
  · intro hstuck es s k sent hrun hphase hop
    cases he : op.raises config.codec data with
    | none => exact step_of_not_raises hphase hop he
    | some e =>
      have hstep := step_of_raises hphase hop he
      refine ⟨_, hstep, (raises_error hdec he).mpr hstuck, ?_, fun es' t hrun' => ?_⟩
      · show (Function.update s.phases k Phase.aborting k).failed = true
        rw [Function.update_self]
        rfl
      · have hafter : Machine.run (step config) start (es ++ [.received k data]) =
            some (abort s k [.received data]) := by
          rw [Machine.run_append, hrun]
          exact Machine.run_cons_of hstep
        exact closed_run hafter rfl hrun'

/-- A list with one object whose id is an empty list. -/
def unhashableReply : Json := .arr [.obj [("id", .arr [])]]

theorem unhashableReply_raises :
    (Operation.batch {"a"}).raises msgSpecJsonCodec (Json.encode unhashableReply) = some .type ∧
      ¬ ∃ text, ClientError.type = .connection text := by
  constructor
  · rw [raises_locked (fun h => by cases h), readMessage_of_not_notice _
      (msgSpecJsonCodec_roundTrips unhashableReply _ rfl) (by rintro ⟨_, ⟨⟩, -⟩)]
    simp [Operation.accept, unhashableReply, batchResponse, checkEnvelopes, Except.map]
  · rintro ⟨text, ⟨⟩⟩

/-- The null value is no response. -/
theorem rejected_reply_iff_null :
    ∃ s', Machine.run (step ⟨msgSpecJsonCodec, false⟩) start
        [.begin 0 ((Operation.call "a").exchange []), .acquire 0, .sent 0,
          .received 0 (Json.encode .null)] = some s' ∧ (s'.phases 0).failed = true ∧
      s'.closed = true := by
  have hdec := msgSpecJsonCodec_roundTrips .null _ rfl
  have hraises : (Operation.call "a").raises msgSpecJsonCodec (Json.encode .null) =
      some (.connection "Invalid RPC response envelope") := by
    rw [raises_locked (by nofun), readMessage_of_not_notice _ hdec (by rintro ⟨_, ⟨⟩, -⟩)]
    rfl
  obtain ⟨s', hstep, hs'⟩ := (rejected_reply_iff ⟨msgSpecJsonCodec, false⟩ (.call "a") _ .null
    hdec).mpr id [.begin 0 ((Operation.call "a").exchange []), .acquire 0, .sent 0] _ 0 []
    rfl rfl rfl
  simp only [hraises] at hs'
  exact ⟨s', hstep, hs'.2.1, hs'.2.2 [] s' rfl⟩

end

end WireRpc.Client
