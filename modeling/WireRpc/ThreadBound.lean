import WireRpc.ThreadDelivery

/-!
# The bound of an inbox

`send` compares the size of the other end's inbox with `max_queue_size`. The messages that
are posted to the other loop and are not in the inbox yet are not counted.
-/
namespace WireRpc.ThreadTransport
open Library

/-- Neither end holds more unread messages than it may. -/
def Bounded (c : Config) (s : State) : Prop := ∀ x, (s x).unread.length ≤ c.maxQueueSize

/-- The next instruction of the thread is that of a `send` that found room: it hands its
message over. -/
def posting : Option Segment → Bool
  | some (.sendPost _ _) => true
  | _ => false

def HandsOver (own peer : End) (action : Action) : Prop :=
  action = .next ∧ peer.stopped = false ∧ posting own.running = true

/-- The call of `send` whose next instruction compares the size of the other inbox. -/
def comparing : Option Segment → Option ℕ
  | some (.sendSize t _) => some t
  | _ => none

/-- A `send` that comes upon an end with as many unread messages as it may hold raises
`ConnectionError('Peer inbox full')`. -/
def RaisesFull (c : Config) (s : State) (e : Side × Action) : Prop :=
  ∀ t, e.2 = .next → comparing (s e.1).running = some t →
    c.maxQueueSize ≤ (s e.1.peer).unread.length →
      ∀ s', step c s e = some s' → (s' e.1).sends t = .raised .full

/-- When a `send` looks at an end with as many unread messages as it may hold, the inbox of
that end alone has as many items: it does not take the messages posted to the loop to fill it. -/
def InboxTells (c : Config) (s : State) (e : Side × Action) : Prop :=
  e.2 = .next → comparing (s e.1).running ≠ none →
    c.maxQueueSize ≤ (s e.1.peer).unread.length →
      c.maxQueueSize ≤ ((s e.1.peer).inbox.getD []).length

instance (c : Config) (s : State) (e : Side × Action) : Decidable (InboxTells c s e) :=
  inferInstanceAs (Decidable (_ → _ → _ → _))

variable {c : Config} {own own' peer : End} {posts : List (Option Bytes)}

theorem take_unread (e : End) (t : ℕ) : (take e t).unread.length ≤ e.unread.length := by
  unfold take
  split
  case h_1 item rest hinbox =>
    unfold End.unread
    rw [hinbox]
    exact List.Sublist.length_le ((List.sublist_cons_self item _).filterMap id)
  case h_2 => exact le_rfl

/-- What an end does takes messages from it, if it changes how many it holds. -/
theorem start_unread {action : Action} (hs : start c own peer action = some own') :
    own'.unread.length ≤ own.unread.length := by
  cases action with
  | connect =>
    simp only [start] at hs
    split_ifs at hs
    · exact Option.some.inj hs ▸ le_rfl
    · obtain rfl := Option.some.inj hs
      apply List.Sublist.length_le
      exact (List.sublist_append_right _ own.callbacks).filterMap id
  | callback =>
    simp only [start] at hs
    split at hs
    case h_1 item rest inbox hcallbacks hinbox =>
      obtain rfl := Option.some.inj hs
      simp [End.unread, hcallbacks, hinbox]
    case h_2 => cases hs
  | recv t =>
    obtain ⟨-, hs⟩ := Option.ite_none_right_eq_some.mp hs
    split_ifs at hs
    · exact Option.some.inj hs ▸ le_rfl
    · exact Option.some.inj hs ▸ take_unread own t
  | wake t =>
    obtain ⟨-, hs⟩ := Option.ite_none_right_eq_some.mp hs
    exact Option.some.inj hs ▸ take_unread own t
  | send t data =>
    obtain ⟨-, hs⟩ := Option.ite_none_right_eq_some.mp hs
    split_ifs at hs
    all_goals exact Option.some.inj hs ▸ le_rfl
  | close =>
    simp only [start] at hs
    split_ifs at hs
    all_goals exact Option.some.inj hs ▸ le_rfl
  | change t data => exact Option.some.inj hs ▸ le_rfl
  | stop => exact Option.some.inj hs ▸ le_rfl
  | resume t | timeout t | cancelSend t | cancelRecv t =>
    obtain ⟨-, hs⟩ := Option.ite_none_right_eq_some.mp hs
    exact Option.some.inj hs ▸ le_rfl
  | next => cases hs

theorem advance_unread (c : Config) (own peer : End) (segment : Segment) :
    (advance c own peer segment).1.unread = own.unread := by
  cases segment with
  | closeInbox =>
    unfold End.unread
    simp only [advance, End.goto]
    cases hinbox : own.inbox with
    | none => rfl
    | some inbox => simp [List.reduceOption]
  | connectLoop | connectReady | sendInbox | sendCopy | closeReady => rfl
  | sendClosed | sendLoop | sendSize | sendPost | closeLoop | closePeerInbox | closePost =>
    simp only [advance]
    split_ifs
    all_goals rfl

theorem posting_iff {running : Option Segment} :
    posting running = true ↔ ∃ t data, running = some (.sendPost t data) := by
  constructor
  · intro h
    unfold posting at h
    split at h
    case h_1 t data => exact ⟨t, data, rfl⟩
    case h_2 => cases h
  · rintro ⟨t, data, rfl⟩
    rfl

theorem comparing_eq_some {running : Option Segment} {t : ℕ} :
    comparing running = some t ↔ ∃ data, running = some (.sendSize t data) := by
  constructor
  · intro h
    unfold comparing at h
    split at h
    case h_1 u data =>
      obtain rfl := Option.some.inj h
      exact ⟨data, rfl⟩
    case h_2 => cases h
  · rintro ⟨data, rfl⟩
    rfl

theorem step_next {s : State} {x : Side} {segment : Segment}
    (hrunning : (s x).running = some segment) :
    step c s (x, .next) = some (put s x (advance c (s x) (s x.peer) segment)) := by
  simp only [step, act, hrunning, Option.map_some]

/-- A message is posted exactly when a `send` hands it over. -/
theorem act_posts {action : Action} (hs : act c own peer action = some (own', posts)) :
    own'.unread.length ≤ own.unread.length ∧
      (HandsOver own peer action ∧ posts.reduceOption.length = 1 ∨
        ¬ HandsOver own peer action ∧ posts.reduceOption.length = 0) := by
  unfold act at hs
  split at hs
  case h_1 segment hrunning =>
    have hadvance : advance c own peer segment = (own', posts) := Option.some.inj hs
    have hunread := advance_unread c own peer segment
    have hposts := advance_posts c own peer segment
    rw [hadvance] at hunread hposts
    refine ⟨le_of_eq (congrArg List.length hunread), ?_⟩
    obtain ⟨hnone, hstopped⟩ | ⟨t, data, rfl, hopen, hsome, -⟩ := hposts
    · refine Or.inr ⟨?_, List.length_eq_zero_iff.mpr hnone⟩
      rintro ⟨-, hopen, hposting⟩
      obtain ⟨t, data, hpost⟩ := posting_iff.mp hposting
      have hsegment : segment = .sendPost t data := Option.some.inj (hrunning.symm.trans hpost)
      cases (hstopped t data hsegment).symm.trans hopen
    · refine Or.inl ⟨⟨rfl, hopen, posting_iff.mpr ⟨t, data, hrunning⟩⟩, ?_⟩
      exact congrArg (List.length ∘ List.reduceOption) hsome
  case h_2 => cases hs
  case h_3 hrunning =>
    split_ifs at hs
    obtain ⟨e, hstart, he⟩ := Option.map_eq_some_iff.mp hs
    obtain ⟨rfl, rfl⟩ := Prod.mk.inj he
    refine ⟨start_unread hstart, Or.inr ⟨?_, rfl⟩⟩
    rintro ⟨-, -, hposting⟩
    rw [hrunning] at hposting
    cases hposting

/-- A `send` comes to its hand-over only from the comparison, which found room. -/
theorem advance_posting {segment : Segment}
    (h : posting (advance c own peer segment).1.running = true) :
    ∃ t data, segment = .sendSize t data ∧ (peer.inbox.getD []).length < c.maxQueueSize ∧
      (advance c own peer segment).2 = [] := by
  cases segment with
  | sendSize t data =>
    simp only [advance] at h ⊢
    split_ifs at h ⊢ with hfull
    · cases h
    · exact ⟨t, data, rfl, Nat.lt_of_not_le hfull, rfl⟩
  | connectLoop | connectReady | sendInbox | sendCopy | closeReady | closeInbox => cases h
  | sendClosed | sendLoop | sendPost | closeLoop | closePeerInbox | closePost =>
    simp only [advance] at h
    split_ifs at h
    all_goals cases h

theorem start_posting {action : Action} (hidle : own.running = none)
    (hs : start c own peer action = some own') : posting own'.running = false := by
  have hrest : posting own.running = false := by rw [hidle]; rfl
  have htake (t : ℕ) : posting (take own t).running = false := by
    unfold take
    split
    · exact hrest
    · exact hrest
  cases action with
  | connect | close =>
    simp only [start] at hs
    split_ifs at hs
    · exact Option.some.inj hs ▸ hrest
    · exact Option.some.inj hs ▸ rfl
  | send t data =>
    obtain ⟨-, hs⟩ := Option.ite_none_right_eq_some.mp hs
    split_ifs at hs
    · exact Option.some.inj hs ▸ rfl
    · exact Option.some.inj hs ▸ rfl
    · exact Option.some.inj hs ▸ rfl
    · exact Option.some.inj hs ▸ hrest
  | resume t | timeout t | cancelSend t =>
    obtain ⟨-, hs⟩ := Option.ite_none_right_eq_some.mp hs
    exact Option.some.inj hs ▸ rfl
  | recv t =>
    obtain ⟨-, hs⟩ := Option.ite_none_right_eq_some.mp hs
    split_ifs at hs
    · exact Option.some.inj hs ▸ hrest
    · exact Option.some.inj hs ▸ htake t
  | wake t =>
    obtain ⟨-, hs⟩ := Option.ite_none_right_eq_some.mp hs
    exact Option.some.inj hs ▸ htake t
  | cancelRecv t =>
    obtain ⟨-, hs⟩ := Option.ite_none_right_eq_some.mp hs
    exact Option.some.inj hs ▸ hrest
  | callback =>
    simp only [start] at hs
    split at hs
    case h_1 => exact Option.some.inj hs ▸ hrest
    case h_2 => cases hs
  | change t data | stop => exact Option.some.inj hs ▸ hrest
  | next => cases hs

theorem act_posting {action : Action} (hs : act c own peer action = some (own', posts))
    (h : posting own'.running = true) :
    ∃ t, action = .next ∧ comparing own.running = some t ∧
      (peer.inbox.getD []).length < c.maxQueueSize ∧ posts = [] := by
  unfold act at hs
  split at hs
  case h_1 segment hrunning =>
    obtain ⟨rfl, rfl⟩ := Prod.mk.inj (Option.some.inj hs)
    obtain ⟨t, data, rfl, hroom, hposts⟩ := advance_posting h
    exact ⟨t, rfl, by rw [hrunning]; rfl, hroom, hposts⟩
  case h_2 => cases hs
  case h_3 hrunning =>
    split_ifs at hs
    obtain ⟨e, hstart, he⟩ := Option.map_eq_some_iff.mp hs
    obtain ⟨rfl, rfl⟩ := Prod.mk.inj he
    rw [start_posting hrunning hstart] at h
    cases h

/-- The bound, and the room that a `send` has found and not used yet. -/
structure Roomy (c : Config) (s : State) : Prop where
  bounded : Bounded c s
  room : ∀ x, posting (s x).running = true → (s x.peer).unread.length < c.maxQueueSize

/-- What a `send` found stays true until it hands its message over: only the other end changes
what it holds, and takes from it. -/
theorem Roomy.step {s s' : State} {e : Side × Action} (h : Roomy c s) (htells : InboxTells c s e)
    (hs : step c s e = some s') : Roomy c s' := by
  obtain ⟨x, action⟩ := e
  obtain ⟨⟨own', posts⟩, hact, rfl⟩ := Option.map_eq_some_iff.mp hs
  have hact : act c (s x) (s x.peer) action = some (own', posts) := hact
  obtain ⟨hown, hposts⟩ := act_posts hact
  have hpeer : (put s x (own', posts) x.peer).unread.length =
      (s x.peer).unread.length + posts.reduceOption.length := by
    rw [put_peer]
    simp [End.unread, List.reduceOption, Nat.add_assoc]
  have hbounded := h.bounded x.peer
  show Roomy c (put s x (own', posts))
  refine ⟨fun y => ?_, fun y => ?_⟩
  · obtain rfl | rfl := x.eq_or_eq_peer y
    · rw [put_self]
      exact hown.trans (h.bounded y)
    · obtain ⟨⟨-, -, hposting⟩, hone⟩ | ⟨-, hzero⟩ := hposts
      · have hroom := h.room x hposting
        omega
      · omega
  · obtain rfl | rfl := x.eq_or_eq_peer y
    · rw [put_self]
      intro hposting
      obtain ⟨t, rfl, hcomparing, hsize, rfl⟩ := act_posting hact hposting
      have hunread : (s y.peer).unread.length < c.maxQueueSize := by
        by_contra hfull
        have hinbox := htells rfl (by rw [hcomparing]; exact Option.some_ne_none t)
          (Nat.le_of_not_lt hfull)
        exact absurd hsize (Nat.not_lt_of_le hinbox)
      rw [hpeer]
      exact hunread
    · rw [put_peer, Side.peer_peer, put_self]
      intro hposting
      have hroom := h.room x.peer hposting
      rw [Side.peer_peer] at hroom
      exact hown.trans_lt hroom

/-- The comparison sees what is in the inbox, and nothing else. -/
theorem raisesFull_iff {s : State} {e : Side × Action} (h : Inv s) :
    RaisesFull c s e ↔ InboxTells c s e := by
  obtain ⟨x, action⟩ := e
  constructor
  · intro hraises hnext hcomparing hfull
    obtain ⟨t, ht⟩ := Option.ne_none_iff_exists'.mp hcomparing
    obtain ⟨data, hrunning⟩ := comparing_eq_some.mp ht
    by_contra hsize
    subst hnext
    have hraised := hraises t rfl ht hfull _ (step_next hrunning)
    rw [put_self, advance, if_neg hsize] at hraised
    obtain ⟨hsending, -⟩ := (h.standing x).allowed _ hrunning
    cases hsending.symm.trans hraised
  · intro htells t hnext ht hfull s' hs
    obtain ⟨data, hrunning⟩ := comparing_eq_some.mp ht
    subst hnext
    have hsize := htells rfl (by rw [ht]; exact Option.some_ne_none t) hfull
    obtain rfl := Option.some.inj ((step_next hrunning).symm.trans hs)
    rw [put_self, advance, if_pos hsize]
    exact Function.update_self ..

/-- No end ever holds more messages than it may, and each `send` that comes upon a full end
raises, exactly if the inbox of each full end that a `send` looks at is full by itself. -/
theorem inbox_bounded_iff (c : Config) (es : List (Side × Action)) :
    Machine.Throughout (step c) (Bounded c) pair es ∧
        Machine.Meets (step c) (RaisesFull c) pair es ↔
      Machine.Meets (step c) (InboxTells c) pair es := by
  have hmeets : Machine.Meets (step c) (RaisesFull c) pair es ↔
      Machine.Meets (step c) (InboxTells c) pair es :=
    Machine.meets_congr_of_invariant (I := Inv) (fun _ _ _ h hs => h.step hs)
      (fun _ _ h => raisesFull_iff h) inv_pair
  rw [hmeets]
  refine and_iff_right_of_imp fun htells => ?_
  have hroomy : Roomy c pair := ⟨fun _ => Nat.zero_le _, by rintro x ⟨⟩⟩
  exact Machine.throughout_of_meets (P := Roomy c) (fun _ _ _ h htells hs => h.step htells hs)
    (fun _ h => h.bounded) hroomy htells

/-- Two messages are sent while the other loop has something else to do. -/
def burstRun : List (Side × Action) :=
  List.flatten [[(.b, .connect)], nexts .b 2, [(.a, .send 0 [1])], nexts .a 6,
    [(.a, .send 1 [2])], nexts .a 6]

/-- Both fit in, for all `send` can see. -/
theorem inbox_overfilled : ∃ s, Machine.run (step limits) pair burstRun = some s ∧
    (s .a).sends 1 = .returned ∧ limits.maxQueueSize < (s .b).unread.length := by
  have hrun : (Machine.run (step limits) pair burstRun).map
      (fun s => ((s .a).sends 1, (s .b).unread.length)) = some (.returned, 2) := by
    decide +kernel
  obtain ⟨s, hs, hends⟩ := Option.map_eq_some_iff.mp hrun
  obtain ⟨hsends, hunread⟩ := Prod.mk.inj hends
  refine ⟨s, hs, hsends, ?_⟩
  rw [hunread]
  decide

/-- The first message is read before the second one is sent. -/
def drainedRun : List (Side × Action) :=
  List.flatten [[(.b, .connect)], nexts .b 2, [(.a, .send 0 [1])], nexts .a 6,
    [(.b, .callback), (.b, .recv 0), (.a, .send 1 [2])], nexts .a 6]

/-- The end that the second message comes to is full no more. -/
theorem inbox_bounded_iff_drained : ∃ s, Machine.run (step limits) pair drainedRun = some s ∧
    (s .a).sends 1 = .returned ∧
      Machine.Throughout (step limits) (Bounded limits) pair drainedRun := by
  have hrun : (Machine.run (step limits) pair drainedRun).map (fun s => (s .a).sends 1) =
      some .returned := by
    decide +kernel
  obtain ⟨s, hs, hsends⟩ := Option.map_eq_some_iff.mp hrun
  have htells : Machine.Meets (step limits) (InboxTells limits) pair drainedRun := by
    decide +kernel
  exact ⟨s, hs, hsends, ((inbox_bounded_iff limits drainedRun).mpr htells).1⟩

end WireRpc.ThreadTransport
