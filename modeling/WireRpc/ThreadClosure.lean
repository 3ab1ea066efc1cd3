import WireRpc.ThreadDelivery

/-!
# Readers of a closed channel

`close` puts one `None` into the inbox of either end, and a `recv` that takes it uses it up.
Each further `recv` that waits there has nothing to wake it: the end that closed sends nothing
more. So no call is left behind as long as, where a `None` is put, no more calls wait than there
are messages in the inbox and one, and no call is made afterwards without an item for it.
-/
namespace WireRpc.ThreadTransport
open Library

/-- The thread is inside `close`. -/
def closing : Option Segment → Bool
  | some .closeReady | some .closeInbox | some .closeLoop | some .closePeerInbox
  | some .closePost => true
  | _ => false

/-- An end has closed, and the callbacks it posted have run. -/
structure Settled (s : State) (y : Side) : Prop where
  closed : (s y).closed = true
  finished : closing (s y).running = false
  callbacks : (s y.peer).callbacks = []

/-- How many calls of `recv` the items serve: those that get a message in front of the first
`None`, and the one that gets the `None`. -/
def serving : List (Option Bytes) → ℕ
  | [] => 0
  | none :: _ => 1
  | some _ :: items => serving items + 1

/-- At most `n` calls of `recv` wait. -/
def AtMost (e : End) (n : ℕ) : Prop :=
  ∀ ts : Finset ℕ, (∀ t ∈ ts, e.recvs t = .waiting) → ts.card ≤ n

/-- The items serve every call that waits, unless the loop of the end is gone. -/
def ServedBy (e : End) (items : List (Option Bytes)) : Prop :=
  e.stopped = false → AtMost e (serving items)

def Served (e : End) : Prop := ServedBy e (e.inbox.getD [])

/-- Once the closing of one end has taken effect, each `recv` that waits at either end has an
item of its own to come: a message that arrived before, or the `None` behind them. -/
def NoneHangs (s : State) : Prop := ∀ y, Settled s y → ∀ x, Served (s x)

/-- The messages in front of the first `None`. -/
def ahead : List (Option Bytes) → ℕ
  | some _ :: items => ahead items + 1
  | _ => 0

/-- When an open end begins to close, and when it puts the `None` of the other one into its
inbox, no more calls wait there than there are messages, and one. After an end has closed,
`recv` is called on the other one while that is open only if its inbox has an item that no
call needs that waits. -/
def Provided (s : State) : Side × Action → Prop
  | (x, .close) => (s x).closed = false → AtMost (s x) (ahead ((s x).inbox.getD []) + 1)
  | (x, .callback) => (s x).closed = false → (s x).callbacks.head? = some none →
    AtMost (s x) (ahead ((s x).inbox.getD []) + 1)
  | (x, .recv _) => (s x).closed = false → Settled s x.peer → ∀ items, (s x).inbox = some items →
    ∃ n, serving items = n + 1 ∧ AtMost (s x) n
  | _ => True

variable {e e' : End} {n m : ℕ} {items : List (Option Bytes)}

theorem AtMost.mono (h : AtMost e n) (hle : n ≤ m) : AtMost e m :=
  fun ts hts => (h ts hts).trans hle

theorem AtMost.of_waiting (h : AtMost e n)
    (hrecvs : ∀ t, e'.recvs t = .waiting → e.recvs t = .waiting) : AtMost e' n :=
  fun ts hts => h ts fun t ht => hrecvs t (hts t ht)

theorem atMost_of_none (h : ∀ t, e.recvs t ≠ .waiting) : AtMost e n := by
  intro ts hts
  rw [Finset.eq_empty_of_forall_notMem fun t ht => h t (hts t ht), Finset.card_empty]
  exact Nat.zero_le n

/-- A call no longer waits. -/
theorem AtMost.wake (h : AtMost e (n + 1)) {t : ℕ} (ht : e.recvs t = .waiting)
    (ht' : e'.recvs t ≠ .waiting)
    (hrecvs : ∀ u, e'.recvs u = .waiting → e.recvs u = .waiting) : AtMost e' n := by
  intro ts hts
  have hnew : t ∉ ts := fun hmem => ht' (hts t hmem)
  have hcard : (insert t ts).card ≤ n + 1 := by
    apply h
    intro u hu
    obtain rfl | hu := Finset.mem_insert.mp hu
    · exact ht
    · exact hrecvs u (hts u hu)
  rw [Finset.card_insert_of_notMem hnew] at hcard
  exact Nat.le_of_succ_le_succ hcard

theorem not_atMost_zero {t : ℕ} (ht : e.recvs t = .waiting) : ¬AtMost e 0 := by
  intro h
  have hcard := h {t} fun u hu => Finset.mem_singleton.mp hu ▸ ht
  rw [Finset.card_singleton] at hcard
  omega

theorem serving_append (items more : List (Option Bytes)) :
    serving items ≤ serving (items ++ more) := by
  induction items with
  | nil => exact Nat.zero_le _
  | cons item items ih =>
    cases item with
    | none => exact le_rfl
    | some data => exact Nat.succ_le_succ ih

/-- A `None` at the end serves one call more than the messages in front of the first one. -/
theorem serving_concat_none (items : List (Option Bytes)) :
    serving (items ++ [none]) = ahead items + 1 := by
  induction items with
  | nil => rfl
  | cons item items ih =>
    cases item with
    | none => rfl
    | some data => exact congrArg Nat.succ ih

theorem serving_cons_le (item : Option Bytes) (items : List (Option Bytes)) :
    serving (item :: items) ≤ serving items + 1 := by
  cases item with
  | none => exact Nat.succ_le_succ (Nat.zero_le _)
  | some data => exact le_rfl

theorem outcome_ne_waiting (item : Option Bytes) : outcome item ≠ .waiting := by
  cases item with
  | none => rintro ⟨⟩
  | some data => rintro ⟨⟩

/-- A call that waits after another one was set waited before. -/
theorem waiting_of_update {recvs : ℕ → RecvPhase} {t u : ℕ} {phase : RecvPhase}
    (h : recvs t = .waiting ∨ phase ≠ .waiting)
    (hu : Function.update recvs t phase u = .waiting) : recvs u = .waiting := by
  by_cases hut : u = t
  · rw [hut, Function.update_self] at hu
    exact hut ▸ h.resolve_right (not_not_intro hu)
  · exact (Function.update_of_ne hut ..).symm.trans hu

theorem take_empty {own : End} {t : ℕ} (hinbox : own.inbox = some []) :
    take own t = own.setRecv t .waiting := by
  unfold take
  rw [hinbox]

theorem take_cons {own : End} {t : ℕ} {item : Option Bytes} {rest : List (Option Bytes)}
    (hinbox : own.inbox = some (item :: rest)) :
    take own t = { own with
      inbox := some rest
      popped := own.popped ++ [(t, item)] }.setRecv t (outcome item) := by
  unfold take
  rw [hinbox]

variable {c : Config} {s : State} {x : Side} {own own' peer : End} {posts : List (Option Bytes)}

/-- From this instruction on the other end is known to be connected. -/
def reaches : Segment → Bool
  | .sendCopy _ | .sendSize _ _ | .sendPost _ _ | .closePeerInbox | .closePost => true
  | _ => false

/-- Only a connected end has calls that wait, and callbacks. -/
structure Bound (e : End) : Prop where
  waits : ∀ t, e.recvs t = .waiting → e.loop = true
  inbox : e.loop = true → e.inbox.isSome = true
  called : e.callbacks ≠ [] → e.loop = true
  connecting : e.running = some .connectLoop → e.inbox.isSome = true

/-- What an end never takes back. -/
structure Grows (own own' : End) : Prop where
  loop : own.loop = true → own'.loop = true
  stopped : own.stopped = true → own'.stopped = true
  announced : own.announced = true → own'.announced = true
  callbacks : own.callbacks = [] → own'.callbacks = []

theorem Grows.quiet (hloop : own'.loop = own.loop) (hstopped : own'.stopped = own.stopped)
    (hannounced : own'.announced = own.announced) (hcallbacks : own'.callbacks = own.callbacks) :
    Grows own own' :=
  ⟨fun h => hloop ▸ h, fun h => hstopped ▸ h, fun h => hannounced ▸ h, fun h => hcallbacks ▸ h⟩

/-- Nothing that matters here changes but the calls that wait, and those get fewer. -/
theorem Bound.congr (h : Bound own) (hloop : own'.loop = own.loop) (hinbox : own'.inbox = own.inbox)
    (hcallbacks : own'.callbacks = own.callbacks) (hrunning : own'.running ≠ some .connectLoop)
    (hrecvs : ∀ t, own'.recvs t = .waiting → own.recvs t = .waiting) : Bound own' where
  waits t ht := hloop ▸ h.waits t (hrecvs t ht)
  inbox hl := hinbox ▸ h.inbox (hloop ▸ hl)
  called hc := hloop ▸ h.called (hcallbacks ▸ hc)
  connecting hr := absurd hr hrunning

theorem Bound.take {t : ℕ} (h : Bound own) (hidle : own.running = none)
    (hloop : own.loop = true) : Bound (take own t) := by
  have hrunning : own.running ≠ some .connectLoop := by simp [hidle]
  unfold ThreadTransport.take
  split
  case h_1 item rest hinbox =>
    exact ⟨fun _ _ => hloop, fun _ => rfl, h.called, fun hr => absurd hr hrunning⟩
  case h_2 => exact ⟨fun _ _ => hloop, h.inbox, h.called, fun hr => absurd hr hrunning⟩

theorem Bound.start {action : Action} (h : Bound own) (hstanding : Standing own)
    (hidle : own.running = none) (hs : start c own peer action = some own') :
    Bound own' ∧ Grows own own' := by
  have hrest : own.running ≠ some .connectLoop := by simp [hidle]
  have htake (t : ℕ) : Grows own (ThreadTransport.take own t) := by
    unfold ThreadTransport.take
    split
    all_goals exact Grows.quiet rfl rfl rfl rfl
  cases action with
  | connect =>
    simp only [ThreadTransport.start] at hs
    split_ifs at hs
    · exact Option.some.inj hs ▸ ⟨h, Grows.quiet rfl rfl rfl rfl⟩
    · refine Option.some.inj hs ▸ ⟨⟨h.waits, fun _ => rfl, h.called, fun _ => rfl⟩, ?_⟩
      exact Grows.quiet rfl rfl rfl rfl
  | send t data =>
    obtain ⟨-, hs⟩ := Option.ite_none_right_eq_some.mp hs
    split_ifs at hs
    · exact Option.some.inj hs ▸ ⟨h.congr rfl rfl rfl (by rintro ⟨⟩) fun _ ht => ht,
        Grows.quiet rfl rfl rfl rfl⟩
    · exact Option.some.inj hs ▸ ⟨h.congr rfl rfl rfl (by rintro ⟨⟩) fun _ ht => ht,
        Grows.quiet rfl rfl rfl rfl⟩
    · exact Option.some.inj hs ▸ ⟨h.congr rfl rfl rfl (by rintro ⟨⟩) fun _ ht => ht,
        Grows.quiet rfl rfl rfl rfl⟩
    · exact Option.some.inj hs ▸ ⟨h.congr rfl rfl rfl hrest fun _ ht => ht,
        Grows.quiet rfl rfl rfl rfl⟩
  | change t data =>
    exact Option.some.inj hs ▸ ⟨h.congr rfl rfl rfl hrest fun _ ht => ht,
      Grows.quiet rfl rfl rfl rfl⟩
  | resume t | timeout t | cancelSend t =>
    obtain ⟨-, hs⟩ := Option.ite_none_right_eq_some.mp hs
    exact Option.some.inj hs ▸ ⟨h.congr rfl rfl rfl (by rintro ⟨⟩) fun _ ht => ht,
      Grows.quiet rfl rfl rfl rfl⟩
  | recv t =>
    obtain ⟨-, hs⟩ := Option.ite_none_right_eq_some.mp hs
    split_ifs at hs with hshut
    · have hawake : RecvPhase.raised .closed ≠ .waiting := by rintro ⟨⟩
      exact Option.some.inj hs ▸ ⟨h.congr rfl rfl rfl hrest fun _ hu =>
        waiting_of_update (.inr hawake) hu, Grows.quiet rfl rfl rfl rfl⟩
    · have hloop := hstanding.loop hrest
        (Option.isSome_iff_ne_none.mpr fun hnone => hshut (Or.inr hnone))
      exact Option.some.inj hs ▸ ⟨h.take hidle hloop, htake t⟩
  | wake t =>
    obtain ⟨hwaiting, hs⟩ := Option.ite_none_right_eq_some.mp hs
    exact Option.some.inj hs ▸ ⟨h.take hidle (h.waits t hwaiting), htake t⟩
  | cancelRecv t =>
    obtain ⟨-, hs⟩ := Option.ite_none_right_eq_some.mp hs
    have hawake : RecvPhase.raised .cancelled ≠ .waiting := by rintro ⟨⟩
    exact Option.some.inj hs ▸ ⟨h.congr rfl rfl rfl hrest fun _ hu =>
      waiting_of_update (.inr hawake) hu, Grows.quiet rfl rfl rfl rfl⟩
  | close =>
    simp only [ThreadTransport.start] at hs
    split_ifs at hs
    · exact Option.some.inj hs ▸ ⟨h, Grows.quiet rfl rfl rfl rfl⟩
    · exact Option.some.inj hs ▸ ⟨h.congr rfl rfl rfl (by rintro ⟨⟩) fun _ ht => ht,
        Grows.quiet rfl rfl rfl rfl⟩
  | callback =>
    simp only [ThreadTransport.start] at hs
    split at hs
    case h_1 item rest items hcallbacks hinbox =>
      have hloop := h.called (by rw [hcallbacks]; exact List.cons_ne_nil _ _)
      refine Option.some.inj hs ▸ ⟨⟨h.waits, fun _ => rfl, fun _ => hloop, fun hr =>
        absurd hr hrest⟩, id, id, id, fun hnone => ?_⟩
      cases hcallbacks.symm.trans hnone
    case h_2 => cases hs
  | stop =>
    exact Option.some.inj hs ▸ ⟨h.congr rfl rfl rfl hrest fun _ ht => ht, id, fun _ => rfl, id, id⟩
  | next => cases hs

theorem Bound.advance {segment : Segment} (h : Bound own) (hrunning : own.running = some segment) :
    Bound (advance c own peer segment).1 ∧ Grows own (advance c own peer segment).1 := by
  cases segment with
  | connectLoop =>
    refine ⟨⟨fun _ _ => rfl, fun _ => h.connecting hrunning, fun _ => rfl, by rintro ⟨⟩⟩, ?_⟩
    exact ⟨fun _ => rfl, id, id, id⟩
  | connectReady | sendInbox | sendCopy | closeReady =>
    exact ⟨h.congr rfl rfl rfl (by rintro ⟨⟩) fun _ ht => ht, Grows.quiet rfl rfl rfl rfl⟩
  | sendClosed | sendLoop | sendSize | sendPost | closeLoop | closePeerInbox =>
    simp only [ThreadTransport.advance]
    split_ifs
    all_goals exact ⟨h.congr rfl rfl rfl (by rintro ⟨⟩) fun _ ht => ht, Grows.quiet rfl rfl rfl rfl⟩
  | closeInbox =>
    refine ⟨⟨h.waits, fun hl => ?_, h.called, by rintro ⟨⟩⟩, Grows.quiet rfl rfl rfl rfl⟩
    exact (Option.isSome_map ..).trans (h.inbox hl)
  | closePost =>
    simp only [ThreadTransport.advance]
    split_ifs
    · exact ⟨h.congr rfl rfl rfl (by rintro ⟨⟩) fun _ ht => ht, Grows.quiet rfl rfl rfl rfl⟩
    · exact ⟨h.congr rfl rfl rfl (by rintro ⟨⟩) fun _ ht => ht, id, id, fun _ => rfl, id⟩

theorem act_bound {action : Action} (h : Bound own) (hstanding : Standing own)
    (hs : act c own peer action = some (own', posts)) : Bound own' ∧ Grows own own' := by
  unfold act at hs
  split at hs
  case h_1 segment hrunning =>
    have hadvance : Bound (advance c own peer segment).1 ∧
      Grows own (advance c own peer segment).1 := h.advance hrunning
    rwa [Option.some.inj hs] at hadvance
  case h_2 => cases hs
  case h_3 action _ _ hidle =>
    split_ifs at hs
    obtain ⟨own₁, hstart, hown⟩ := Option.map_eq_some_iff.mp hs
    obtain ⟨rfl, -⟩ := Prod.mk.inj hown
    exact h.start hstanding hidle hstart

theorem take_running {t : ℕ} : (take own t).running = own.running := by
  unfold take
  split
  · rfl
  · rfl

theorem take_closed {t : ℕ} : (take own t).closed = own.closed := by
  unfold take
  split
  · rfl
  · rfl

/-- What begins reaches nobody yet. -/
theorem start_running {action : Action} {segment : Segment} (hidle : own.running = none)
    (hs : start c own peer action = some own') (hrunning : own'.running = some segment) :
    reaches segment = false := by
  have hrest : own'.running = own.running → reaches segment = false := by
    intro hsame
    cases (hsame.symm.trans hrunning).symm.trans hidle
  cases action with
  | connect =>
    simp only [start] at hs
    split_ifs at hs
    · exact hrest (Option.some.inj hs ▸ rfl)
    · obtain rfl := Option.some.inj hs
      exact Option.some.inj hrunning ▸ rfl
  | send t data =>
    obtain ⟨-, hs⟩ := Option.ite_none_right_eq_some.mp hs
    split_ifs at hs
    all_goals obtain rfl := Option.some.inj hs
    · cases hrunning
    · cases hrunning
    · exact Option.some.inj hrunning ▸ rfl
    · exact hrest rfl
  | resume t =>
    obtain ⟨-, hs⟩ := Option.ite_none_right_eq_some.mp hs
    obtain rfl := Option.some.inj hs
    exact Option.some.inj hrunning ▸ rfl
  | timeout t | cancelSend t =>
    obtain ⟨-, hs⟩ := Option.ite_none_right_eq_some.mp hs
    obtain rfl := Option.some.inj hs
    cases hrunning
  | change t data | stop => exact hrest (Option.some.inj hs ▸ rfl)
  | recv t =>
    obtain ⟨-, hs⟩ := Option.ite_none_right_eq_some.mp hs
    split_ifs at hs
    · exact hrest (Option.some.inj hs ▸ rfl)
    · exact hrest (Option.some.inj hs ▸ take_running)
  | wake t =>
    obtain ⟨-, hs⟩ := Option.ite_none_right_eq_some.mp hs
    exact hrest (Option.some.inj hs ▸ take_running)
  | cancelRecv t =>
    obtain ⟨-, hs⟩ := Option.ite_none_right_eq_some.mp hs
    exact hrest (Option.some.inj hs ▸ rfl)
  | close =>
    simp only [start] at hs
    split_ifs at hs
    · exact hrest (Option.some.inj hs ▸ rfl)
    · obtain rfl := Option.some.inj hs
      exact Option.some.inj hrunning ▸ rfl
  | callback =>
    simp only [start] at hs
    split at hs
    case h_1 => exact hrest (Option.some.inj hs ▸ rfl)
    case h_2 => cases hs
  | next => cases hs

/-- Inside `connect` and `send` the thread leaves the inbox alone, and an end that has closed
posts nothing there. -/
theorem stuck_advance (c : Config) (peer : End) {segment : Segment} (hallowed : Allowed own segment)
    (hclosing : closing (some segment) = false) :
    (advance c own peer segment).1.recvs = own.recvs ∧
      (advance c own peer segment).1.inbox = own.inbox ∧
      (advance c own peer segment).1.callbacks = own.callbacks ∧
      (advance c own peer segment).1.closed = own.closed ∧
      closing (advance c own peer segment).1.running = false ∧
      (own.closed = true → (advance c own peer segment).2 = []) := by
  cases segment with
  | connectLoop | connectReady | sendInbox | sendCopy =>
    exact ⟨rfl, rfl, rfl, rfl, rfl, fun _ => rfl⟩
  | sendClosed | sendLoop | sendSize =>
    simp only [advance]
    split_ifs
    all_goals exact ⟨rfl, rfl, rfl, rfl, rfl, fun _ => rfl⟩
  | sendPost =>
    simp only [advance]
    split_ifs
    · exact ⟨rfl, rfl, rfl, rfl, rfl, fun _ => rfl⟩
    · refine ⟨rfl, rfl, rfl, rfl, rfl, fun hclosed => ?_⟩
      cases hallowed.2.1.symm.trans hclosed
  | closeReady | closeInbox | closeLoop | closePeerInbox | closePost => cases hclosing

theorem closed_start {action : Action} (hidle : own.running = none) (hclosed : own.closed = true)
    (hs : start c own peer action = some own') :
    own'.closed = true ∧ closing own'.running = false := by
  have hrest : closing own.running = false := by rw [hidle]; rfl
  have htake (t : ℕ) : (take own t).closed = true ∧ closing (take own t).running = false := by
    unfold take
    split
    · exact ⟨hclosed, hrest⟩
    · exact ⟨hclosed, hrest⟩
  cases action with
  | connect =>
    simp only [start, hclosed, Bool.or_true, if_true] at hs
    exact Option.some.inj hs ▸ ⟨hclosed, hrest⟩
  | send t data =>
    obtain ⟨-, hs⟩ := Option.ite_none_right_eq_some.mp hs
    rw [if_pos hclosed] at hs
    exact Option.some.inj hs ▸ ⟨hclosed, rfl⟩
  | change t data => exact Option.some.inj hs ▸ ⟨hclosed, hrest⟩
  | resume t | timeout t | cancelSend t =>
    obtain ⟨-, hs⟩ := Option.ite_none_right_eq_some.mp hs
    exact Option.some.inj hs ▸ ⟨hclosed, rfl⟩
  | recv t =>
    obtain ⟨-, hs⟩ := Option.ite_none_right_eq_some.mp hs
    rw [if_pos (Or.inl hclosed)] at hs
    exact Option.some.inj hs ▸ ⟨hclosed, hrest⟩
  | wake t =>
    obtain ⟨-, hs⟩ := Option.ite_none_right_eq_some.mp hs
    exact Option.some.inj hs ▸ htake t
  | cancelRecv t =>
    obtain ⟨-, hs⟩ := Option.ite_none_right_eq_some.mp hs
    exact Option.some.inj hs ▸ ⟨hclosed, hrest⟩
  | close =>
    simp only [start, hclosed, if_true] at hs
    exact Option.some.inj hs ▸ ⟨hclosed, hrest⟩
  | callback =>
    simp only [start] at hs
    split at hs
    case h_1 => exact Option.some.inj hs ▸ ⟨hclosed, hrest⟩
    case h_2 => cases hs
  | stop => exact Option.some.inj hs ▸ ⟨hclosed, hrest⟩
  | next => cases hs

theorem act_closed {action : Action} (hstanding : Standing own) (hclosed : own.closed = true)
    (hfinished : closing own.running = false) (hs : act c own peer action = some (own', posts)) :
    own'.closed = true ∧ closing own'.running = false ∧ posts = [] := by
  unfold act at hs
  split at hs
  case h_1 segment hrunning =>
    have hclosing : closing (some segment) = false := by rwa [← hrunning]
    obtain ⟨-, -, -, hsame, hafter, hposts⟩ := stuck_advance c peer
      (hstanding.allowed segment hrunning) hclosing
    obtain ⟨rfl, rfl⟩ := Prod.mk.inj (Option.some.inj hs)
    exact ⟨hsame.trans hclosed, hafter, hposts hclosed⟩
  case h_2 => cases hs
  case h_3 action _ _ hidle =>
    split_ifs at hs
    obtain ⟨own₁, hstart, hown⟩ := Option.map_eq_some_iff.mp hs
    obtain ⟨rfl, rfl⟩ := Prod.mk.inj hown
    obtain ⟨hclosed', hfinished'⟩ := closed_start hidle hclosed hstart
    exact ⟨hclosed', hfinished', rfl⟩

theorem act_reaches {action : Action} (hbefore : ∀ segment, own.running = some segment →
    reaches segment = true → peer.loop = true)
    (hs : act c own peer action = some (own', posts)) {segment : Segment}
    (hrunning : own'.running = some segment) (hreaches : reaches segment = true) :
    peer.loop = true := by
  unfold act at hs
  split at hs
  case h_1 before hbeforehand =>
    have hreached := hbefore before hbeforehand
    have hadvance : (advance c own peer before).1 = own' := congrArg Prod.fst (Option.some.inj hs)
    rw [← hadvance] at hrunning
    cases before with
    | sendLoop t inbox =>
      simp only [advance] at hrunning
      split_ifs at hrunning with hloop
      · cases hrunning
      · simp at hloop
        exact hloop.1
    | closeLoop =>
      simp only [advance] at hrunning
      split_ifs at hrunning with hloop
      · exact hloop
      · cases hrunning
    | sendCopy | sendSize | sendPost | closePeerInbox | closePost => exact hreached rfl
    | connectLoop | sendInbox | closeReady | closeInbox =>
      obtain rfl := Option.some.inj hrunning
      cases hreaches
    | connectReady => cases hrunning
    | sendClosed t inbox =>
      simp only [advance] at hrunning
      split_ifs at hrunning
      · cases hrunning
      · obtain rfl := Option.some.inj hrunning
        cases hreaches
  case h_2 => cases hs
  case h_3 action _ _ hidle =>
    split_ifs at hs
    obtain ⟨own₁, hstart, hown⟩ := Option.map_eq_some_iff.mp hs
    obtain ⟨rfl, -⟩ := Prod.mk.inj hown
    cases (start_running hidle hstart hrunning).symm.trans hreaches

/-- What an end posts goes to one that is connected. -/
theorem act_reaches_peer {action : Action} (hbefore : ∀ segment, own.running = some segment →
    reaches segment = true → peer.loop = true)
    (hs : act c own peer action = some (own', posts)) (hposts : posts ≠ []) : peer.loop = true := by
  unfold act at hs
  split at hs
  case h_1 segment hrunning =>
    have hadvance : (advance c own peer segment).2 = posts :=
      congrArg Prod.snd (Option.some.inj hs)
    rw [← hadvance] at hposts
    cases segment with
    | sendPost | closePost => exact hbefore _ hrunning rfl
    | connectLoop | connectReady | sendInbox | sendCopy | closeReady | closeInbox =>
      exact absurd rfl hposts
    | sendClosed | sendLoop | sendSize | closeLoop | closePeerInbox =>
      simp only [advance] at hposts
      split_ifs at hposts
      all_goals exact absurd rfl hposts
  case h_2 => cases hs
  case h_3 action _ _ hidle =>
    split_ifs at hs
    obtain ⟨own₁, -, hown⟩ := Option.map_eq_some_iff.mp hs
    exact absurd (Prod.mk.inj hown).2.symm hposts

theorem opened_start {action : Action} (hopen : own.closed = false)
    (hs : start c own peer action = some own') (hclosed : own'.closed = true) :
    action = .close ∧ own' = { own with closed := true }.goto .closeReady := by
  have hsame : own'.closed ≠ own.closed := by
    rw [hclosed, hopen]
    rintro ⟨⟩
  cases action with
  | connect =>
    simp only [start] at hs
    split_ifs at hs
    all_goals exact absurd (Option.some.inj hs ▸ rfl) hsame
  | send t data =>
    obtain ⟨-, hs⟩ := Option.ite_none_right_eq_some.mp hs
    split_ifs at hs
    all_goals exact absurd (Option.some.inj hs ▸ rfl) hsame
  | resume t | timeout t | cancelSend t | cancelRecv t =>
    obtain ⟨-, hs⟩ := Option.ite_none_right_eq_some.mp hs
    exact absurd (Option.some.inj hs ▸ rfl) hsame
  | change t data | stop => exact absurd (Option.some.inj hs ▸ rfl) hsame
  | recv t =>
    obtain ⟨-, hs⟩ := Option.ite_none_right_eq_some.mp hs
    split_ifs at hs
    · exact absurd (Option.some.inj hs ▸ rfl) hsame
    · exact absurd (Option.some.inj hs ▸ take_closed) hsame
  | wake t =>
    obtain ⟨-, hs⟩ := Option.ite_none_right_eq_some.mp hs
    exact absurd (Option.some.inj hs ▸ take_closed) hsame
  | close =>
    simp only [start, hopen, Bool.false_eq_true, if_false] at hs
    exact ⟨rfl, (Option.some.inj hs).symm⟩
  | callback =>
    simp only [start] at hs
    split at hs
    case h_1 => exact absurd (Option.some.inj hs ▸ rfl) hsame
    case h_2 => cases hs
  | next => cases hs

/-- How an end comes to have closed: it had, its last instruction posts `None`, or there is
nobody to post it to. -/
theorem act_finishes {action : Action} (hstanding : Standing own) (hpeer : Bound peer)
    (hbefore : ∀ segment, own.running = some segment → reaches segment = true → peer.loop = true)
    (hs : act c own peer action = some (own', posts)) (hclosed : own'.closed = true)
    (hfinished : closing own'.running = false) :
    (own.closed = true ∧ closing own.running = false ∧ posts = []) ∨
      (posts = [none] ∧ own'.announced = true) ∨
        posts = [] ∧ (peer.loop = false ∨ peer.stopped = true) := by
  by_cases hover : own.closed = true ∧ closing own.running = false
  · obtain ⟨-, -, hposts⟩ := act_closed hstanding hover.1 hover.2 hs
    exact .inl ⟨hover.1, hover.2, hposts⟩
  · unfold act at hs
    split at hs
    case h_1 segment hrunning =>
      have hallowed := hstanding.allowed segment hrunning
      obtain rfl : (advance c own peer segment).1 = own' :=
        congrArg Prod.fst (Option.some.inj hs)
      obtain rfl : (advance c own peer segment).2 = posts :=
        congrArg Prod.snd (Option.some.inj hs)
      cases hclosing : closing (some segment) with
      | false =>
        obtain ⟨-, -, -, hsame, -, -⟩ := stuck_advance c peer hallowed hclosing
        exact absurd ⟨hsame ▸ hclosed, hrunning ▸ hclosing⟩ hover
      | true =>
        cases segment with
        | closeReady | closeInbox => cases hfinished
        | closeLoop =>
          simp only [advance] at hfinished ⊢
          split_ifs at hfinished ⊢ with hloop
          · cases hfinished
          · exact .inr (.inr ⟨rfl, .inl (Bool.eq_false_iff.mpr hloop)⟩)
        | closePeerInbox =>
          simp only [advance] at hfinished ⊢
          split_ifs at hfinished ⊢ with hinbox
          · cases hfinished
          · exact absurd (hpeer.inbox (hbefore _ hrunning rfl)) hinbox
        | closePost =>
          simp only [advance]
          split_ifs with hstopped
          · exact .inr (.inr ⟨rfl, .inr hstopped⟩)
          · exact .inr (.inl ⟨rfl, rfl⟩)
        | _ => cases hclosing
    case h_2 => cases hs
    case h_3 action _ _ hidle =>
      split_ifs at hs
      obtain ⟨own₁, hstart, hown⟩ := Option.map_eq_some_iff.mp hs
      obtain ⟨rfl, rfl⟩ := Prod.mk.inj hown
      have hopen : own.closed = false := by
        by_contra hne
        exact hover ⟨Bool.of_not_eq_false hne, by rw [hidle]; rfl⟩
      obtain ⟨-, rfl⟩ := opened_start hopen hstart hclosed
      cases hfinished

/-- What an end knows about the other one, and what is left to come when it has closed
without a `None` for it. -/
structure Linked (s : State) : Prop where
  bound : ∀ x, Bound (s x)
  reached : ∀ x segment, (s x).running = some segment → reaches segment = true →
    (s x.peer).loop = true
  unheard : ∀ x, (s x).closed = true → closing (s x).running = false →
    (s x).announced = false → (s x.peer).callbacks = [] ∨ (s x.peer).stopped = true

theorem linked_pair : Linked pair where
  bound _ := ⟨by rintro _ ⟨⟩, by rintro ⟨⟩, fun h => absurd rfl h, by rintro ⟨⟩⟩
  reached := by rintro _ _ ⟨⟩
  unheard := by rintro _ ⟨⟩

theorem Linked.step {s' : State} {e : Side × Action} (h : Linked s) (hinv : Inv s)
    (hs : step c s e = some s') : Linked s' := by
  obtain ⟨x, action⟩ := e
  obtain ⟨⟨own', posts⟩, hact, rfl⟩ := Option.map_eq_some_iff.mp hs
  obtain ⟨hbound, hgrows⟩ := act_bound (h.bound x) (hinv.standing x) hact
  have hpeer := h.bound x.peer
  refine ⟨fun y => ?_, fun y segment => ?_, fun y => ?_⟩
  · obtain rfl | rfl := x.eq_or_eq_peer y
    · rwa [put_self]
    · rw [put_peer]
      refine ⟨hpeer.waits, hpeer.inbox, fun hcalled => ?_, hpeer.connecting⟩
      obtain hold | hposts := not_and_or.mp fun hnone =>
          hcalled (List.append_eq_nil_iff.mpr hnone)
      · exact hpeer.called hold
      · exact act_reaches_peer (h.reached x) hact hposts
  · obtain rfl | rfl := x.eq_or_eq_peer y
    · rw [put_self, put_peer]
      exact act_reaches (h.reached y) hact
    · rw [put_peer, Side.peer_peer, put_self]
      intro hrunning hreaches
      have hloop := h.reached x.peer segment hrunning hreaches
      rw [Side.peer_peer] at hloop
      exact hgrows.loop hloop
  · obtain rfl | rfl := x.eq_or_eq_peer y
    · rw [put_self, put_peer]
      intro hclosed hfinished hsilent
      obtain ⟨hclosed₀, hfinished₀, rfl⟩ | ⟨-, hannounced⟩ | ⟨rfl, hnobody⟩ :=
        act_finishes (hinv.standing y) hpeer (h.reached y) hact hclosed hfinished
      · have hsilent₀ : (s y).announced = false := by
          by_contra hne
          cases (hgrows.announced (Bool.of_not_eq_false hne)).symm.trans hsilent
        rw [List.append_nil]
        exact h.unheard y hclosed₀ hfinished₀ hsilent₀
      · cases hannounced.symm.trans hsilent
      · rw [List.append_nil]
        refine hnobody.imp_left fun hloop => ?_
        by_contra hcalled
        cases (hpeer.called hcalled).symm.trans hloop
    · rw [put_peer, Side.peer_peer, put_self]
      intro hclosed hfinished hsilent
      have hbefore := h.unheard x.peer hclosed hfinished hsilent
      rw [Side.peer_peer] at hbefore
      exact hbefore.imp hgrows.callbacks hgrows.stopped

theorem Served.congr (h : Served own) (hstopped : own'.stopped = own.stopped)
    (hinbox : own'.inbox = own.inbox)
    (hrecvs : ∀ t, own'.recvs t = .waiting → own.recvs t = .waiting) : Served own' := by
  intro hopen
  rw [hinbox]
  exact (h (hstopped ▸ hopen)).of_waiting hrecvs

theorem Served.wake {t : ℕ} (h : Served own) (ht : own.recvs t = .waiting) :
    Served (take own t) := by
  unfold ThreadTransport.take
  split
  case h_1 item rest hinbox =>
    intro hopen
    have hbefore : AtMost own (serving (item :: rest)) := by
      have hserved := h hopen
      rwa [hinbox] at hserved
    have hawake : Function.update own.recvs t (outcome item) t ≠ .waiting := by
      rw [Function.update_self]
      exact outcome_ne_waiting item
    apply (hbefore.mono (serving_cons_le item rest)).wake ht hawake
    exact fun u hu => waiting_of_update (.inl ht) hu
  case h_2 => exact h.congr rfl rfl fun u hu => waiting_of_update (.inl ht) hu

theorem Served.append (h : Served own) {items more : List (Option Bytes)}
    (hstopped : own'.stopped = own.stopped) (hinbox : own.inbox = some items)
    (hinbox' : own'.inbox = some (items ++ more)) (hrecvs : own'.recvs = own.recvs) :
    Served own' := by
  intro hopen
  have hbefore := h (hstopped ▸ hopen)
  rw [hinbox] at hbefore
  rw [hinbox']
  refine (hbefore.mono (serving_append items more)).of_waiting fun t ht => ?_
  rwa [hrecvs] at ht

/-- A call that begins takes an item that no other one needs. -/
theorem Served.recv {t : ℕ} {items : List (Option Bytes)} (hinbox : own.inbox = some items)
    (hspare : ∃ n, serving items = n + 1 ∧ AtMost own n) : Served (take own t) := by
  obtain ⟨n, hserving, hmost⟩ := hspare
  cases items with
  | nil => cases hserving
  | cons item rest =>
    rw [take_cons hinbox]
    intro _
    have hle : n ≤ serving rest := by
      have := serving_cons_le item rest
      omega
    exact (hmost.mono hle).of_waiting fun u hu =>
      waiting_of_update (.inr (outcome_ne_waiting item)) hu

theorem Served.start {action : Action} (h : Served own) (hbound : Bound own)
    (hrecv : ∀ t, action = .recv t → own.closed = true)
    (hs : start c own peer action = some own') : Served own' := by
  cases action with
  | connect =>
    simp only [ThreadTransport.start] at hs
    split_ifs at hs with hconnected
    · exact Option.some.inj hs ▸ h
    · refine Option.some.inj hs ▸ fun _ => atMost_of_none fun t ht => ?_
      simp [hbound.waits t ht] at hconnected
  | send t data =>
    obtain ⟨-, hs⟩ := Option.ite_none_right_eq_some.mp hs
    split_ifs at hs
    all_goals exact Option.some.inj hs ▸ h.congr rfl rfl fun _ ht => ht
  | change t data => exact Option.some.inj hs ▸ h.congr rfl rfl fun _ ht => ht
  | resume t | timeout t | cancelSend t =>
    obtain ⟨-, hs⟩ := Option.ite_none_right_eq_some.mp hs
    exact Option.some.inj hs ▸ h.congr rfl rfl fun _ ht => ht
  | recv t =>
    obtain ⟨-, hs⟩ := Option.ite_none_right_eq_some.mp hs
    rw [if_pos (Or.inl (hrecv t rfl))] at hs
    have hawake : RecvPhase.raised .closed ≠ .waiting := by rintro ⟨⟩
    exact Option.some.inj hs ▸ h.congr rfl rfl fun _ hu => waiting_of_update (.inr hawake) hu
  | wake t =>
    obtain ⟨hwaiting, hs⟩ := Option.ite_none_right_eq_some.mp hs
    exact Option.some.inj hs ▸ h.wake hwaiting
  | cancelRecv t =>
    obtain ⟨-, hs⟩ := Option.ite_none_right_eq_some.mp hs
    have hawake : RecvPhase.raised .cancelled ≠ .waiting := by rintro ⟨⟩
    exact Option.some.inj hs ▸ h.congr rfl rfl fun _ hu => waiting_of_update (.inr hawake) hu
  | close =>
    simp only [ThreadTransport.start] at hs
    split_ifs at hs
    all_goals exact Option.some.inj hs ▸ h.congr rfl rfl fun _ ht => ht
  | callback =>
    simp only [ThreadTransport.start] at hs
    split at hs
    case h_1 item rest items hcallbacks hinbox =>
      exact Option.some.inj hs ▸ h.append rfl hinbox rfl rfl
    case h_2 => cases hs
  | stop =>
    refine Option.some.inj hs ▸ fun hopen => ?_
    cases hopen
  | next => cases hs

theorem Served.advance (h : Served own) (segment : Segment) :
    Served (advance c own peer segment).1 := by
  cases segment with
  | closeInbox =>
    cases hinbox : own.inbox with
    | none => exact h.congr rfl (by simp [ThreadTransport.advance, End.goto, hinbox]) fun _ ht => ht
    | some items =>
      have hmarked : (ThreadTransport.advance c own peer .closeInbox).1.inbox =
          some (items ++ [none]) := by
        simp [ThreadTransport.advance, End.goto, hinbox]
      exact h.append rfl hinbox hmarked rfl
  | connectLoop | connectReady | sendInbox | sendCopy | closeReady =>
    exact h.congr rfl rfl fun _ ht => ht
  | sendClosed | sendLoop | sendSize | sendPost | closeLoop | closePeerInbox | closePost =>
    simp only [ThreadTransport.advance]
    split_ifs
    all_goals exact h.congr rfl rfl fun _ ht => ht

/-- A `close` that has begun is going to put its `None` into the inbox. -/
def unmarked : Option Segment → Bool
  | some .closeReady | some .closeInbox => true
  | _ => false

theorem unmarked_of_not_closing {running : Option Segment} (h : closing running = false) :
    unmarked running = false := by
  cases running with
  | none => rfl
  | some segment => cases segment <;> first | rfl | cases h

/-- The items of an end, with the `None` that is about to come. -/
def due (e : End) : List (Option Bytes) :=
  e.inbox.getD [] ++ if unmarked e.running then [none] else []

theorem due_eq (h : unmarked own.running = false) : due own = own.inbox.getD [] := by
  rw [due, h, if_neg Bool.false_ne_true, List.append_nil]

/-- A `None` of its own serves the calls of an end that has closed. -/
theorem act_due {action : Action} (hstanding : Standing own) (hbound : Bound own)
    (h : own.closed = true → ServedBy own (due own))
    (hclose : action = .close → own.closed = false →
      AtMost own (ahead (own.inbox.getD []) + 1))
    (hs : act c own peer action = some (own', posts)) (hclosed : own'.closed = true) :
    ServedBy own' (due own') := by
  unfold act at hs
  split at hs
  case h_1 segment hrunning =>
    obtain rfl : (advance c own peer segment).1 = own' := congrArg Prod.fst (Option.some.inj hs)
    have hallowed := hstanding.allowed segment hrunning
    have hdue : due own = own.inbox.getD [] ++ if unmarked (some segment) then [none] else [] := by
      rw [due, hrunning]
    have hserved (hsegment : unmarked (some segment) = false) (hbefore : own.closed = true)
        (hafter : unmarked (advance c own peer segment).1.running = false) :
        ServedBy (advance c own peer segment).1 (due (advance c own peer segment).1) := by
      have hown : Served own := by
        have hserved := h hbefore
        rwa [hdue, hsegment, if_neg Bool.false_ne_true, List.append_nil] at hserved
      rw [due_eq hafter]
      exact hown.advance segment
    cases segment with
    | closeReady =>
      have hserved := h hallowed.1
      rw [hdue] at hserved
      exact hserved
    | closeInbox =>
      have hserved := h hallowed.1
      rw [hdue] at hserved
      cases hinbox : own.inbox with
      | none =>
        refine fun _ => atMost_of_none fun t ht => ?_
        have hsome := hbound.inbox (hbound.waits t ht)
        rw [hinbox] at hsome
        cases hsome
      | some items =>
        have hmarked : due (advance c own peer .closeInbox).1 = own.inbox.getD [] ++ [none] := by
          simp [due, advance, End.goto, unmarked, hinbox]
        rw [hmarked]
        exact hserved
    | closeLoop | closePeerInbox | closePost =>
      refine hserved rfl hallowed.1 ?_
      simp only [advance]
      split_ifs
      all_goals rfl
    | connectLoop | connectReady | sendInbox | sendCopy => exact hserved rfl hclosed rfl
    | sendClosed | sendLoop | sendSize | sendPost =>
      simp only [advance] at hclosed hserved ⊢
      split_ifs at hclosed hserved ⊢
      all_goals exact hserved rfl hclosed rfl
  case h_2 => cases hs
  case h_3 action _ _ hidle =>
    split_ifs at hs
    obtain ⟨own₁, hstart, hown⟩ := Option.map_eq_some_iff.mp hs
    obtain ⟨rfl, -⟩ := Prod.mk.inj hown
    cases hbefore : own.closed with
    | true =>
      have hserved : Served own := by
        have hserved := h hbefore
        rwa [due_eq (by rw [hidle]; rfl)] at hserved
      rw [due_eq (unmarked_of_not_closing (closed_start hidle hbefore hstart).2)]
      exact hserved.start hbound (fun _ _ => hbefore) hstart
    | false =>
      obtain ⟨rfl, rfl⟩ := opened_start hbefore hstart hclosed
      intro _
      show AtMost _ (serving (own.inbox.getD [] ++ [none]))
      rw [serving_concat_none]
      exact (hclose rfl hbefore).of_waiting fun _ ht => ht

/-- Where an end has closed, its calls have an item to come, and those of the other end too
when all callbacks have run. -/
structure Ready (s : State) : Prop where
  own : ∀ x, (s x).closed = true → ServedBy (s x) (due (s x))
  other : ∀ x, (s x).closed = true → closing (s x).running = false →
    (s x.peer).callbacks = [] → Served (s x.peer)

theorem Ready.noneHangs (h : Ready s) : NoneHangs s := by
  intro y hy x
  obtain rfl | rfl := y.eq_or_eq_peer x
  · have hown := h.own x hy.closed
    rwa [due_eq (unmarked_of_not_closing hy.finished)] at hown
  · exact h.other y hy.closed hy.finished hy.callbacks

/-- The last item that comes from an end that has closed is its `None`. -/
theorem callback_none (hinv : Inv s) (hlinked : Linked s) (hopen : (s x).closed = false)
    (hlive : (s x).stopped = false) (hclosed : (s x.peer).closed = true)
    (hfinished : closing (s x.peer).running = false) {item : Option Bytes}
    (hcallbacks : (s x).callbacks = [item]) : item = none := by
  have horder := hinv.order x.peer
  rw [Side.peer_peer] at horder
  have hlast : (s x).items.getLast? = some item := by
    simp [End.items, hcallbacks]
  rw [horder hopen] at hlast
  cases hannounced : (s x.peer).announced with
  | true => simpa [End.handed, hannounced] using hlast.symm
  | false =>
    have hnone := hlinked.unheard x.peer hclosed hfinished hannounced
    rw [Side.peer_peer, hcallbacks, hlive] at hnone
    obtain hnone | hnone := hnone
    · cases hnone
    · cases hnone

theorem advance_callbacks (c : Config) (own peer : End) (segment : Segment) :
    (advance c own peer segment).1.callbacks = own.callbacks := by
  cases segment with
  | connectLoop | connectReady | sendInbox | sendCopy | closeReady | closeInbox => rfl
  | sendClosed | sendLoop | sendSize | sendPost | closeLoop | closePeerInbox | closePost =>
    simp only [advance]
    split_ifs
    all_goals rfl

theorem start_callbacks {action : Action} (hcallback : action ≠ .callback)
    (hs : start c own peer action = some own') : own'.callbacks = own.callbacks := by
  have htake (t : ℕ) : (take own t).callbacks = own.callbacks := by
    unfold take
    split
    all_goals rfl
  cases action with
  | connect | close =>
    simp only [start] at hs
    split_ifs at hs
    all_goals exact Option.some.inj hs ▸ rfl
  | send t data =>
    obtain ⟨-, hs⟩ := Option.ite_none_right_eq_some.mp hs
    split_ifs at hs
    all_goals exact Option.some.inj hs ▸ rfl
  | resume t | timeout t | cancelSend t | cancelRecv t =>
    obtain ⟨-, hs⟩ := Option.ite_none_right_eq_some.mp hs
    exact Option.some.inj hs ▸ rfl
  | change t data | stop => exact Option.some.inj hs ▸ rfl
  | recv t =>
    obtain ⟨-, hs⟩ := Option.ite_none_right_eq_some.mp hs
    split_ifs at hs
    · exact Option.some.inj hs ▸ rfl
    · exact Option.some.inj hs ▸ htake t
  | wake t =>
    obtain ⟨-, hs⟩ := Option.ite_none_right_eq_some.mp hs
    exact Option.some.inj hs ▸ htake t
  | callback => exact absurd rfl hcallback
  | next => cases hs

/-- The end beside one that has closed moves. -/
theorem act_other {action : Action} (hinv : Inv s) (hlinked : Linked s) (h : Ready s)
    (hprovided : Provided s (x, action)) (hclosed : (s x.peer).closed = true)
    (hfinished : closing (s x.peer).running = false)
    (hs : act c (s x) (s x.peer) action = some (own', posts)) (hnone : own'.callbacks = []) :
    Served own' := by
  have hsettled (hbefore : (s x).callbacks = []) : Settled s x.peer :=
    ⟨hclosed, hfinished, by rwa [Side.peer_peer]⟩
  have hserved (hbefore : (s x).callbacks = []) : Served (s x) := by
    have hother := h.other x.peer hclosed hfinished
    rw [Side.peer_peer] at hother
    exact hother hbefore
  unfold act at hs
  split at hs
  case h_1 segment hrunning =>
    obtain rfl : (advance c (s x) (s x.peer) segment).1 = own' :=
      congrArg Prod.fst (Option.some.inj hs)
    have hsame : (advance c (s x) (s x.peer) segment).1.callbacks = (s x).callbacks :=
      advance_callbacks ..
    exact (hserved (hsame.symm.trans hnone)).advance segment
  case h_2 => cases hs
  case h_3 action _ _ hidle =>
    split_ifs at hs with hstopped
    have hlive : (s x).stopped = false := Bool.eq_false_iff.mpr hstopped
    obtain ⟨own₁, hstart, hown⟩ := Option.map_eq_some_iff.mp hs
    obtain ⟨rfl, -⟩ := Prod.mk.inj hown
    cases hshutdown : (s x).closed with
    | true =>
      have hdue := h.own x hshutdown
      rw [due_eq (by rw [hidle]; rfl)] at hdue
      exact Served.start hdue (hlinked.bound x) (fun _ _ => hshutdown) hstart
    | false =>
      by_cases hcalls : action = .callback
      · subst hcalls
        simp only [start] at hstart
        split at hstart
        case h_2 => cases hstart
        case h_1 item rest items hcallbacks hinbox =>
          obtain rfl := Option.some.inj hstart
          obtain rfl : rest = [] := hnone
          obtain rfl := callback_none hinv hlinked hshutdown hlive hclosed hfinished hcallbacks
          have hmost := hprovided hshutdown (by rw [hcallbacks]; rfl)
          rw [hinbox, Option.getD_some, ← serving_concat_none] at hmost
          exact fun _ => hmost.of_waiting fun _ ht => ht
      · have hbefore : (s x).callbacks = [] :=
          (start_callbacks hcalls hstart).symm.trans hnone
        by_cases hrecv : ∃ t, action = .recv t
        · obtain ⟨t, rfl⟩ := hrecv
          obtain ⟨-, hstart⟩ := Option.ite_none_right_eq_some.mp hstart
          split_ifs at hstart with hshut
          · have hawake : RecvPhase.raised .closed ≠ .waiting := by rintro ⟨⟩
            exact Option.some.inj hstart ▸ (hserved hbefore).congr rfl rfl fun _ hu =>
              waiting_of_update (.inr hawake) hu
          · obtain ⟨items, hinbox⟩ := Option.ne_none_iff_exists'.mp fun hnone =>
              hshut (Or.inr hnone)
            exact Option.some.inj hstart ▸
              Served.recv hinbox (hprovided hshutdown (hsettled hbefore) items hinbox)
        · exact (hserved hbefore).start (hlinked.bound x) (fun t ht => absurd ⟨t, ht⟩ hrecv) hstart

theorem Ready.step {s' : State} {e : Side × Action} (h : Ready s) (hinv : Inv s)
    (hlinked : Linked s) (hprovided : Provided s e) (hs : step c s e = some s') : Ready s' := by
  obtain ⟨x, action⟩ := e
  obtain ⟨⟨own', posts⟩, hact, rfl⟩ := Option.map_eq_some_iff.mp hs
  constructor
  · intro y
    obtain rfl | rfl := x.eq_or_eq_peer y
    · rw [put_self]
      refine act_due (hinv.standing y) (hlinked.bound y) (h.own y) ?_ hact
      rintro rfl
      exact hprovided
    · rw [put_peer]
      exact h.own x.peer
  · intro y
    obtain rfl | rfl := x.eq_or_eq_peer y
    · rw [put_self, put_peer]
      intro hclosed hfinished hnone
      obtain ⟨hcallbacks, hposts⟩ := List.append_eq_nil_iff.mp hnone
      obtain ⟨hclosed₀, hfinished₀, -⟩ | ⟨hmarker, -⟩ | ⟨-, hnobody⟩ := act_finishes
        (hinv.standing y) (hlinked.bound y.peer) (hlinked.reached y) hact hclosed hfinished
      · exact h.other y hclosed₀ hfinished₀ hcallbacks
      · cases hmarker.symm.trans hposts
      · intro hopen
        obtain hloop | hstopped := hnobody
        · refine atMost_of_none fun t ht => ?_
          cases ((hlinked.bound y.peer).waits t ht).symm.trans hloop
        · cases hstopped.symm.trans hopen
    · rw [put_peer, Side.peer_peer, put_self]
      exact fun hclosed hfinished hnone =>
        act_other hinv hlinked h hprovided hclosed hfinished hact hnone

theorem NoneHangs.wake (h : NoneHangs s) {y : Side} (hy : Settled s y) {t : ℕ}
    (hlive : (s x).stopped = false) (ht : (s x).recvs t = .waiting) :
    ∃ item rest, (s x).inbox = some (item :: rest) ∧ (take (s x) t).recvs t = outcome item := by
  have hmost := h y hy x hlive
  cases hinbox : (s x).inbox with
  | none =>
    rw [hinbox] at hmost
    exact absurd hmost (not_atMost_zero ht)
  | some items =>
    cases items with
    | nil =>
      rw [hinbox] at hmost
      exact absurd hmost (not_atMost_zero ht)
    | cons item rest =>
      refine ⟨item, rest, rfl, ?_⟩
      rw [take_cons hinbox]
      exact Function.update_self ..

/-- No call is left behind, and one that waits returns a message or raises when it wakes. -/
structure Released (s : State) : Prop where
  served : NoneHangs s
  wakes : ∀ y, Settled s y → ∀ x t, (s x).stopped = false → (s x).recvs t = .waiting →
    ∃ item rest, (s x).inbox = some (item :: rest) ∧ (take (s x) t).recvs t = outcome item

/-- One call waits. -/
def oneReader : List (Side × Action) :=
  List.flatten [[(.a, .connect)], nexts .a 2, [(.b, .connect)], nexts .b 2, [(.b, .recv 0)]]

/-- The other end closes, and the call is woken. -/
def released : List (Side × Action) :=
  oneReader ++ (.a, .close) :: nexts .a 5 ++ [(.b, .callback), (.b, .wake 0)]

/-- Nothing that the condition asks about happens. -/
def unconcerned (s : State) (e : Side × Action) : Bool :=
  match e.2 with
  | .recv _ => !(s .a).closed && !(s .b).closed
  | .callback | .close => false
  | _ => true

theorem provided_of_unconcerned (s : State) (e : Side × Action) (h : unconcerned s e = true) :
    Provided s e := by
  obtain ⟨x, action⟩ := e
  cases action with
  | recv t =>
    intro _ hsettled
    simp only [unconcerned, Bool.and_eq_true, Bool.not_eq_true'] at h
    cases x with
    | a => cases h.2.symm.trans hsettled.closed
    | b => cases h.1.symm.trans hsettled.closed
  | callback | close => cases h
  | connect | send | change | resume | timeout | cancelSend | wake | cancelRecv | stop | next =>
    trivial

theorem meets_released : Machine.Meets (step limits) Provided pair released := by
  have hbefore : Machine.Meets (step limits) (fun s e => unconcerned s e = true) pair
      oneReader := by
    decide +kernel
  apply ((hbefore.mono provided_of_unconcerned).append ?_).append
  · intro s hs
    have hrecvs : (Machine.run (step limits) pair
        (oneReader ++ (.a, .close) :: nexts .a 5)).map (fun s => (s .b).recvs) =
          some (Function.update (fun _ => .idle) 0 .waiting) := rfl
    rw [hs] at hrecvs
    have hb : (s .b).recvs = Function.update (fun _ => .idle) 0 .waiting := Option.some.inj hrecvs
    have hone : AtMost (s .b) 1 := by
      intro ts hts
      refine Finset.card_le_one_iff_subset_singleton.mpr ⟨0, fun t ht => ?_⟩
      by_contra hne
      have hwaiting := hts t ht
      rw [hb, Function.update_of_ne fun hzero => hne (Finset.mem_singleton.mpr hzero)] at hwaiting
      cases hwaiting
    exact ⟨fun _ _ => hone.mono (Nat.le_add_left 1 _), fun t _ => ⟨trivial, fun _ _ => trivial⟩⟩
  · intro s hs
    have hrecvs : (Machine.run (step limits) pair oneReader).map (fun s => (s .a).recvs) =
        some (fun _ => .idle) := rfl
    rw [hs] at hrecvs
    refine ⟨fun _ => atMost_of_none fun t ht => ?_, fun t _ => Machine.meets_of_forall ?_ t⟩
    · cases (congrFun (Option.some.inj hrecvs) t).symm.trans ht
    · intro e he u
      rw [List.eq_of_mem_replicate he]
      trivial

/-- A call waits for an item, and neither end is going to put one into the inbox. -/
structure Stuck (s : State) (x : Side) (t : ℕ) : Prop where
  waiting : (s x).recvs t = .waiting
  inbox : (s x).inbox = some []
  callbacks : (s x).callbacks = []
  own : closing (s x).running = false
  closed : (s x.peer).closed = true
  finished : closing (s x.peer).running = false

theorem stuck_start {t : ℕ} {action : Action} (hwaiting : own.recvs t = .waiting)
    (hinbox : own.inbox = some []) (hcallbacks : own.callbacks = []) (h : Standing own)
    (hidle : own.running = none) (hclose : action ≠ .close) (hcancel : action ≠ .cancelRecv t)
    (hs : start c own peer action = some own') :
    own'.recvs t = .waiting ∧ own'.inbox = some [] ∧ own'.callbacks = [] ∧
      closing own'.running = false := by
  have hrest : closing own.running = false := by rw [hidle]; rfl
  have hsame (u : ℕ) : Function.update own.recvs u .waiting t = .waiting := by
    by_cases htu : t = u
    · rw [htu, Function.update_self]
    · rwa [Function.update_of_ne htu]
  cases action with
  | connect =>
    have hloop : own.loop = true := h.loop (by simp [hidle]) (by rw [hinbox]; rfl)
    simp only [start, hloop, Bool.true_or, if_true] at hs
    exact Option.some.inj hs ▸ ⟨hwaiting, hinbox, hcallbacks, hrest⟩
  | send u data =>
    obtain ⟨-, hs⟩ := Option.ite_none_right_eq_some.mp hs
    split_ifs at hs
    · exact Option.some.inj hs ▸ ⟨hwaiting, hinbox, hcallbacks, rfl⟩
    · exact Option.some.inj hs ▸ ⟨hwaiting, hinbox, hcallbacks, rfl⟩
    · exact Option.some.inj hs ▸ ⟨hwaiting, hinbox, hcallbacks, rfl⟩
    · exact Option.some.inj hs ▸ ⟨hwaiting, hinbox, hcallbacks, hrest⟩
  | change u data => exact Option.some.inj hs ▸ ⟨hwaiting, hinbox, hcallbacks, hrest⟩
  | resume u | timeout u | cancelSend u =>
    obtain ⟨-, hs⟩ := Option.ite_none_right_eq_some.mp hs
    exact Option.some.inj hs ▸ ⟨hwaiting, hinbox, hcallbacks, rfl⟩
  | recv u =>
    obtain ⟨hstart, hs⟩ := Option.ite_none_right_eq_some.mp hs
    have hother : t ≠ u := by
      rintro rfl
      cases hwaiting.symm.trans hstart
    rw [take_empty hinbox] at hs
    split_ifs at hs
    · refine Option.some.inj hs ▸ ⟨?_, hinbox, hcallbacks, hrest⟩
      exact (Function.update_of_ne hother ..).trans hwaiting
    · exact Option.some.inj hs ▸ ⟨hsame u, hinbox, hcallbacks, hrest⟩
  | wake u =>
    obtain ⟨-, hs⟩ := Option.ite_none_right_eq_some.mp hs
    rw [take_empty hinbox] at hs
    exact Option.some.inj hs ▸ ⟨hsame u, hinbox, hcallbacks, hrest⟩
  | cancelRecv u =>
    obtain ⟨-, hs⟩ := Option.ite_none_right_eq_some.mp hs
    have hother : t ≠ u := fun htu => hcancel (congrArg Action.cancelRecv htu.symm)
    refine Option.some.inj hs ▸ ⟨?_, hinbox, hcallbacks, hrest⟩
    exact (Function.update_of_ne hother ..).trans hwaiting
  | close => exact absurd rfl hclose
  | callback =>
    simp only [start, hcallbacks] at hs
    cases hs
  | stop => exact Option.some.inj hs ▸ ⟨hwaiting, hinbox, hcallbacks, hrest⟩
  | next => cases hs

theorem act_stuck {t : ℕ} {action : Action} (h : Stuck s x t) (hinv : Inv s)
    (hclose : action ≠ .close) (hcancel : action ≠ .cancelRecv t)
    (hs : act c (s x) (s x.peer) action = some (own', posts)) :
    own'.recvs t = .waiting ∧ own'.inbox = some [] ∧ own'.callbacks = [] ∧
      closing own'.running = false := by
  unfold act at hs
  split at hs
  case h_1 segment hrunning =>
    have hclosing : closing (some segment) = false := by rw [← hrunning]; exact h.own
    obtain ⟨hrecvs, hinbox, hcallbacks, -, hfinished, -⟩ := stuck_advance c
      (s x.peer) ((hinv.standing x).allowed segment hrunning) hclosing
    obtain ⟨rfl, -⟩ := Prod.mk.inj (Option.some.inj hs)
    exact ⟨(congrFun hrecvs t).trans h.waiting, hinbox.trans h.inbox,
      hcallbacks.trans h.callbacks, hfinished⟩
  case h_2 => cases hs
  case h_3 action _ _ hidle =>
    split_ifs at hs
    obtain ⟨own, hstart, hown⟩ := Option.map_eq_some_iff.mp hs
    obtain ⟨rfl, -⟩ := Prod.mk.inj hown
    exact stuck_start h.waiting h.inbox h.callbacks (hinv.standing x) hidle hclose hcancel hstart

theorem Stuck.step {t : ℕ} {s' : State} {e : Side × Action} (h : Stuck s x t) (hinv : Inv s)
    (hclose : e ≠ (x, .close)) (hcancel : e ≠ (x, .cancelRecv t)) (hs : step c s e = some s') :
    Stuck s' x t := by
  obtain ⟨y, action⟩ := e
  obtain ⟨⟨own', posts⟩, hact, rfl⟩ := Option.map_eq_some_iff.mp hs
  obtain rfl | hother := y.eq_or_eq_peer x
  · obtain ⟨hwaiting, hinbox, hcallbacks, hfinished⟩ := act_stuck h hinv
      (fun haction => hclose (congrArg _ haction)) (fun haction => hcancel (congrArg _ haction))
      hact
    refine ⟨?_, ?_, ?_, ?_, ?_, ?_⟩
    · rwa [put_self]
    · rwa [put_self]
    · rwa [put_self]
    · rwa [put_self]
    · rw [put_peer]
      exact h.closed
    · rw [put_peer]
      exact h.finished
  · subst hother
    have hclosed := h.closed
    have hfinished := h.finished
    rw [Side.peer_peer] at hclosed hfinished
    obtain ⟨hclosed', hfinished', rfl⟩ := act_closed (hinv.standing y) hclosed hfinished hact
    refine ⟨?_, ?_, ?_, ?_, ?_, ?_⟩
    · rw [put_peer]
      exact h.waiting
    · rw [put_peer]
      exact h.inbox
    · rw [put_peer]
      exact (List.append_nil _).trans h.callbacks
    · rw [put_peer]
      exact h.own
    · rwa [Side.peer_peer, put_self]
    · rwa [Side.peer_peer, put_self]

/-- Such a call waits until it is cancelled, or its own end closes. -/
theorem Stuck.run {t : ℕ} {s' : State} {es : List (Side × Action)} (h : Stuck s x t)
    (hinv : Inv s) (hes : ∀ e ∈ es, e ≠ (x, .close) ∧ e ≠ (x, .cancelRecv t))
    (hs : Machine.run (ThreadTransport.step c) s es = some s') : Stuck s' x t := by
  induction es generalizing s with
  | nil => exact Option.some.inj hs ▸ h
  | cons e es ih =>
    obtain ⟨u, hu, hrun⟩ := Option.bind_eq_some_iff.mp hs
    obtain ⟨hclose, hcancel⟩ := hes e List.mem_cons_self
    have hnext := h.step hinv hclose hcancel hu
    exact ih hnext (hinv.step hu) (fun e' he' => hes e' (List.mem_cons_of_mem e he')) hrun

/-- Two calls wait at one end when the other end closes. -/
def twoReaders : List (Side × Action) :=
  List.flatten [[(.a, .connect)], nexts .a 2, [(.b, .connect)], nexts .b 2,
    [(.b, .recv 0), (.b, .recv 1), (.a, .close)], nexts .a 5, [(.b, .callback), (.b, .wake 0)]]

end WireRpc.ThreadTransport
