import WireRpc.ThreadTransport
import Mathlib.Data.List.ReduceOption

/-!
# Delivery between threads

What an end's `recv` calls have taken, what is in its inbox and what is posted to its loop
are, in this order, what the other end has handed over.
-/
namespace WireRpc.ThreadTransport
open Library

namespace End

/-- What has come to an end. -/
def items (e : End) : List (Option Bytes) :=
  e.popped.map Prod.snd ++ (e.inbox.getD [] ++ e.callbacks)

/-- What an end has handed to the other one: the messages, and `None` when it closed. -/
def handed (e : End) : List (Option Bytes) :=
  (e.posted.map fun p => some p.2) ++ if e.announced then [none] else []

/-- What its `recv` calls have returned. -/
def returned (e : End) : List Bytes := (e.popped.map Prod.snd).reduceOption

/-- The messages it holds. -/
def unread (e : End) : List Bytes := (e.inbox.getD [] ++ e.callbacks).reduceOption

def messages (e : End) : List Bytes := e.posted.map Prod.snd

theorem reduceOption_items (e : End) : e.items.reduceOption = e.returned ++ e.unread :=
  List.reduceOption_append _ _

theorem reduceOption_handed (e : End) : e.handed.reduceOption = e.messages := by
  unfold handed messages
  rw [List.reduceOption_append]
  have hposted : (e.posted.map fun p => some p.2).reduceOption = e.posted.map Prod.snd := by
    induction e.posted with
    | nil => rfl
    | cons p posted ih =>
      rw [List.map_cons, List.reduceOption_cons_of_some, ih, List.map_cons]
  rw [hposted]
  split_ifs
  · exact List.append_nil _
  · exact List.append_nil _

end End

/-- What holds inside `connect`, `send` and `close`. -/
def Allowed (e : End) : Segment → Prop
  | .connectLoop | .connectReady => True
  | .sendInbox t | .sendClosed t _ => e.sends t = .running
  | .sendLoop t _ | .sendCopy t => e.sends t = .running ∧ e.closed = false
  | .sendSize t data | .sendPost t data =>
    e.sends t = .running ∧ e.closed = false ∧ data = e.buffers t
  | .closeReady | .closeInbox | .closeLoop | .closePeerInbox | .closePost =>
    e.closed = true ∧ e.announced = false

/-- An end has one inbox in its life, and announces its end once. -/
structure Standing (e : End) : Prop where
  bound : e.inbox.isSome = true → e.loop = true ∨ e.running = some .connectLoop
  allowed : ∀ segment, e.running = some segment → Allowed e segment
  announced : e.announced = true → e.closed = true

/-- A `send` that has returned posted its message once, any other none. A `recv` that has
returned took one message. -/
structure Accounted (e : End) : Prop where
  posted : ∀ t, (e.posted.map Prod.fst).count t = if e.sends t = .returned then 1 else 0
  popped : ∀ t data, e.recvs t = .returned data ↔ (t, some data) ∈ e.popped
  ended : ∀ t item, (t, item) ∈ e.popped → e.recvs t ≠ .idle ∧ e.recvs t ≠ .waiting

variable {c : Config} {own own' peer : End} {posts : List (Option Bytes)}

theorem Accounted.setSend {t : ℕ} {phase : SendPhase} (h : Accounted own)
    (ht : own.sends t ≠ .returned) (hphase : phase ≠ .returned) :
    Accounted (own.setSend t phase) where
  posted u := by
    show (own.posted.map Prod.fst).count u =
      if Function.update own.sends t phase u = .returned then 1 else 0
    rw [h.posted]
    by_cases hu : u = t
    · subst hu
      rw [Function.update_self, if_neg ht, if_neg hphase]
    · rw [Function.update_of_ne hu]
  popped := h.popped
  ended := h.ended

theorem Accounted.post {t : ℕ} {data : Bytes} (h : Accounted own)
    (ht : own.sends t ≠ .returned) :
    Accounted ({ own with posted := own.posted ++ [(t, data)] }.setSend t .returned) where
  posted u := by
    show ((own.posted ++ [(t, data)]).map Prod.fst).count u =
      if Function.update own.sends t SendPhase.returned u = .returned then 1 else 0
    rw [List.map_append, List.count_append, h.posted]
    by_cases hu : u = t
    · subst hu
      rw [Function.update_self, if_neg ht, if_pos rfl]
      simp
    · rw [Function.update_of_ne hu]
      simp [Ne.symm hu]
  popped := h.popped
  ended := h.ended

/-- A call of `recv` begins, waits or raises. -/
theorem Accounted.setRecv {t : ℕ} {phase : RecvPhase} (h : Accounted own)
    (ht : own.recvs t = .idle ∨ own.recvs t = .waiting) (hphase : ∀ data, phase ≠ .returned data) :
    Accounted (own.setRecv t phase) where
  posted := h.posted
  popped u data := by
    show Function.update own.recvs t phase u = .returned data ↔ (u, some data) ∈ own.popped
    rw [← h.popped]
    by_cases hu : u = t
    · subst hu
      rw [Function.update_self]
      refine iff_of_false (hphase data) fun hreturned => ?_
      obtain hidle | hwaiting := ht
      · nomatch hidle.symm.trans hreturned
      · nomatch hwaiting.symm.trans hreturned
    · rw [Function.update_of_ne hu]
  ended u item hmem := by
    have hu : u ≠ t := by
      rintro rfl
      obtain hidle | hwaiting := ht
      · exact (h.ended u item hmem).1 hidle
      · exact (h.ended u item hmem).2 hwaiting
    show Function.update own.recvs t phase u ≠ .idle ∧
      Function.update own.recvs t phase u ≠ .waiting
    rw [Function.update_of_ne hu]
    exact h.ended u item hmem

theorem outcome_eq_returned {item : Option Bytes} {data : Bytes} :
    outcome item = .returned data ↔ item = some data := by
  cases item <;> simp [outcome]

theorem Accounted.take {t : ℕ} (h : Accounted own)
    (ht : own.recvs t = .idle ∨ own.recvs t = .waiting) : Accounted (take own t) := by
  have hnew (item : Option Bytes) : (t, item) ∉ own.popped := by
    intro hmem
    obtain hidle | hwaiting := ht
    · exact (h.ended t item hmem).1 hidle
    · exact (h.ended t item hmem).2 hwaiting
  unfold ThreadTransport.take
  split
  case h_1 item rest hinbox =>
    refine ⟨h.posted, fun u data => ?_, fun u item' hmem => ?_⟩
    · show Function.update own.recvs t (outcome item) u = .returned data ↔
        (u, some data) ∈ own.popped ++ [(t, item)]
      rw [List.mem_append, ← h.popped, List.mem_singleton, Prod.mk.injEq]
      by_cases hu : u = t
      · subst hu
        rw [Function.update_self, outcome_eq_returned, h.popped]
        simp [hnew, eq_comm]
      · rw [Function.update_of_ne hu]
        simp [hu]
    · show Function.update own.recvs t (outcome item) u ≠ .idle ∧
        Function.update own.recvs t (outcome item) u ≠ .waiting
      by_cases hu : u = t
      · subst hu
        rw [Function.update_self]
        cases item <;> simp [outcome]
      · rw [Function.update_of_ne hu]
        obtain hold | hlast := List.mem_append.mp hmem
        · exact h.ended u item' hold
        · exact absurd (Prod.mk.inj (List.mem_singleton.mp hlast)).1 hu
  case h_2 => exact h.setRecv ht fun _ => nofun

/-- Accounts do not look at the rest of an end. -/
theorem Accounted.congr (h : Accounted own) (hposted : own'.posted = own.posted)
    (hsends : own'.sends = own.sends) (hrecvs : own'.recvs = own.recvs)
    (hpopped : own'.popped = own.popped) : Accounted own' where
  posted t := by rw [hposted, hsends, h.posted]
  popped t data := by rw [hrecvs, hpopped, h.popped]
  ended t item hmem := by
    rw [hpopped] at hmem
    rw [hrecvs]
    exact h.ended t item hmem

theorem Accounted.fail {t : ℕ} (h : Accounted own) (ht : own.sends t ≠ .returned) (e : Failure) :
    Accounted (own.fail t e) := by
  have hset : Accounted (own.setSend t (.raised e)) := h.setSend ht nofun
  exact hset.congr rfl rfl rfl rfl

theorem Accounted.resume {t : ℕ} (h : Accounted own) (ht : own.sends t ≠ .returned)
    (segment : Segment) : Accounted ((own.setSend t .running).goto segment) := by
  have hset : Accounted (own.setSend t .running) := h.setSend ht nofun
  exact hset.congr rfl rfl rfl rfl

theorem Accounted.start {action : Action} (h : Accounted own)
    (hs : start c own peer action = some own') : Accounted own' := by
  cases action with
  | connect =>
    simp only [ThreadTransport.start] at hs
    split_ifs at hs
    · exact Option.some.inj hs ▸ h
    · exact Option.some.inj hs ▸ h.congr rfl rfl rfl rfl
  | send t data =>
    obtain ⟨hidle, hs⟩ := Option.ite_none_right_eq_some.mp hs
    have hbuffer : Accounted { own with buffers := Function.update own.buffers t data } :=
      h.congr rfl rfl rfl rfl
    have hsends : own.sends t ≠ .returned := by simp [hidle]
    split_ifs at hs
    · exact Option.some.inj hs ▸ hbuffer.fail hsends .closed
    · exact Option.some.inj hs ▸ hbuffer.fail hsends .invalidFrameSize
    · exact Option.some.inj hs ▸ hbuffer.resume hsends (.sendInbox t)
    · exact Option.some.inj hs ▸ hbuffer.setSend hsends nofun
  | change t data => exact Option.some.inj hs ▸ h.congr rfl rfl rfl rfl
  | resume t =>
    obtain ⟨⟨hwaiting, -⟩, hs⟩ := Option.ite_none_right_eq_some.mp hs
    exact Option.some.inj hs ▸ h.resume (by simp [hwaiting]) (.sendInbox t)
  | timeout t =>
    obtain ⟨hwaiting, hs⟩ := Option.ite_none_right_eq_some.mp hs
    exact Option.some.inj hs ▸ h.fail (by simp [hwaiting]) .notConnected
  | cancelSend t =>
    obtain ⟨hwaiting, hs⟩ := Option.ite_none_right_eq_some.mp hs
    exact Option.some.inj hs ▸ h.fail (by simp [hwaiting]) .cancelled
  | recv t =>
    obtain ⟨hidle, hs⟩ := Option.ite_none_right_eq_some.mp hs
    split_ifs at hs
    · exact Option.some.inj hs ▸ h.setRecv (Or.inl hidle) fun _ => nofun
    · exact Option.some.inj hs ▸ h.take (Or.inl hidle)
  | wake t =>
    obtain ⟨hwaiting, hs⟩ := Option.ite_none_right_eq_some.mp hs
    exact Option.some.inj hs ▸ h.take (Or.inr hwaiting)
  | cancelRecv t =>
    obtain ⟨hwaiting, hs⟩ := Option.ite_none_right_eq_some.mp hs
    exact Option.some.inj hs ▸ h.setRecv (Or.inr hwaiting) fun _ => nofun
  | close =>
    simp only [ThreadTransport.start] at hs
    split_ifs at hs
    · exact Option.some.inj hs ▸ h
    · exact Option.some.inj hs ▸ h.congr rfl rfl rfl rfl
  | callback =>
    simp only [ThreadTransport.start] at hs
    split at hs
    case h_1 => exact Option.some.inj hs ▸ h.congr rfl rfl rfl rfl
    case h_2 => nomatch hs
  | stop => exact Option.some.inj hs ▸ h.congr rfl rfl rfl rfl
  | next => nomatch hs

theorem Accounted.advance {segment : Segment} (h : Accounted own)
    (hallowed : Allowed own segment) : Accounted (advance c own peer segment).1 := by
  have hsends {t : ℕ} (ht : own.sends t = .running) : own.sends t ≠ .returned := by simp [ht]
  cases segment with
  | sendClosed t inbox =>
    simp only [ThreadTransport.advance]
    split_ifs
    · exact h.fail (hsends hallowed) .closed
    · exact h.congr rfl rfl rfl rfl
  | sendLoop t inbox =>
    simp only [ThreadTransport.advance]
    split_ifs
    · exact h.fail (hsends hallowed.1) .closed
    · exact h.congr rfl rfl rfl rfl
  | sendSize t data =>
    simp only [ThreadTransport.advance]
    split_ifs
    · exact h.fail (hsends hallowed.1) .full
    · exact h.congr rfl rfl rfl rfl
  | sendPost t data =>
    simp only [ThreadTransport.advance]
    split_ifs
    · exact h.fail (hsends hallowed.1) .closed
    · exact (h.post (hsends hallowed.1)).congr rfl rfl rfl rfl
  | closeLoop =>
    simp only [ThreadTransport.advance]
    split_ifs
    all_goals exact h.congr rfl rfl rfl rfl
  | closePeerInbox =>
    simp only [ThreadTransport.advance]
    split_ifs
    all_goals exact h.congr rfl rfl rfl rfl
  | closePost =>
    simp only [ThreadTransport.advance]
    split_ifs
    all_goals exact h.congr rfl rfl rfl rfl
  | connectLoop => exact h.congr rfl rfl rfl rfl
  | connectReady => exact h.congr rfl rfl rfl rfl
  | sendInbox t => exact h.congr rfl rfl rfl rfl
  | sendCopy t => exact h.congr rfl rfl rfl rfl
  | closeReady => exact h.congr rfl rfl rfl rfl
  | closeInbox => exact h.congr rfl rfl rfl rfl

/-- `posts` is what an end hands over. Of what has come to it nothing is lost and nothing
changes places; only when it closes it adds a `None` of its own. -/
structure Effect (own own' : End) (posts : List (Option Bytes)) : Prop where
  items : own'.items.reduceOption = own.items.reduceOption
  order : own'.closed = false → own.closed = false ∧ own'.items = own.items
  handed : own'.handed = own.handed ++ posts

theorem Effect.quiet (hitems : own'.items = own.items) (hclosed : own'.closed = own.closed)
    (hhanded : own'.handed = own.handed) : Effect own own' [] where
  items := by rw [hitems]
  order h := ⟨hclosed ▸ h, hitems⟩
  handed := by rw [hhanded, List.append_nil]

theorem take_effect (t : ℕ) : Effect own (take own t) [] := by
  unfold ThreadTransport.take
  split
  case h_1 item rest hinbox =>
    refine Effect.quiet ?_ rfl rfl
    simp [End.items, End.setRecv, hinbox]
  case h_2 => exact Effect.quiet rfl rfl rfl

theorem start_effect {action : Action} (h : Standing own) (hidle : own.running = none)
    (hs : start c own peer action = some own') : Effect own own' [] := by
  cases action with
  | connect =>
    simp only [ThreadTransport.start] at hs
    split_ifs at hs with hconnected
    · exact Option.some.inj hs ▸ Effect.quiet rfl rfl rfl
    · have hinbox : own.inbox = none := by
        apply Option.not_isSome_iff_eq_none.mp
        intro hsome
        obtain hloop | hrunning := h.bound hsome
        · simp [hloop] at hconnected
        · nomatch hidle.symm.trans hrunning
      refine Option.some.inj hs ▸ Effect.quiet ?_ rfl rfl
      simp [End.items, End.goto, hinbox]
  | send t data =>
    obtain ⟨-, hs⟩ := Option.ite_none_right_eq_some.mp hs
    split_ifs at hs
    all_goals exact Option.some.inj hs ▸ Effect.quiet rfl rfl rfl
  | change t data => exact Option.some.inj hs ▸ Effect.quiet rfl rfl rfl
  | resume t =>
    obtain ⟨-, hs⟩ := Option.ite_none_right_eq_some.mp hs
    exact Option.some.inj hs ▸ Effect.quiet rfl rfl rfl
  | timeout t =>
    obtain ⟨-, hs⟩ := Option.ite_none_right_eq_some.mp hs
    exact Option.some.inj hs ▸ Effect.quiet rfl rfl rfl
  | cancelSend t =>
    obtain ⟨-, hs⟩ := Option.ite_none_right_eq_some.mp hs
    exact Option.some.inj hs ▸ Effect.quiet rfl rfl rfl
  | recv t =>
    obtain ⟨-, hs⟩ := Option.ite_none_right_eq_some.mp hs
    split_ifs at hs
    · exact Option.some.inj hs ▸ Effect.quiet rfl rfl rfl
    · exact Option.some.inj hs ▸ take_effect t
  | wake t =>
    obtain ⟨-, hs⟩ := Option.ite_none_right_eq_some.mp hs
    exact Option.some.inj hs ▸ take_effect t
  | cancelRecv t =>
    obtain ⟨-, hs⟩ := Option.ite_none_right_eq_some.mp hs
    exact Option.some.inj hs ▸ Effect.quiet rfl rfl rfl
  | close =>
    simp only [ThreadTransport.start] at hs
    split_ifs at hs
    · exact Option.some.inj hs ▸ Effect.quiet rfl rfl rfl
    · obtain rfl := Option.some.inj hs
      exact ⟨rfl, nofun, (List.append_nil _).symm⟩
  | callback =>
    simp only [ThreadTransport.start] at hs
    split at hs
    case h_1 item rest inbox hcallbacks hinbox =>
      refine Option.some.inj hs ▸ Effect.quiet ?_ rfl rfl
      simp [End.items, hcallbacks, hinbox]
    case h_2 => nomatch hs
  | stop => exact Option.some.inj hs ▸ Effect.quiet rfl rfl rfl
  | next => nomatch hs

theorem advance_effect {segment : Segment} (hallowed : Allowed own segment)
    (h : Standing own) :
    Effect own (advance c own peer segment).1 (advance c own peer segment).2 := by
  cases segment with
  | sendClosed t inbox =>
    simp only [ThreadTransport.advance]
    split_ifs
    all_goals exact Effect.quiet rfl rfl rfl
  | sendLoop t inbox =>
    simp only [ThreadTransport.advance]
    split_ifs
    all_goals exact Effect.quiet rfl rfl rfl
  | sendSize t data =>
    simp only [ThreadTransport.advance]
    split_ifs
    all_goals exact Effect.quiet rfl rfl rfl
  | sendPost t data =>
    simp only [ThreadTransport.advance]
    split_ifs
    · exact Effect.quiet rfl rfl rfl
    · have hannounced : own.announced = false := by
        apply Bool.eq_false_iff.mpr
        intro hannounced
        nomatch (h.announced hannounced).symm.trans hallowed.2.1
      refine ⟨rfl, fun hopen => ⟨hopen, rfl⟩, ?_⟩
      simp [End.handed, End.done, End.setSend, hannounced]
  | closePost =>
    simp only [ThreadTransport.advance]
    split_ifs
    · exact Effect.quiet rfl rfl rfl
    · refine ⟨rfl, fun hopen => ⟨hopen, rfl⟩, ?_⟩
      simp [End.handed, End.done, hallowed.2]
  | closeInbox =>
    refine ⟨?_, fun hopen => ?_, (List.append_nil _).symm⟩
    · show (own.popped.map Prod.snd ++ ((own.inbox.map (· ++ [none])).getD [] ++
        own.callbacks)).reduceOption = _
      cases hinbox : own.inbox with
      | none => simp [End.items, hinbox]
      | some inbox => simp [End.items, hinbox, List.reduceOption]
    · nomatch hallowed.1.symm.trans hopen
  | closeLoop =>
    simp only [ThreadTransport.advance]
    split_ifs
    all_goals exact Effect.quiet rfl rfl rfl
  | closePeerInbox =>
    simp only [ThreadTransport.advance]
    split_ifs
    all_goals exact Effect.quiet rfl rfl rfl
  | connectLoop => exact Effect.quiet rfl rfl rfl
  | connectReady => exact Effect.quiet rfl rfl rfl
  | sendInbox t => exact Effect.quiet rfl rfl rfl
  | sendCopy t => exact Effect.quiet rfl rfl rfl
  | closeReady => exact Effect.quiet rfl rfl rfl

theorem Standing.at_rest (hrunning : own.running = none)
    (hbound : own.inbox.isSome = true → own.loop = true)
    (hannounced : own.announced = true → own.closed = true) : Standing own where
  bound hsome := Or.inl (hbound hsome)
  allowed _ h := nomatch hrunning.symm.trans h
  announced := hannounced

theorem Standing.inside {segment : Segment} (hrunning : own.running = some segment)
    (hbound : own.inbox.isSome = true → own.loop = true) (hallowed : Allowed own segment)
    (hannounced : own.announced = true → own.closed = true) : Standing own where
  bound hsome := Or.inl (hbound hsome)
  allowed _ h := Option.some.inj (hrunning.symm.trans h) ▸ hallowed
  announced := hannounced

theorem Standing.loop (h : Standing own) (hrunning : own.running ≠ some .connectLoop)
    (hsome : own.inbox.isSome = true) : own.loop = true :=
  (h.bound hsome).resolve_right hrunning

theorem Standing.take {t : ℕ} (h : Standing own) (hidle : own.running = none) :
    Standing (take own t) := by
  have hloop := h.loop (by simp [hidle])
  unfold ThreadTransport.take
  split
  case h_1 item rest hinbox =>
    exact Standing.at_rest hidle (fun _ => hloop (by rw [hinbox]; rfl)) h.announced
  case h_2 => exact Standing.at_rest hidle hloop h.announced

theorem Standing.start {action : Action} (h : Standing own) (hidle : own.running = none)
    (hs : start c own peer action = some own') : Standing own' := by
  have hloop := h.loop (by simp [hidle])
  cases action with
  | connect =>
    simp only [ThreadTransport.start] at hs
    split_ifs at hs
    · exact Option.some.inj hs ▸ h
    · obtain rfl := Option.some.inj hs
      refine ⟨fun _ => Or.inr rfl, fun segment hsegment => ?_, h.announced⟩
      obtain rfl := Option.some.inj hsegment
      trivial
  | send t data =>
    obtain ⟨-, hs⟩ := Option.ite_none_right_eq_some.mp hs
    split_ifs at hs
    · exact Option.some.inj hs ▸ Standing.at_rest rfl hloop h.announced
    · exact Option.some.inj hs ▸ Standing.at_rest rfl hloop h.announced
    · obtain rfl := Option.some.inj hs
      exact Standing.inside rfl hloop (Function.update_self ..) h.announced
    · exact Option.some.inj hs ▸ Standing.at_rest hidle hloop h.announced
  | change t data => exact Option.some.inj hs ▸ Standing.at_rest hidle hloop h.announced
  | resume t =>
    obtain ⟨-, hs⟩ := Option.ite_none_right_eq_some.mp hs
    obtain rfl := Option.some.inj hs
    exact Standing.inside rfl hloop (Function.update_self ..) h.announced
  | timeout t =>
    obtain ⟨-, hs⟩ := Option.ite_none_right_eq_some.mp hs
    exact Option.some.inj hs ▸ Standing.at_rest rfl hloop h.announced
  | cancelSend t =>
    obtain ⟨-, hs⟩ := Option.ite_none_right_eq_some.mp hs
    exact Option.some.inj hs ▸ Standing.at_rest rfl hloop h.announced
  | recv t =>
    obtain ⟨-, hs⟩ := Option.ite_none_right_eq_some.mp hs
    split_ifs at hs
    · exact Option.some.inj hs ▸ Standing.at_rest hidle hloop h.announced
    · exact Option.some.inj hs ▸ h.take hidle
  | wake t =>
    obtain ⟨-, hs⟩ := Option.ite_none_right_eq_some.mp hs
    exact Option.some.inj hs ▸ h.take hidle
  | cancelRecv t =>
    obtain ⟨-, hs⟩ := Option.ite_none_right_eq_some.mp hs
    exact Option.some.inj hs ▸ Standing.at_rest hidle hloop h.announced
  | close =>
    simp only [ThreadTransport.start] at hs
    split_ifs at hs with hclosed
    · exact Option.some.inj hs ▸ h
    · obtain rfl := Option.some.inj hs
      have hannounced : own.announced = false :=
        Bool.eq_false_iff.mpr fun hannounced => hclosed (h.announced hannounced)
      exact Standing.inside rfl hloop ⟨rfl, hannounced⟩ fun _ => rfl
  | callback =>
    simp only [ThreadTransport.start] at hs
    split at hs
    case h_1 item rest inbox hcallbacks hinbox =>
      obtain rfl := Option.some.inj hs
      exact Standing.at_rest hidle (fun _ => hloop (by rw [hinbox]; rfl)) h.announced
    case h_2 => nomatch hs
  | stop => exact Option.some.inj hs ▸ Standing.at_rest hidle hloop h.announced
  | next => nomatch hs

theorem Standing.advance {segment : Segment} (h : Standing own)
    (hrunning : own.running = some segment) : Standing (advance c own peer segment).1 := by
  have hallowed := h.allowed segment hrunning
  have hloop (hsegment : segment ≠ .connectLoop) := h.loop (by simpa [hrunning] using hsegment)
  cases segment with
  | connectLoop => exact Standing.inside rfl (fun _ => rfl) trivial h.announced
  | connectReady => exact Standing.at_rest rfl (hloop nofun) h.announced
  | sendInbox t => exact Standing.inside rfl (hloop nofun) hallowed h.announced
  | sendClosed t inbox =>
    simp only [ThreadTransport.advance]
    split_ifs with hclosed
    · exact Standing.at_rest rfl (hloop nofun) h.announced
    · have hopen : own.closed = false := (Bool.or_eq_false_iff.mp (by simpa using hclosed)).1
      exact Standing.inside rfl (hloop nofun) ⟨hallowed, hopen⟩ h.announced
  | sendLoop t inbox =>
    simp only [ThreadTransport.advance]
    split_ifs
    · exact Standing.at_rest rfl (hloop nofun) h.announced
    · exact Standing.inside rfl (hloop nofun) hallowed h.announced
  | sendCopy t =>
    exact Standing.inside rfl (hloop nofun) ⟨hallowed.1, hallowed.2, rfl⟩ h.announced
  | sendSize t data =>
    simp only [ThreadTransport.advance]
    split_ifs
    · exact Standing.at_rest rfl (hloop nofun) h.announced
    · exact Standing.inside rfl (hloop nofun) hallowed h.announced
  | sendPost t data =>
    simp only [ThreadTransport.advance]
    split_ifs
    · exact Standing.at_rest rfl (hloop nofun) h.announced
    · exact Standing.at_rest rfl (hloop nofun) h.announced
  | closeReady => exact Standing.inside rfl (hloop nofun) hallowed h.announced
  | closeInbox =>
    refine Standing.inside rfl (fun hsome => hloop nofun ?_) hallowed h.announced
    exact (Option.isSome_map ..).symm.trans hsome
  | closeLoop =>
    simp only [ThreadTransport.advance]
    split_ifs
    · exact Standing.inside rfl (hloop nofun) hallowed h.announced
    · exact Standing.at_rest rfl (hloop nofun) h.announced
  | closePeerInbox =>
    simp only [ThreadTransport.advance]
    split_ifs
    · exact Standing.inside rfl (hloop nofun) hallowed h.announced
    · exact Standing.at_rest rfl (hloop nofun) h.announced
  | closePost =>
    simp only [ThreadTransport.advance]
    split_ifs
    · exact Standing.at_rest rfl (hloop nofun) h.announced
    · exact Standing.at_rest rfl (hloop nofun) fun _ => hallowed.1

structure Inv (s : State) : Prop where
  standing : ∀ x, Standing (s x)
  accounted : ∀ x, Accounted (s x)
  items : ∀ x, (s x.peer).items.reduceOption = (s x).handed.reduceOption
  order : ∀ x, (s x.peer).closed = false → (s x.peer).items = (s x).handed

theorem inv_pair : Inv pair where
  standing _ := Standing.at_rest rfl nofun nofun
  accounted _ := ⟨fun _ => rfl, fun _ _ => by simp [pair], fun _ _ => nofun⟩
  items _ := rfl
  order _ _ := rfl

/-- What an end does in one step. -/
theorem act_spec {action : Action} (hstanding : Standing own) (haccounted : Accounted own)
    (hs : act c own peer action = some (own', posts)) :
    Standing own' ∧ Accounted own' ∧ Effect own own' posts := by
  unfold act at hs
  split at hs
  case h_1 segment hrunning =>
    obtain ⟨rfl, rfl⟩ := Prod.mk.inj (Option.some.inj hs)
    have hallowed := hstanding.allowed segment hrunning
    exact ⟨hstanding.advance hrunning, haccounted.advance hallowed,
      advance_effect hallowed hstanding⟩
  case h_2 => nomatch hs
  case h_3 hrunning =>
    split_ifs at hs
    obtain ⟨e, hstart, he⟩ := Option.map_eq_some_iff.mp hs
    obtain ⟨rfl, rfl⟩ := Prod.mk.inj he
    exact ⟨hstanding.start hrunning hstart, haccounted.start hstart,
      start_effect hstanding hrunning hstart⟩

theorem Standing.posted (h : Standing own) (items : List (Option Bytes)) :
    Standing { own with callbacks := own.callbacks ++ items } :=
  ⟨h.bound, h.allowed, h.announced⟩

theorem items_posted (e : End) (items : List (Option Bytes)) :
    { e with callbacks := e.callbacks ++ items }.items = e.items ++ items := by
  simp [End.items]

theorem Inv.put {s : State} {x : Side} (h : Inv s) (hstanding : Standing own')
    (haccounted : Accounted own') (heffect : Effect (s x) own' posts) :
    Inv (put s x (own', posts)) := by
  refine ⟨fun y => ?_, fun y => ?_, fun y => ?_, fun y => ?_⟩
  · obtain rfl | rfl := x.eq_or_eq_peer y
    · rwa [put_self]
    · rw [put_peer]
      exact (h.standing x.peer).posted posts
  · obtain rfl | rfl := x.eq_or_eq_peer y
    · rwa [put_self]
    · rw [put_peer]
      exact (h.accounted x.peer).congr rfl rfl rfl rfl
  · obtain rfl | rfl := x.eq_or_eq_peer y
    · rw [put_self, put_peer, items_posted, heffect.handed]
      simp only [List.reduceOption, List.filterMap_append]
      exact congrArg (· ++ _) (h.items y)
    · rw [Side.peer_peer, put_self, put_peer]
      have hitems := h.items x.peer
      rw [Side.peer_peer] at hitems
      exact heffect.items.trans hitems
  · obtain rfl | rfl := x.eq_or_eq_peer y
    · rw [put_self, put_peer, items_posted, heffect.handed]
      intro hopen
      exact congrArg (· ++ posts) (h.order y hopen)
    · rw [Side.peer_peer, put_self, put_peer]
      intro hopen
      have horder := h.order x.peer
      rw [Side.peer_peer] at horder
      exact (heffect.order hopen).2.trans (horder (heffect.order hopen).1)

theorem Inv.step {s s' : State} {e : Side × Action} (h : Inv s) (hs : step c s e = some s') :
    Inv s' := by
  obtain ⟨x, action⟩ := e
  obtain ⟨⟨own', posts⟩, hact, rfl⟩ := Option.map_eq_some_iff.mp hs
  obtain ⟨hstanding, haccounted, heffect⟩ := act_spec (h.standing x) (h.accounted x) hact
  exact h.put hstanding haccounted heffect

theorem inv_run {s : State} {es : List (Side × Action)}
    (h : Machine.run (ThreadTransport.step c) pair es = some s) : Inv s :=
  Machine.invariant (fun _ _ _ hs hstep => hs.step hstep) inv_pair h

theorem advance_posts (c : Config) (own peer : End) (segment : Segment) :
    (advance c own peer segment).2.reduceOption = [] ∧
      (∀ t data, segment = .sendPost t data → peer.stopped = true) ∨
    ∃ t data, segment = .sendPost t data ∧ peer.stopped = false ∧
      (advance c own peer segment).2 = [some data] ∧
      (advance c own peer segment).1.sends t = .returned := by
  cases segment with
  | sendPost t data =>
    simp only [ThreadTransport.advance]
    split_ifs with hstopped
    · exact Or.inl ⟨rfl, fun _ _ _ => hstopped⟩
    · exact Or.inr ⟨t, data, rfl, by simpa using hstopped, rfl, Function.update_self ..⟩
  | connectLoop | connectReady | sendInbox | sendCopy | closeReady | closeInbox =>
    exact Or.inl ⟨rfl, nofun⟩
  | sendClosed | sendLoop | sendSize | closeLoop | closePeerInbox | closePost =>
    simp only [ThreadTransport.advance]
    split_ifs
    all_goals exact Or.inl ⟨rfl, nofun⟩

/-- A step posts a message when a `send` returns, and posts what is in its buffer. -/
theorem act_messages {action : Action} (hstanding : Standing own) (haccounted : Accounted own)
    (hs : act c own peer action = some (own', posts)) :
    own'.messages = own.messages ∨ ∃ t, own.sends t = .running ∧ own'.sends t = .returned ∧
      own'.messages = own.messages ++ [own.buffers t] := by
  obtain ⟨-, -, heffect⟩ := act_spec hstanding haccounted hs
  have hmessages : own'.messages = own.messages ++ posts.reduceOption := by
    rw [← own'.reduceOption_handed, heffect.handed, ← own.reduceOption_handed]
    exact List.filterMap_append ..
  unfold act at hs
  split at hs
  case h_1 segment hrunning =>
    have hadvance : advance c own peer segment = (own', posts) := Option.some.inj hs
    have hposts := advance_posts c own peer segment
    rw [hadvance] at hposts
    obtain ⟨hnone, -⟩ | ⟨t, data, rfl, -, hposts, hreturned⟩ := hposts
    · rw [hnone, List.append_nil] at hmessages
      exact Or.inl hmessages
    · obtain ⟨hsends, -, rfl⟩ := hstanding.allowed _ hrunning
      refine Or.inr ⟨t, hsends, hreturned, ?_⟩
      rw [hmessages]
      exact congrArg (own.messages ++ ·) (congrArg List.reduceOption hposts)
  case h_2 => nomatch hs
  case h_3 hrunning =>
    split_ifs at hs
    obtain ⟨e, -, he⟩ := Option.map_eq_some_iff.mp hs
    obtain ⟨-, rfl⟩ := Prod.mk.inj he
    exact Or.inl (hmessages.trans (List.append_nil _))

/-- What an end `x` sends and the other end receives. A `send` that returned has posted its
message once, one that raised has not. What `recv` calls have returned, and then what the
other end still holds, are the messages in the order in which they were posted. When a `recv`
on an end that is open reports that `x` has closed, all of them have been returned. A step
posts what the buffer holds at that moment. -/
structure Delivers (c : Config) (s : State) (x : Side) : Prop where
  once : ∀ t, (s x).sends t = .returned → ((s x).posted.map Prod.fst).count t = 1
  raised : ∀ t failure, (s x).sends t = .raised failure → t ∉ (s x).posted.map Prod.fst
  received : ∀ t data, (s x.peer).recvs t = .returned data ↔ (t, some data) ∈ (s x.peer).popped
  ordered : (s x.peer).returned ++ (s x.peer).unread = (s x).messages
  complete : (s x.peer).closed = false → ∀ t, (t, none) ∈ (s x.peer).popped →
    (s x.peer).returned = (s x).messages
  copied : ∀ e s', step c s e = some s' → (s' x).messages = (s x).messages ∨
    ∃ t, (s x).sends t = .running ∧ (s' x).sends t = .returned ∧
      (s' x).messages = (s x).messages ++ [(s x).buffers t]

theorem Inv.complete {s : State} {x : Side} (h : Inv s) (hopen : (s x.peer).closed = false)
    {t : ℕ} (hnone : (t, none) ∈ (s x.peer).popped) : (s x.peer).unread = [] := by
  have horder := h.order x hopen
  have hpopped : none ∈ (s x.peer).popped.map Prod.snd := List.mem_map_of_mem hnone
  have hposted : none ∉ (s x).posted.map fun p => some p.2 := by simp
  unfold End.items End.handed at horder
  unfold End.unread
  split_ifs at horder with hannounced
  · -- the last thing that was handed over is the only `None`
    obtain hnil | ⟨rest, last, hlast⟩ :=
      ((s x.peer).inbox.getD [] ++ (s x.peer).callbacks).eq_nil_or_concat'
    · rw [hnil]
      rfl
    · rw [hlast, ← List.append_assoc] at horder
      obtain ⟨hfront, -⟩ := List.append_inj' horder rfl
      exact absurd (hfront ▸ List.mem_append_left rest hpopped) hposted
  · rw [List.append_nil] at horder
    exact absurd (horder ▸ List.mem_append_left _ hpopped) hposted

theorem Inv.delivers {s : State} (h : Inv s) (c : Config) (x : Side) : Delivers c s x where
  once t ht := by rw [(h.accounted x).posted, if_pos ht]
  raised t failure ht := by
    apply List.count_eq_zero.mp
    rw [(h.accounted x).posted, if_neg (by simp [ht])]
  received := (h.accounted x.peer).popped
  ordered := by
    rw [← End.reduceOption_items, h.items, End.reduceOption_handed]
  complete hopen t hnone := by
    rw [← End.reduceOption_handed, ← h.items, End.reduceOption_items, h.complete hopen hnone,
      List.append_nil]
  copied e s' hs := by
    obtain ⟨y, action⟩ := e
    obtain ⟨⟨own', posts⟩, hact, rfl⟩ := Option.map_eq_some_iff.mp hs
    obtain rfl | rfl := y.eq_or_eq_peer x
    · rw [put_self]
      exact act_messages (h.standing x) (h.accounted x) hact
    · rw [put_peer]
      exact Or.inl rfl

/-- Whatever the two threads do in whatever order, the messages of each end arrive at the
other one in order, none of them lost. -/
theorem delivered_in_order (c : Config) (es : List (Side × Action)) {s : State}
    (h : Machine.run (step c) pair es = some s) (x : Side) : Delivers c s x :=
  (inv_run h).delivers c x

def limits : Config := ⟨10, 1, Nat.one_pos⟩

def nexts (x : Side) (n : ℕ) : List (Side × Action) := List.replicate n (x, .next)

/-- A `send` waits for the other end to connect, a `recv` is cancelled, and the sender
closes. -/
def lateRun : List (Side × Action) :=
  List.flatten [
    [(.a, .send 0 [1, 2]), (.b, .connect), (.b, .next), (.b, .next), (.a, .resume 0)], nexts .a 6,
    [(.b, .recv 0), (.b, .cancelRecv 0), (.b, .callback), (.b, .recv 1), (.a, .close)],
    nexts .a 5, [(.b, .callback), (.b, .recv 2)]]

theorem delivered_in_order_late : ∃ s, Machine.run (step limits) pair lateRun = some s ∧
    (s .b).recvs 1 = .returned [1, 2] ∧ (s .b).recvs 2 = .raised .closed ∧
      Delivers limits s .a := by
  have hrun : (Machine.run (step limits) pair lateRun).map
      (fun s => ((s .b).recvs 1, (s .b).recvs 2)) = some (.returned [1, 2], .raised .closed) := by
    decide +kernel
  obtain ⟨s, hs, hrecvs⟩ := Option.map_eq_some_iff.mp hrun
  obtain ⟨hfirst, hsecond⟩ := Prod.mk.inj hrecvs
  exact ⟨s, hs, hfirst, hsecond, delivered_in_order limits lateRun hs .a⟩

end WireRpc.ThreadTransport
