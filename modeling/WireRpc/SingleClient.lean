import WireRpc.Library.Machine

/-!
# One client over TCP

Handling tasks of a server for a single client. A task reserves the place, has the
connection authenticated and keeps it, or closes its writer. `close()` may be called any
number of times. An event is a stretch between two awaits of one of these tasks.
-/
namespace WireRpc

/-- How a call of the authenticator ends. -/
inductive Verdict where
  | principal (name : String)
  | rejected
  | timedOut
  | unavailable
  | raised
  | cancelled
  deriving DecidableEq

namespace SingleClient
open Library

structure Config where
  authenticates : Bool
  keepAlive : Bool

/-- Where `_handle_client` stands: not accepted yet, in `verify`, in `_close_writer`, or
over. -/
inductive Handler where
  | absent
  | verifying
  | dismissing
  | ended
  deriving DecidableEq

/-- Where a call of `close` stands. -/
inductive Closer where
  | absent
  | draining (tracked : Finset ℕ)
  | closingConnection
  | awaitingServer
  | returned
  | cancelled
  deriving DecidableEq

/-- Connections have the number of their handling task. `held`, the connections that
were ever kept, belongs to the history. -/
structure State where
  accepting : Bool
  connection : Option (ℕ × Option String)
  connected : Bool
  closing : Bool
  connectionTasks : Finset ℕ
  handlers : ℕ → Handler
  writerClosed : ℕ → Bool
  closers : ℕ → Closer
  held : List ℕ

def start : State where
  accepting := false
  connection := none
  connected := false
  closing := false
  connectionTasks := ∅
  handlers := fun _ => .absent
  writerClosed := fun _ => false
  closers := fun _ => .absent
  held := []

/-- `refused` is a socket that takes no keep-alive options, and `interrupted` a
cancellation while the writer closes. -/
inductive Event where
  | accept (t : ℕ) (refused : Bool)
  | verified (t : ℕ) (verdict : Verdict)
  | dismissed (t : ℕ) (interrupted : Bool)
  | beginClose (k : ℕ)
  | drained (k : ℕ)
  | connectionClosed (k : ℕ)
  | returned (k : ℕ)
  | cancelClose (k : ℕ)

section
variable (c : Config) (s : State)

/-- `_close_writer` closes the writer before its first await. -/
def dismiss (t : ℕ) : State :=
  { s with
    handlers := Function.update s.handlers t .dismissing
    writerClosed := Function.update s.writerClosed t true }

def hold (t : ℕ) (principal : Option String) : State :=
  { s with
    accepting := false
    connection := some (t, principal)
    connected := true
    connectionTasks := s.connectionTasks.erase t
    handlers := Function.update s.handlers t .ended
    held := s.held ++ [t] }

def reserve (t : ℕ) : State :=
  { s with accepting := true, handlers := Function.update s.handlers t .verifying }

def track (t : ℕ) : State := { s with connectionTasks := insert t s.connectionTasks }

/-- `_handle_client` up to its first await. -/
def accept (t : ℕ) (refused : Bool) : State :=
  if s.closing || s.accepting || s.connection.isSome then dismiss (track s t) t
  else if c.keepAlive && refused then dismiss (track s t) t
  else if c.authenticates then reserve (track s t) t
  else hold (track s t) t none

/-- Every way out of `verify` but a principal, and that one too while the transport
closes, frees the place and closes the writer. -/
def verified (t : ℕ) : Verdict → State
  | .principal name =>
    if s.closing then dismiss { s with accepting := false } t else hold s t (some name)
  | _ => dismiss { s with accepting := false } t

/-- A cancelled `_close_writer` leaves the task in `_connection_tasks`. -/
def dismissed (t : ℕ) (interrupted : Bool) : State :=
  { s with
    handlers := Function.update s.handlers t .ended
    connectionTasks := if interrupted then s.connectionTasks else s.connectionTasks.erase t }

def setCloser (k : ℕ) (phase : Closer) : State :=
  { s with closers := Function.update s.closers k phase }

def beginClose (k : ℕ) : State :=
  { setCloser s k (.draining (s.connectionTasks.filter (s.handlers · ≠ .ended))) with
    closing := true
    connected := true }

/-- `close` after `_drain_tasks`. -/
def drained (k : ℕ) : State :=
  match s.connection with
  | some (t, _) =>
    { setCloser s k .closingConnection with writerClosed := Function.update s.writerClosed t true }
  | none => { setCloser s k .awaitingServer with connected := false }

def connectionClosed (k : ℕ) : State :=
  { setCloser s k .awaitingServer with connection := none, connected := false }

def step : Event → Option State
  | .accept t refused => if s.handlers t = .absent then some (accept c s t refused) else none
  | .verified t verdict => if s.handlers t = .verifying then some (verified s t verdict) else none
  | .dismissed t interrupted =>
    if s.handlers t = .dismissing then some (dismissed s t interrupted) else none
  | .beginClose k => if s.closers k = .absent then some (beginClose s k) else none
  | .drained k =>
    match s.closers k with
    | .draining tracked =>
      if ∀ t ∈ tracked, s.handlers t = .ended then some (drained s k) else none
    | _ => none
  | .connectionClosed k =>
    if s.closers k = .closingConnection then some (connectionClosed s k) else none
  | .returned k => if s.closers k = .awaitingServer then some (setCloser s k .returned) else none
  | .cancelClose k =>
    match s.closers k with
    | .draining _ | .closingConnection | .awaitingServer => some (setCloser s k .cancelled)
    | _ => none

end

/-- The ways through `step`. -/
inductive Way (c : Config) (s : State) : Event → State → Prop where
  | accepted (t : ℕ) (refused : Bool) (h : s.handlers t = .absent) :
      Way c s (.accept t refused) (accept c s t refused)
  | verified (t : ℕ) (verdict : Verdict) (h : s.handlers t = .verifying) :
      Way c s (.verified t verdict) (verified s t verdict)
  | dismissed (t : ℕ) (interrupted : Bool) (h : s.handlers t = .dismissing) :
      Way c s (.dismissed t interrupted) (dismissed s t interrupted)
  | begunClose (k : ℕ) (h : s.closers k = .absent) : Way c s (.beginClose k) (beginClose s k)
  | drained (k : ℕ) (tracked : Finset ℕ) (h : s.closers k = .draining tracked)
      (hended : ∀ t ∈ tracked, s.handlers t = .ended) : Way c s (.drained k) (drained s k)
  | connectionClosed (k : ℕ) (h : s.closers k = .closingConnection) :
      Way c s (.connectionClosed k) (connectionClosed s k)
  | returned (k : ℕ) (h : s.closers k = .awaitingServer) :
      Way c s (.returned k) (setCloser s k .returned)
  | closeCancelled (k : ℕ) (h : s.closers k ≠ .absent) :
      Way c s (.cancelClose k) (setCloser s k .cancelled)

theorem step_way {c : Config} {s s' : State} {e : Event} (hs : step c s e = some s') :
    Way c s e s' := by
  cases e with
  | accept t refused =>
    obtain ⟨ht, hs⟩ := Option.ite_none_right_eq_some.mp hs
    exact Option.some.inj hs ▸ .accepted t refused ht
  | verified t verdict =>
    obtain ⟨ht, hs⟩ := Option.ite_none_right_eq_some.mp hs
    exact Option.some.inj hs ▸ .verified t verdict ht
  | dismissed t interrupted =>
    obtain ⟨ht, hs⟩ := Option.ite_none_right_eq_some.mp hs
    exact Option.some.inj hs ▸ .dismissed t interrupted ht
  | beginClose k =>
    obtain ⟨hk, hs⟩ := Option.ite_none_right_eq_some.mp hs
    exact Option.some.inj hs ▸ .begunClose k hk
  | drained k =>
    simp only [step] at hs
    split at hs
    case h_1 tracked hk =>
      obtain ⟨hended, hs⟩ := Option.ite_none_right_eq_some.mp hs
      exact Option.some.inj hs ▸ .drained k tracked hk hended
    case h_2 => cases hs
  | connectionClosed k =>
    obtain ⟨hk, hs⟩ := Option.ite_none_right_eq_some.mp hs
    exact Option.some.inj hs ▸ .connectionClosed k hk
  | returned k =>
    obtain ⟨hk, hs⟩ := Option.ite_none_right_eq_some.mp hs
    exact Option.some.inj hs ▸ .returned k hk
  | cancelClose k =>
    have hpresent : s.closers k ≠ .absent := by
      intro habsent
      simp only [step, habsent] at hs
      cases hs
    simp only [step] at hs
    split at hs
    case h_4 => cases hs
    all_goals exact Option.some.inj hs ▸ .closeCancelled k hpresent

/-- The connection is being admitted or held. -/
def Engaged (s : State) (t : ℕ) : Prop :=
  s.handlers t = .verifying ∨ ∃ principal, s.connection = some (t, principal)

/-- What every reachable state keeps. The reservation is the flag of the one task that
verifies, and while it stands nothing was ever held. -/
structure Inv (s : State) : Prop where
  accepting_iff : s.accepting = true ↔ ∃ t, s.handlers t = .verifying
  unique : ∀ t u, s.handlers t = .verifying → s.handlers u = .verifying → t = u
  held_le : s.held.length ≤ 1
  held_nil : s.accepting = true ∨ (s.connection = none ∧ s.closing = false) → s.held = []
  connection_held : ∀ t principal, s.connection = some (t, principal) → s.held = [t]
  dismissing : ∀ t, s.handlers t = .dismissing → s.writerClosed t = true
  ended : ∀ t, s.handlers t = .ended → t ∈ s.held ∨ s.writerClosed t = true
  closing : ∀ k, s.closers k ≠ .absent → s.closing = true
  closed : ∀ k, s.closers k = .awaitingServer ∨ s.closers k = .returned → s.connection = none

theorem inv_start : Inv start where
  accepting_iff := by simp [start]
  unique _ _ h := nomatch (h : Handler.absent = _)
  held_le := Nat.zero_le _
  held_nil _ := rfl
  connection_held _ _ h := nomatch h
  dismissing _ h := nomatch (h : Handler.absent = _)
  ended _ h := nomatch (h : Handler.absent = _)
  closing _ h := absurd rfl h
  closed _ _ := rfl

section
variable {c : Config} {s s' : State} {e : Event}

theorem verifying_update {phase : Handler} (hphase : phase ≠ .verifying) (s : State) (t u : ℕ) :
    Function.update s.handlers t phase u = .verifying ↔ u ≠ t ∧ s.handlers u = .verifying := by
  by_cases hu : u = t
  · subst hu
    simp [hphase]
  · simp [hu]

theorem Inv.connection_none (h : Inv s) (haccepting : s.accepting = true) :
    s.connection = none := by
  apply Option.eq_none_iff_forall_ne_some.mpr
  rintro ⟨t, principal⟩ hconnection
  have hheld := h.connection_held t principal hconnection
  rw [h.held_nil (Or.inl haccepting)] at hheld
  nomatch hheld

theorem Inv.track (h : Inv s) (t : ℕ) : Inv (track s t) where
  __ := h

/-- A connection is turned away, or one that was being admitted makes room. -/
theorem Inv.dismiss {t : ℕ} {accepting : Bool} (h : Inv s)
    (hflag : accepting = true ↔ ∃ u, u ≠ t ∧ s.handlers u = .verifying) :
    Inv (dismiss { s with accepting := accepting } t) where
  accepting_iff := by
    show accepting = true ↔ ∃ u, Function.update s.handlers t .dismissing u = .verifying
    have hphase : Handler.dismissing ≠ .verifying := by decide
    simp only [verifying_update hphase, hflag]
  unique u v hu hv :=
    h.unique u v ((verifying_update (by decide) s t u).mp hu).2
      ((verifying_update (by decide) s t v).mp hv).2
  held_le := h.held_le
  held_nil := by
    rintro (haccepting | hidle)
    · obtain ⟨u, -, hu⟩ := hflag.mp haccepting
      exact h.held_nil (Or.inl (h.accepting_iff.mpr ⟨u, hu⟩))
    · exact h.held_nil (Or.inr hidle)
  connection_held := h.connection_held
  dismissing := by
    intro u hu
    show Function.update s.writerClosed t true u = true
    by_cases hut : u = t
    · subst hut
      exact Function.update_self ..
    · rw [Function.update_of_ne hut]
      exact h.dismissing u ((Function.update_of_ne hut ..).symm.trans hu)
  ended := by
    intro u hu
    by_cases hut : u = t
    · subst hut
      exact Or.inr (Function.update_self ..)
    · apply (h.ended u ((Function.update_of_ne hut ..).symm.trans hu)).imp_right
      intro hclosed
      exact (Function.update_of_ne hut ..).trans hclosed
  closing := h.closing
  closed := h.closed

/-- The place is free, so the connection becomes the one that is held. -/
theorem Inv.hold {t : ℕ} {principal : Option String} (h : Inv s) (hheld : s.held = [])
    (hothers : ∀ u, s.handlers u = .verifying → u = t) (hopen : s.closing = false) :
    Inv (hold s t principal) where
  accepting_iff := by
    constructor
    · nofun
    · rintro ⟨u, hu⟩
      obtain ⟨hut, hu⟩ := (verifying_update (by decide) s t u).mp hu
      exact absurd (hothers u hu) hut
  unique u v hu hv :=
    h.unique u v ((verifying_update (by decide) s t u).mp hu).2
      ((verifying_update (by decide) s t v).mp hv).2
  held_le := by
    show (s.held ++ [t]).length ≤ 1
    rw [hheld]
    exact Nat.le_refl 1
  held_nil := by
    rintro (haccepting | ⟨hnone, -⟩)
    · nomatch haccepting
    · nomatch hnone
  connection_held := by
    intro u p hu
    obtain ⟨rfl, -⟩ := Prod.mk.inj (Option.some.inj hu)
    show s.held ++ [t] = [t]
    rw [hheld, List.nil_append]
  dismissing := by
    intro u hu
    by_cases hut : u = t
    · subst hut
      nomatch (Function.update_self ..).symm.trans hu
    · exact h.dismissing u ((Function.update_of_ne hut ..).symm.trans hu)
  ended := by
    intro u hu
    by_cases hut : u = t
    · subst hut
      exact Or.inl (List.mem_append_right _ (List.mem_singleton_self _))
    · apply (h.ended u ((Function.update_of_ne hut ..).symm.trans hu)).imp_left
      exact List.mem_append_left _
  closing := h.closing
  closed k hk := by
    have hclosing : s.closing = true :=
      h.closing k (by rintro habsent; simp_all [SingleClient.hold])
    rw [hopen] at hclosing
    nomatch hclosing

theorem Inv.reserve {t : ℕ} (h : Inv s) (hfree : s.accepting = false) (hheld : s.held = []) :
    Inv (reserve s t) where
  accepting_iff := iff_of_true rfl ⟨t, Function.update_self ..⟩
  unique := by
    have honly : ∀ u, (SingleClient.reserve s t).handlers u = .verifying → u = t := by
      intro u hu
      by_contra hut
      have hverifying := (Function.update_of_ne hut ..).symm.trans hu
      rw [h.accepting_iff.mpr ⟨u, hverifying⟩] at hfree
      nomatch hfree
    intro u v hu hv
    rw [honly u hu, honly v hv]
  held_le := h.held_le
  held_nil _ := hheld
  connection_held := h.connection_held
  dismissing := by
    intro u hu
    by_cases hut : u = t
    · subst hut
      nomatch (Function.update_self ..).symm.trans hu
    · exact h.dismissing u ((Function.update_of_ne hut ..).symm.trans hu)
  ended := by
    intro u hu
    by_cases hut : u = t
    · subst hut
      nomatch (Function.update_self ..).symm.trans hu
    · exact h.ended u ((Function.update_of_ne hut ..).symm.trans hu)
  closing := h.closing
  closed := h.closed

theorem Inv.accept {t : ℕ} (h : Inv s) (ht : s.handlers t = .absent) (refused : Bool) :
    Inv (accept c s t refused) := by
  have hturned : Inv (SingleClient.dismiss (SingleClient.track s t) t) := by
    have hflag : s.accepting = true ↔ ∃ u, u ≠ t ∧ s.handlers u = .verifying := by
      rw [h.accepting_iff]
      refine exists_congr fun u => (and_iff_right_of_imp fun hu hut => ?_).symm
      subst hut
      nomatch ht.symm.trans hu
    exact (h.track t).dismiss hflag
  unfold SingleClient.accept
  split_ifs with hbusy
  · exact hturned
  · exact hturned
  all_goals
    simp only [Bool.or_eq_true, not_or, Bool.not_eq_true, Option.isSome_eq_false_iff,
      Option.isNone_iff_eq_none] at hbusy
    obtain ⟨⟨hopen, hfree⟩, hnone⟩ := hbusy
    have hheld : s.held = [] := h.held_nil (Or.inr ⟨hnone, hopen⟩)
  · exact (h.track t).reserve hfree hheld
  · apply (h.track t).hold hheld _ hopen
    intro u hu
    rw [h.accepting_iff.mpr ⟨u, hu⟩] at hfree
    nomatch hfree

/-- Leaving `verify` without being kept frees the place. -/
theorem Inv.free {t : ℕ} (h : Inv s) (ht : s.handlers t = .verifying) :
    Inv (SingleClient.dismiss { s with accepting := false } t) := by
  apply h.dismiss
  constructor
  · nofun
  · rintro ⟨u, hut, hu⟩
    exact absurd (h.unique u t hu ht) hut

theorem Inv.verified {t : ℕ} (h : Inv s) (ht : s.handlers t = .verifying) (verdict : Verdict) :
    Inv (verified s t verdict) := by
  unfold SingleClient.verified
  split
  next name =>
    split_ifs with hclosing
    · exact h.free ht
    · apply h.hold (h.held_nil (Or.inl (h.accepting_iff.mpr ⟨t, ht⟩)))
      · exact fun u hu => h.unique u t hu ht
      · simpa using hclosing
  next => exact h.free ht

theorem Inv.dismissed {t : ℕ} (h : Inv s) (ht : s.handlers t = .dismissing) (interrupted : Bool) :
    Inv (dismissed s t interrupted) where
  accepting_iff := by
    rw [show (SingleClient.dismissed s t interrupted).accepting = s.accepting from rfl,
      h.accepting_iff]
    refine exists_congr fun u => Iff.trans ?_ (verifying_update (by decide) s t u).symm
    refine (and_iff_right_of_imp fun hu hut => ?_).symm
    subst hut
    nomatch ht.symm.trans hu
  unique u v hu hv :=
    h.unique u v ((verifying_update (by decide) s t u).mp hu).2
      ((verifying_update (by decide) s t v).mp hv).2
  held_le := h.held_le
  held_nil := h.held_nil
  connection_held := h.connection_held
  dismissing := by
    intro u hu
    by_cases hut : u = t
    · subst hut
      exact h.dismissing u ht
    · exact h.dismissing u ((Function.update_of_ne hut ..).symm.trans hu)
  ended := by
    intro u hu
    by_cases hut : u = t
    · subst hut
      exact Or.inr (h.dismissing u ht)
    · exact h.ended u ((Function.update_of_ne hut ..).symm.trans hu)
  closing := h.closing
  closed := h.closed

theorem Inv.setCloser {k : ℕ} {phase : Closer} (h : Inv s) (hclosing : s.closing = true)
    (hclosed : phase = .awaitingServer ∨ phase = .returned → s.connection = none) :
    Inv (setCloser s k phase) where
  __ := h
  closing _ _ := hclosing
  closed j hj := by
    by_cases hjk : j = k
    · subst hjk
      have hphase : Function.update s.closers j phase j = phase := Function.update_self ..
      exact hclosed (hphase ▸ hj)
    · have hother : Function.update s.closers k phase j = s.closers j :=
        Function.update_of_ne hjk ..
      exact h.closed j (hother ▸ hj)

theorem Inv.beginClose {k : ℕ} (h : Inv s) : Inv (beginClose s k) := by
  have hclosing : Inv { s with closing := true, connected := true } := {
    h with
    held_nil := by
      rintro (haccepting | ⟨-, hopen⟩)
      · exact h.held_nil (Or.inl haccepting)
      · nomatch hopen
    closing := fun _ _ => rfl }
  exact hclosing.setCloser rfl nofun

theorem Inv.drained {k : ℕ} (h : Inv s) (hclosing : s.closing = true) : Inv (drained s k) := by
  unfold SingleClient.drained
  split
  next t _ _ =>
    have hmono : ∀ u, s.writerClosed u = true → Function.update s.writerClosed t true u = true := by
      intro u hu
      by_cases hut : u = t
      · subst hut
        exact Function.update_self ..
      · exact (Function.update_of_ne hut ..).trans hu
    have hwriter : Inv { s with writerClosed := Function.update s.writerClosed t true } := {
      h with
      dismissing := fun u hu => hmono u (h.dismissing u hu)
      ended := fun u hu => (h.ended u hu).imp_right (hmono u) }
    exact hwriter.setCloser hclosing nofun
  next hnone =>
    have hconnected : Inv { s with connected := false } := { h with }
    exact hconnected.setCloser hclosing fun _ => hnone

theorem Inv.connectionClosed {k : ℕ} (h : Inv s) (hclosing : s.closing = true) :
    Inv (connectionClosed s k) := by
  have hreleased : Inv { s with connection := none, connected := false } := {
    h with
    held_nil := by
      rintro (haccepting | ⟨-, hopen⟩)
      · exact h.held_nil (Or.inl haccepting)
      · nomatch hclosing.symm.trans hopen
    connection_held := nofun
    closed := fun _ _ => rfl }
  exact hreleased.setCloser hclosing fun _ => rfl

theorem Inv.step (h : Inv s) (hs : step c s e = some s') : Inv s' := by
  cases step_way hs with
  | accepted t refused ht => exact h.accept ht refused
  | verified t verdict ht => exact h.verified ht verdict
  | dismissed t interrupted ht => exact h.dismissed ht interrupted
  | begunClose k => exact h.beginClose
  | drained k tracked hk => exact h.drained (h.closing k (by rw [hk]; nofun))
  | connectionClosed k hk => exact h.connectionClosed (h.closing k (by rw [hk]; nofun))
  | returned k hk =>
    apply h.setCloser (h.closing k (by rw [hk]; nofun))
    exact fun _ => h.closed k (Or.inl hk)
  | closeCancelled k hk => exact h.setCloser (h.closing k hk) nofun

/-- Once a connection was held, or closing has begun, no step keeps another one. -/
theorem Inv.step_settled (h : Inv s) (hs : SingleClient.step c s e = some s')
    (hsettled : s.held ≠ [] ∨ s.closing = true) :
    s'.held = s.held ∧ (s'.connection = s.connection ∨ s'.connection = none) ∧
      (s.closing = true → s'.closing = true) := by
  have hbusy : s.closing = true ∨ s.connection ≠ none := by
    by_contra hidle
    simp only [not_or, Bool.not_eq_true, not_not] at hidle
    obtain hheld | hclosing := hsettled
    · exact hheld (h.held_nil (Or.inr ⟨hidle.2, hidle.1⟩))
    · nomatch hidle.1.symm.trans hclosing
  cases step_way hs with
  | accepted t refused =>
    have hrefused : (s.closing || s.accepting || s.connection.isSome) = true := by
      obtain hclosing | hconnection := hbusy
      · simp [hclosing]
      · simp [Option.isSome_iff_ne_none.mpr hconnection]
    rw [SingleClient.accept, if_pos hrefused]
    exact ⟨rfl, Or.inl rfl, id⟩
  | verified t verdict ht =>
    have haccepting := h.accepting_iff.mpr ⟨t, ht⟩
    have hheld : s.held = [] := h.held_nil (Or.inl haccepting)
    have hclosing : s.closing = true := hsettled.resolve_left (not_not.mpr hheld)
    have hfreed : SingleClient.verified s t verdict =
        SingleClient.dismiss { s with accepting := false } t := by
      cases verdict with
      | principal name => exact if_pos hclosing
      | _ => rfl
    exact hfreed ▸ ⟨rfl, Or.inl rfl, id⟩
  | begunClose k => exact ⟨rfl, Or.inl rfl, fun _ => rfl⟩
  | drained k =>
    rw [SingleClient.drained]
    split
    · exact ⟨rfl, Or.inl rfl, id⟩
    · exact ⟨rfl, Or.inl rfl, id⟩
  | connectionClosed k => exact ⟨rfl, Or.inr rfl, id⟩
  | dismissed t interrupted => exact ⟨rfl, Or.inl rfl, id⟩
  | returned k | closeCancelled k => exact ⟨rfl, Or.inl rfl, id⟩

theorem Inv.run {es : List Event} (h : Inv s)
    (hrun : Machine.run (SingleClient.step c) s es = some s') : Inv s' :=
  Machine.invariant (fun _ _ _ hs hstep => hs.step hstep) h hrun

theorem Inv.run_closing {es : List Event} (h : Inv s) (hclosing : s.closing = true)
    (hrun : Machine.run (SingleClient.step c) s es = some s') : s'.held = s.held := by
  have hall : Inv s' ∧ s'.closing = true ∧ s'.held = s.held := by
    apply Machine.invariant (P := fun x => Inv x ∧ x.closing = true ∧ x.held = s.held) _ _ hrun
    · rintro x e y ⟨hx, hxclosing, hheld⟩ hstep
      obtain ⟨hsame, -, hstays⟩ := hx.step_settled hstep (Or.inr hxclosing)
      exact ⟨hx.step hstep, hstays hxclosing, hsame.trans hheld⟩
    · exact ⟨h, hclosing, rfl⟩
  exact hall.2.2

theorem Inv.run_held {es : List Event} {t : ℕ} {principal : Option String} (h : Inv s)
    (hconnection : s.connection = some (t, principal))
    (hrun : Machine.run (SingleClient.step c) s es = some s') :
    s'.held = [t] ∧ (s'.connection = some (t, principal) ∨ s'.connection = none) := by
  have hall : Inv s' ∧ s'.held = [t] ∧
      (s'.connection = some (t, principal) ∨ s'.connection = none) := by
    apply Machine.invariant (P := fun x => Inv x ∧ x.held = [t] ∧
      (x.connection = some (t, principal) ∨ x.connection = none)) _ _ hrun
    · rintro x e y ⟨hx, hheld, hkept⟩ hstep
      have hne : x.held ≠ [] := by
        rw [hheld]
        nofun
      obtain ⟨hsame, hnext, -⟩ := hx.step_settled hstep (Or.inl hne)
      refine ⟨hx.step hstep, hsame.trans hheld, ?_⟩
      obtain hnext | hnext := hnext
      · rw [hnext]
        exact hkept
      · exact Or.inr hnext
    · exact ⟨h, h.connection_held t principal hconnection, Or.inl hconnection⟩
  exact hall.2

theorem accept_handlers {t u : ℕ} (hu : u ≠ t) (refused : Bool) :
    (SingleClient.accept c s t refused).handlers u = s.handlers u := by
  unfold SingleClient.accept
  split_ifs
  all_goals exact Function.update_of_ne hu ..

/-- `close` does nothing to the handling tasks but wait for them. -/
theorem closer_handlers (hs : SingleClient.step c s e = some s') (haccept : ∀ t b, e ≠ .accept t b)
    (hverified : ∀ t v, e ≠ .verified t v) (hdismissed : ∀ t b, e ≠ .dismissed t b) :
    s'.handlers = s.handlers := by
  cases step_way hs with
  | accepted t refused => exact absurd rfl (haccept t refused)
  | verified t verdict => exact absurd rfl (hverified t verdict)
  | dismissed t interrupted => exact absurd rfl (hdismissed t interrupted)
  | drained k =>
    rw [SingleClient.drained]
    split
    · rfl
    · rfl
  | begunClose k | connectionClosed k | returned k | closeCancelled k => rfl

/-- Whichever way an admission fails, the place is free. -/
theorem Inv.vacant_of_failed {t : ℕ} (h : Inv s) (hs : SingleClient.step c s e = some s')
    (ht : s.handlers t = .verifying) (hleft : s'.handlers t ≠ .verifying) (hfailed : t ∉ s'.held)
    (u : ℕ) : ¬ Engaged s' u := by
  have haccepting := h.accepting_iff.mpr ⟨t, ht⟩
  have hnone := h.connection_none haccepting
  have hfree : s' = SingleClient.dismiss { s with accepting := false } t := by
    cases step_way hs with
    | verified v verdict hv =>
      obtain rfl := h.unique v t hv ht
      cases verdict with
      | principal name =>
        unfold SingleClient.verified at hfailed ⊢
        split_ifs at hfailed ⊢
        · rfl
        · exact absurd (List.mem_append_right _ (List.mem_singleton_self _)) hfailed
      | _ => rfl
    | accepted v refused hv =>
      have htv : t ≠ v := by
        rintro rfl
        nomatch ht.symm.trans hv
      rw [accept_handlers htv] at hleft
      exact absurd ht hleft
    | dismissed v interrupted hv =>
      have htv : t ≠ v := by
        rintro rfl
        nomatch ht.symm.trans hv
      exact absurd ((Function.update_of_ne htv ..).trans ht) hleft
    | begunClose k | drained k | connectionClosed k | returned k | closeCancelled k =>
      exact absurd ((closer_handlers hs (by nofun) (by nofun) (by nofun)) ▸ ht) hleft
  subst hfree
  rintro (hu | ⟨principal, hu⟩)
  · obtain ⟨hut, hu⟩ := (verifying_update (by decide) s t u).mp hu
    exact hut (h.unique u t hu ht)
  · nomatch hnone.symm.trans hu

/-- A free place goes to the next connection. -/
theorem accept_vacant (t : ℕ) (hvacant : ∀ u, ¬ Engaged s u) (h : Inv s)
    (hopen : s.closing = false) (ht : s.handlers t = .absent) :
    ∃ s', SingleClient.step c s (.accept t false) = some s' ∧ Engaged s' t := by
  have hfree : s.accepting = false := by
    by_contra haccepting
    obtain ⟨u, hu⟩ := h.accepting_iff.mp (by simpa using haccepting)
    exact hvacant u (Or.inl hu)
  have hnone : s.connection = none := by
    apply Option.eq_none_iff_forall_ne_some.mpr
    rintro ⟨u, principal⟩ hconnection
    exact hvacant u (Or.inr ⟨principal, hconnection⟩)
  refine ⟨SingleClient.accept c s t false, if_pos ht, ?_⟩
  unfold SingleClient.accept
  rw [if_neg (by simp [hopen, hfree, hnone]), if_neg (by simp)]
  split_ifs
  · exact Or.inl (Function.update_self ..)
  · exact Or.inr ⟨none, rfl⟩

end

/-- At most one connection is being admitted or held. An admission that fails leaves the
place free, and a free place goes to the next connection. The connection that is held stays
it until it is released; every other one has its writer closed when its task ends. After
`close` has begun none is kept, and when it returns none is held. -/
theorem single_admission (c : Config) (es : List Event) (s : State)
    (h : Machine.run (step c) start es = some s) :
    (∀ t u, Engaged s t → Engaged s u → t = u) ∧
      (∀ t e s', s.handlers t = .verifying → step c s e = some s' →
        s'.handlers t ≠ .verifying → t ∉ s'.held → ∀ u, ¬ Engaged s' u) ∧
      ((∀ u, ¬ Engaged s u) → s.closing = false → ∀ t, s.handlers t = .absent →
        ∃ s', step c s (.accept t false) = some s' ∧ Engaged s' t) ∧
      (∀ t principal fs s', s.connection = some (t, principal) →
        Machine.run (step c) s fs = some s' →
          s'.held = [t] ∧ (s'.connection = some (t, principal) ∨ s'.connection = none)) ∧
      (∀ t, s.handlers t = .ended → t ∈ s.held ∨ s.writerClosed t = true) ∧
      (∀ fs s', s.closing = true → Machine.run (step c) s fs = some s' → s'.held = s.held) ∧
      (∀ k, s.closers k = .returned → s.connection = none) := by
  have hinv := inv_start.run h
  refine ⟨?_, ?_, ?_, ?_, hinv.ended, ?_, fun k hk => hinv.closed k (Or.inr hk)⟩
  · rintro t u (ht | ⟨p, ht⟩) (hu | ⟨q, hu⟩)
    · exact hinv.unique t u ht hu
    · nomatch (hinv.connection_none (hinv.accepting_iff.mpr ⟨t, ht⟩)).symm.trans hu
    · nomatch (hinv.connection_none (hinv.accepting_iff.mpr ⟨u, hu⟩)).symm.trans ht
    · exact (Prod.mk.inj (Option.some.inj (ht.symm.trans hu))).1
  · exact fun t e s' ht hs hleft hfailed => hinv.vacant_of_failed hs ht hleft hfailed
  · exact fun hvacant hopen t ht => accept_vacant t hvacant hinv hopen ht
  · exact fun t principal fs s' hconnection hrun => hinv.run_held hconnection hrun
  · exact fun fs s' hclosing hrun => hinv.run_closing hclosing hrun

/-- A second connection is turned away, the first is rejected, and the third one is kept
until `close` has returned. -/
def retriedRun : List Event :=
  [.accept 0 false, .accept 1 false, .verified 0 .rejected, .dismissed 0 false,
    .dismissed 1 false, .accept 2 false, .verified 2 (.principal "alice"), .beginClose 0,
    .drained 0, .connectionClosed 0, .returned 0]

theorem single_admission_retried :
    ∃ s, Machine.run (step ⟨true, true⟩) start retriedRun = some s ∧ s.held = [2] ∧
      s.closers 0 = .returned ∧ s.connection = none ∧
      ∀ t, s.handlers t = .ended → t ∈ s.held ∨ s.writerClosed t = true := by
  refine ⟨_, rfl, rfl, rfl, ?_, ?_⟩
  · exact (single_admission ⟨true, true⟩ retriedRun _ rfl).2.2.2.2.2.2 0 rfl
  · exact (single_admission ⟨true, true⟩ retriedRun _ rfl).2.2.2.2.1

end SingleClient
end WireRpc
