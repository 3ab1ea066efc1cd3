import WireRpc.AuthorizationGate
import WireRpc.Library.Lists

/-!
# Every dispatch is verified

On a transport that keeps track of its connections lawfully, a task enters `dispatch` only
right after it has taken an item up, shown the credentials of its own connection and got
back the identity that the connection was admitted with.
-/
namespace WireRpc.AuthorizationGate
open Library Execution

section
variable {σ ε κ : Type} (T : Transport σ ε κ)

/-- How a transport and the identities known of it change. -/
inductive Next : σ → (ℕ → Option String) → σ → (ℕ → Option String) → Prop
  | step {x y : σ} {authenticated : ℕ → Option String} {e : ε} (h : T.step x e = some y) :
      Next x authenticated y (authenticate T e authenticated)
  | expel (x : σ) (authenticated : ℕ → Option String) (session : κ) :
      Next x authenticated (T.expel x session) authenticated

/-- What the gate relies on. `Holds` is an invariant of the transport and what it has been
told at connect time, and `Valid` says that a call of `get_principal` holds the session of
a client. -/
structure Lawful (Holds : σ → (ℕ → Option String) → Prop)
    (Valid : σ → (ℕ → Option String) → ℕ → κ → Prop) : Prop where
  holds_start : Holds T.start fun _ => none
  holds_next : ∀ {x y known known'}, Holds x known → Next T x known y known' → Holds y known'
  recv_quiet : T.authentication T.recv = none
  known_next : ∀ {x y known known' client name}, Holds x known → Next T x known y known' →
    known client = some name → known' client = some name
  valid_lookup : ∀ {x known client session}, Holds x known →
    T.lookup x client = some session → Valid x known client session
  valid_next : ∀ {x y known known' client session}, Holds x known → Next T x known y known' →
    Valid x known client session → Valid y known' client session
  presented : ∀ {x known client session}, Valid x known client session →
    T.presented session = client
  expected : ∀ {x known client session}, Valid x known client session →
    ∃ name, known client = some name ∧ T.expected x session = some name
  closed_next : ∀ {x y known known' client}, Next T x known y known' →
    T.isClosed x client = true → T.isClosed y client = true
  closed_expel : ∀ {x known client session}, Valid x known client session →
    T.isClosed (T.expel x session) client = true

variable {T} in
theorem authenticate_of_quiet {e : ε} (h : T.authentication e = none) (known : ℕ → Option String) :
    authenticate T e known = known := by
  unfold authenticate
  rw [h]

end

/-- The authenticator no longer vouches for the identity. -/
def Revokes (verdict : Verdict) (name : String) : Prop :=
  verdict = .rejected ∨ ∃ other, other ≠ name ∧ verdict = .principal other

/-- An entry of `dispatch` comes right after its own verification, and after one that
revokes the credentials the connection is closed and the task goes on to another item. -/
def Licensed (client : ℕ) (known : Option String) (closed : Bool) (before : List Action) :
    Action → List Action → Prop
  | .entered request principal, _ => ∃ earlier item name,
      before = earlier ++ [.taken item, .started client, .verified (.principal name)] ∧
        validate item = some request ∧ principal = some name ∧ known = some name
  | .verified verdict, after => ∃ name, known = some name ∧
      (Revokes verdict name → closed = true ∧
        (after = [] ∨ ∃ item later, after = .taken item :: later))
  | _, _ => True

/-- Every action of the trace is licensed. -/
def Gated (client : ℕ) (known : Option String) (closed : Bool) (trace : List Action) : Prop :=
  AtEach (Licensed client known closed) trace

section
variable {client : ℕ} {known known' : Option String} {closed closed' : Bool}
  {before after trace : List Action} {action : Action}

theorem Licensed.mono (hknown : ∀ name, known = some name → known' = some name)
    (hclosed : closed = true → closed' = true)
    (h : Licensed client known closed before action after) :
    Licensed client known' closed' before action after := by
  cases action with
  | entered request principal =>
    obtain ⟨earlier, item, name, hbefore, hitem, hprincipal, hname⟩ := h
    exact ⟨earlier, item, name, hbefore, hitem, hprincipal, hknown name hname⟩
  | verified verdict =>
    obtain ⟨name, hname, hrevoked⟩ := h
    refine ⟨name, hknown name hname, fun hrevokes => ?_⟩
    obtain ⟨hgone, hafter⟩ := hrevoked hrevokes
    exact ⟨hclosed hgone, hafter⟩
  | taken item => trivial
  | started connection => trivial

/-- Whatever is taken up next, and whatever follows it, leaves the earlier places licensed. -/
theorem Licensed.grow {next : Action} (h : Licensed client known closed before action after)
    (hnext : (∃ item, next = .taken item) ∨ after ≠ [] ∨
      ∀ verdict name, action = .verified verdict → known = some name → ¬ Revokes verdict name) :
    Licensed client known closed before action (after ++ [next]) := by
  cases action with
  | entered request principal => exact h
  | taken item => trivial
  | started connection => trivial
  | verified verdict =>
    obtain ⟨name, hname, hrevoked⟩ := h
    refine ⟨name, hname, fun hrevokes => ?_⟩
    obtain ⟨hgone, rfl | ⟨item, later, rfl⟩⟩ := hrevoked hrevokes
    · obtain ⟨item, rfl⟩ | hafter | hvouched := hnext
      · exact ⟨hgone, Or.inr ⟨item, [], rfl⟩⟩
      · exact absurd rfl hafter
      · exact absurd hrevokes (hvouched verdict name rfl hname)
    · exact ⟨hgone, Or.inr ⟨item, later ++ [next], rfl⟩⟩

theorem Gated.mono (h : Gated client known closed trace)
    (hknown : ∀ name, known = some name → known' = some name)
    (hclosed : closed = true → closed' = true) : Gated client known' closed' trace :=
  AtEach.mono h fun _ _ _ hb => hb.mono hknown hclosed

theorem Gated.take (h : Gated client known closed trace) (item : Json) :
    Gated client known closed (trace ++ [.taken item]) :=
  AtEach.concat h (fun _ _ _ _ hb => hb.grow (Or.inl ⟨item, rfl⟩)) trivial

/-- After an action that revokes nothing any licensed one may follow. -/
theorem Gated.follow {last next : Action} (h : Gated client known closed (trace ++ [last]))
    (hlast : ∀ verdict name, last = .verified verdict → known = some name →
      ¬ Revokes verdict name)
    (hnext : Licensed client known closed (trace ++ [last]) next []) :
    Gated client known closed (trace ++ [last] ++ [next]) := by
  apply AtEach.concat h _ hnext
  intro before b after hsplit hb
  apply hb.grow
  obtain rfl | hafter := eq_or_ne after []
  · obtain ⟨-, hb⟩ := List.append_inj' hsplit rfl
    obtain rfl := List.singleton_inj.mp hb
    exact Or.inr (Or.inr hlast)
  · exact Or.inr (Or.inl hafter)

end

section
variable {σ ε κ W : Type} (T : Transport σ ε κ) (app : ExecutionHost W)
  (Holds : σ → (ℕ → Option String) → Prop)
  (Valid : σ → (ℕ → Option String) → ℕ → κ → Prop)

/-- A task that waits for the authenticator has taken an item up and shown the credentials
of its client. -/
def Asks (valid : ℕ → κ → Prop) (client : ℕ) (trace : List Action) : Phase κ → Prop
  | .absent => trace = []
  | .verifying request session _ => valid client session ∧
      ∃ earlier item, trace = earlier ++ [.taken item] ++ [.started client] ∧
        validate item = some request
  | _ => True

structure Inv (s : State σ κ) : Prop where
  holds : Holds s.transport s.authenticated
  asks : ∀ t, Asks (Valid s.transport s.authenticated) (s.clients t) (s.traces t) (s.phases t)
  gated : ∀ t, Gated (s.clients t) (s.authenticated (s.clients t))
    (T.isClosed s.transport (s.clients t)) (s.traces t)

end

section
variable {σ ε κ W : Type} {T : Transport σ ε κ} {app : ExecutionHost W}
  {Holds : σ → (ℕ → Option String) → Prop}
  {Valid : σ → (ℕ → Option String) → ℕ → κ → Prop} {s s' : State σ κ} {t : ℕ}

theorem Asks.mono {valid valid' : ℕ → κ → Prop} {client : ℕ} {trace : List Action}
    {phase : Phase κ} (h : Asks valid client trace phase)
    (himp : ∀ session, valid client session → valid' client session) :
    Asks valid' client trace phase := by
  cases phase with
  | verifying request session items => exact ⟨himp session h.1, h.2⟩
  | absent => exact h
  | _ => trivial

theorem inv_start (hT : Lawful T Holds Valid) : Inv T Holds Valid (start T) where
  holds := hT.holds_start
  asks _ := rfl
  gated _ := atEach_nil _

/-- The transport goes on. -/
theorem Inv.next (h : Inv T Holds Valid s) (hT : Lawful T Holds Valid) {transport : σ}
    {authenticated : ℕ → Option String}
    (hnext : Next T s.transport s.authenticated transport authenticated) :
    Inv T Holds Valid { s with transport := transport, authenticated := authenticated } where
  holds := hT.holds_next h.holds hnext
  asks u := by
    have hu := h.asks u
    exact hu.mono fun session hvalid => hT.valid_next h.holds hnext hvalid
  gated u :=
    (h.gated u).mono (fun _ hname => hT.known_next h.holds hnext hname) (hT.closed_next hnext)

/-- A task is in another phase, with another trace. -/
structure Moves (s s' : State σ κ) (t : ℕ) (phase : Phase κ) (trace : List Action) : Prop where
  transport : s'.transport = s.transport := by rfl
  authenticated : s'.authenticated = s.authenticated := by rfl
  clients : s'.clients = s.clients := by rfl
  phases : s'.phases = Function.update s.phases t phase := by rfl
  traces : s'.traces = Function.update s.traces t trace := by rfl

theorem moves_setPhase (s : State σ κ) (t : ℕ) (phase : Phase κ) :
    Moves s (setPhase s t phase) t phase (s.traces t) where
  traces := (Function.update_eq_self t s.traces).symm

theorem moves_record (s : State σ κ) (t : ℕ) (actions : List Action) (phase : Phase κ) :
    Moves s (setPhase (record s t actions) t phase) t phase (s.traces t ++ actions) := {}

theorem Inv.move {phase : Phase κ} {trace : List Action} (h : Inv T Holds Valid s)
    (hmoves : Moves s s' t phase trace)
    (hasks : Asks (Valid s.transport s.authenticated) (s.clients t) trace phase)
    (hgated : Gated (s.clients t) (s.authenticated (s.clients t))
      (T.isClosed s.transport (s.clients t)) trace) : Inv T Holds Valid s' := by
  obtain ⟨transport, clients, phases, authenticated, traces⟩ := s'
  obtain ⟨rfl, rfl, rfl, rfl, rfl⟩ := hmoves
  refine ⟨h.holds, fun u => ?_, fun u => ?_⟩
  · by_cases hu : u = t
    · subst hu
      simp only [Function.update_self]
      exact hasks
    · simp only [Function.update_of_ne hu]
      exact h.asks u
  · by_cases hu : u = t
    · subst hu
      simp only [Function.update_self]
      exact hgated
    · simp only [Function.update_of_ne hu]
      exact h.gated u

/-- A task leaves its phase and does nothing else. -/
theorem Inv.leaves {phase : Phase κ} (h : Inv T Holds Valid s)
    (hasks : Asks (Valid s.transport s.authenticated) (s.clients t) (s.traces t) phase) :
    Inv T Holds Valid (setPhase s t phase) :=
  h.move (moves_setPhase s t phase) hasks (h.gated t)

theorem Inv.receive {client : ℕ} {data : Bytes} {transport : σ} (h : Inv T Holds Valid s)
    (hT : Lawful T Holds Valid) (habsent : s.phases t = .absent)
    (hstep : T.step s.transport T.recv = some transport) :
    Inv T Holds Valid (receive app s t client data transport) := by
  have hquiet : authenticate T T.recv s.authenticated = s.authenticated :=
    authenticate_of_quiet hT.recv_quiet s.authenticated
  have hempty : s.traces t = [] := by
    have hasks := h.asks t
    rwa [habsent] at hasks
  have hnext := h.next hT (.step hstep)
  rw [hquiet] at hnext
  refine ⟨hnext.holds, fun u => ?_, fun u => ?_⟩
  · by_cases hu : u = t
    · subst hu
      simp only [AuthorizationGate.receive, setPhase, Function.update_self]
      trivial
    · simp only [AuthorizationGate.receive, setPhase, Function.update_of_ne hu]
      exact hnext.asks u
  · by_cases hu : u = t
    · subst hu
      show Gated _ _ _ (s.traces u)
      rw [hempty]
      exact atEach_nil _
    · simp only [AuthorizationGate.receive, setPhase, Function.update_of_ne hu]
      exact hnext.gated u

theorem Inv.takeUp {item : Json} {items : List Json} (h : Inv T Holds Valid s)
    (hT : Lawful T Holds Valid) (hverifies : T.verifies = true) :
    Inv T Holds Valid (takeUp T s t item items) := by
  have htaken := (h.gated t).take item
  have hnext : Inv T Holds Valid
      (setPhase (record s t [.taken item]) t (.between items)) :=
    h.move (moves_record s t _ _) trivial htaken
  unfold AuthorizationGate.takeUp
  cases hitem : validate item with
  | none => exact hnext
  | some request =>
    cases hlookup : T.lookup s.transport (s.clients t) with
    | none => exact hnext
    | some session =>
      have hvalid := hT.valid_lookup h.holds hlookup
      have htrace : s.traces t ++ [Action.taken item, Action.started (s.clients t)] =
          s.traces t ++ [Action.taken item] ++ [Action.started (s.clients t)] := by
        rw [List.append_assoc, List.singleton_append]
      simp only [if_pos hverifies, hT.presented hvalid]
      apply h.move (moves_record s t _ _)
      · exact ⟨hvalid, s.traces t, item, htrace, hitem⟩
      · rw [htrace]
        exact htaken.follow (by nofun) trivial

theorem not_revokes_of_raised {verdict : Verdict} (hrejected : verdict ≠ .rejected)
    (hprincipal : ∀ other, verdict ≠ .principal other) (name : String) :
    ¬ Revokes verdict name := by
  rintro (h | ⟨other, -, h⟩)
  · exact hrejected h
  · exact hprincipal other h

/-- The answer vouches for the identity: nothing is revoked. -/
theorem not_revokes (name : String) : ¬ Revokes (.principal name) name := by
  rintro (hrejected | ⟨other, hother, hprincipal⟩)
  · nomatch hrejected
  · exact hother (Verdict.principal.inj hprincipal).symm

/-- The credentials were revoked: the connection is closed. -/
theorem Inv.revoke {session : κ} {items : List Json} {verdict : Verdict}
    (h : Inv T Holds Valid s) (hT : Lawful T Holds Valid)
    (hvalid : Valid s.transport s.authenticated (s.clients t) session) {earlier : List Action}
    (htrace : s.traces t = earlier ++ [Action.started (s.clients t)]) :
    Inv T Holds Valid (revoke T (record s t [.verified verdict]) t session items) := by
  have hnext := h.next hT (.expel s.transport s.authenticated session)
  obtain ⟨name, hknown, -⟩ := hT.expected hvalid
  have hclosed : T.isClosed (T.expel s.transport session) (s.clients t) = true :=
    hT.closed_expel hvalid
  have hgated : Gated (s.clients t) (s.authenticated (s.clients t))
      (T.isClosed (T.expel s.transport session) (s.clients t))
      (s.traces t ++ [Action.verified verdict]) := by
    have hbefore := hnext.gated t
    simp only [htrace] at hbefore ⊢
    exact hbefore.follow (by nofun) ⟨name, hknown, fun _ => ⟨hclosed, Or.inl rfl⟩⟩
  exact hnext.move (moves_record _ t _ (.expelling items)) trivial hgated

/-- The identity came back. -/
theorem Inv.proceed {request : RawWireRequest} {session : κ} {items : List Json} {name : String}
    (h : Inv T Holds Valid s) {earlier : List Action} {item : Json}
    (hitem : validate item = some request)
    (htrace : s.traces t = earlier ++ [Action.taken item] ++ [Action.started (s.clients t)])
    (hknown : s.authenticated (s.clients t) = some name)
    (hexpected : T.expected s.transport session = some name) :
    Inv T Holds Valid
      (proceed T (record s t [.verified (.principal name)]) t request session items) := by
  have hvouched : ∀ verdict other, Action.verified (.principal name) = .verified verdict →
      s.authenticated (s.clients t) = some other → ¬ Revokes verdict other := by
    rintro _ other ⟨⟩ hother
    obtain rfl := Option.some.inj (hknown.symm.trans hother)
    exact not_revokes name
  have hgated : Gated (s.clients t) (s.authenticated (s.clients t))
      (T.isClosed s.transport (s.clients t))
      (s.traces t ++ [Action.verified (.principal name)]) := by
    have hbefore := h.gated t
    rw [htrace] at hbefore ⊢
    exact hbefore.follow (by nofun)
      ⟨name, hknown, fun hrevokes => absurd hrevokes (not_revokes name)⟩
  unfold AuthorizationGate.proceed
  split_ifs
  · have hmoves : Moves s
        (setPhase (record (record s t [.verified (.principal name)]) t
          [.entered request (T.expected s.transport session)]) t (.dispatching items)) t
        (.dispatching items)
        (s.traces t ++ [Action.verified (.principal name)] ++
          [Action.entered request (some name)]) := by
      refine {  traces := ?_ }
      simp [setPhase, record, hexpected]
    apply h.move hmoves trivial
    apply hgated.follow hvouched
    refine ⟨earlier, item, name, ?_, hitem, rfl, hknown⟩
    rw [htrace]
    simp
  · exact h.move (moves_record s t _ _) trivial hgated

theorem Inv.answered {request : RawWireRequest} {session : κ} {items : List Json}
    (h : Inv T Holds Valid s) (hT : Lawful T Holds Valid)
    (ht : s.phases t = .verifying request session items) (verdict : Verdict) :
    Inv T Holds Valid
      (answered T (record s t [.verified verdict]) t request session items verdict) := by
  have hasks := h.asks t
  rw [ht] at hasks
  obtain ⟨hvalid, earlier, item, htrace, hitem⟩ := hasks
  obtain ⟨name, hknown, hexpected⟩ := hT.expected hvalid
  have hraised (hverdict : ¬ Revokes verdict name) (phase : Phase κ)
      (hphase : Asks (Valid s.transport s.authenticated) (s.clients t)
        (s.traces t ++ [Action.verified verdict]) phase) :
      Inv T Holds Valid (setPhase (record s t [.verified verdict]) t phase) := by
    apply h.move (moves_record s t _ _) hphase
    have hgated := h.gated t
    rw [htrace] at hgated ⊢
    exact hgated.follow (by nofun)
      ⟨name, hknown, fun hrevokes => absurd hrevokes hverdict⟩
  cases verdict with
  | principal other =>
    simp only [AuthorizationGate.answered]
    split_ifs with hsame
    · obtain rfl := Option.some.inj (hexpected.symm.trans hsame)
      exact h.proceed hitem htrace hknown hexpected
    · exact h.revoke hT hvalid htrace
  | rejected => exact h.revoke hT hvalid htrace
  | cancelled => exact hraised (not_revokes_of_raised (by nofun) (by nofun) name) .cancelled trivial
  | timedOut => exact hraised (not_revokes_of_raised (by nofun) (by nofun) name) _ trivial
  | unavailable => exact hraised (not_revokes_of_raised (by nofun) (by nofun) name) _ trivial
  | raised => exact hraised (not_revokes_of_raised (by nofun) (by nofun) name) _ trivial

theorem Inv.step {e : Event ε} (h : Inv T Holds Valid s) (hT : Lawful T Holds Valid)
    (hverifies : T.verifies = true) (hs : step T app s e = some s') :
    Inv T Holds Valid s' := by
  cases e with
  | transport e =>
    obtain ⟨transport, hstep, rfl⟩ := Option.map_eq_some_iff.mp hs
    exact h.next hT (.step hstep)
  | receive t =>
    simp only [AuthorizationGate.step] at hs
    split at hs
    case h_1 client data habsent hhead =>
      obtain ⟨transport, hstep, rfl⟩ := Option.map_eq_some_iff.mp hs
      exact h.receive hT habsent hstep
    case h_2 => nomatch hs
  | takeUp t =>
    simp only [AuthorizationGate.step] at hs
    split at hs
    case h_1 item items ht => exact Option.some.inj hs ▸ h.takeUp hT hverifies
    case h_2 => nomatch hs
  | verified t verdict =>
    simp only [AuthorizationGate.step] at hs
    split at hs
    case h_1 request session items ht => exact Option.some.inj hs ▸ h.answered hT ht verdict
    case h_2 => nomatch hs
  | ended t =>
    simp only [AuthorizationGate.step] at hs
    split at hs
    case h_3 => nomatch hs
    all_goals exact Option.some.inj hs ▸ h.leaves trivial
  | cancelled t =>
    simp only [AuthorizationGate.step] at hs
    split at hs
    case h_3 => nomatch hs
    all_goals exact Option.some.inj hs ▸ h.leaves trivial

theorem gated_run (hT : Lawful T Holds Valid) (hverifies : T.verifies = true)
    {es : List (Event ε)} (h : Machine.run (step T app) (start T) es = some s) (t : ℕ) :
    Gated (s.clients t) (s.authenticated (s.clients t))
      (T.isClosed s.transport (s.clients t)) (s.traces t) := by
  have hinv : Inv T Holds Valid s :=
    Machine.invariant (fun _ _ _ hs hstep => hs.step hT hverifies hstep) (inv_start hT) h
  exact hinv.gated t

end
end WireRpc.AuthorizationGate
