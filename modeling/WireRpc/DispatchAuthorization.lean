import WireRpc.VerifiedDispatch
import WireRpc.TableAgreement

/-!
# The multicast transports are lawful

A connection of either server keeps the identity that its authentication returned, in the
connection itself over TCP and in a table over WebSocket, until it is forgotten.
-/
namespace WireRpc.AuthorizationGate
open Library Execution

namespace Tcp
open MulticastTcp

/-- The task has not been told yet who its client is. -/
def IsEarly (s : MulticastTcp.State) (t : ℕ) : Prop :=
  s.handlers t = .absent ∨ s.handlers t = .verifying

structure Holds (s : MulticastTcp.State) (known : ℕ → Option String) : Prop where
  early : ∀ t, IsEarly s t → known t = none
  clients : ∀ t ∈ s.clients, ∃ name, known t = some name ∧ s.principals t = some name

def Valid (s : MulticastTcp.State) (known : ℕ → Option String) (client connection : ℕ) : Prop :=
  connection = client ∧ ∃ name, known client = some name ∧ s.principals client = some name

/-- What a step does to the identities. -/
structure Follows (s s' : MulticastTcp.State) (known known' : ℕ → Option String) : Prop where
  early : ∀ t, IsEarly s' t → IsEarly s t ∧ known' t = known t
  late : ∀ t, ¬ IsEarly s t → known' t = known t ∧ s'.principals t = s.principals t
  clients : ∀ t ∈ s'.clients,
    t ∈ s.clients ∨ ∃ name, known' t = some name ∧ s'.principals t = some name

/-- A step that tells the server nothing about its clients. -/
structure Retains (s s' : MulticastTcp.State) : Prop where
  early : ∀ t, IsEarly s' t → IsEarly s t := by exact fun _ h => h
  clients : s'.clients ⊆ s.clients := by exact Finset.Subset.refl _
  principals : s'.principals = s.principals := by rfl
  closed : ∀ t, s.writerClosed t = true → s'.writerClosed t = true := by exact fun _ h => h

section
variable {c : MulticastTcp.Config} {s s' s'' : MulticastTcp.State} {e : MulticastTcp.Event}
  {known known' : ℕ → Option String} {client connection t : ℕ}

theorem Holds.late (h : Holds s known) {name : String} (hname : known t = some name) :
    ¬ IsEarly s t := by
  intro hearly
  nomatch hname.symm.trans (h.early t hearly)

theorem Holds.follow (h : Holds s known) (hf : Follows s s' known known') :
    Holds s' known' where
  early t ht := by
    obtain ⟨hearly, hsame⟩ := hf.early t ht
    rw [hsame]
    exact h.early t hearly
  clients t ht := by
    obtain hold | hnew := hf.clients t ht
    · obtain ⟨name, hname, hprincipal⟩ := h.clients t hold
      obtain ⟨hknown, hprincipals⟩ := hf.late t (h.late hname)
      exact ⟨name, hknown.trans hname, hprincipals.trans hprincipal⟩
    · exact hnew

theorem Valid.follow (h : Holds s known) (hvalid : Valid s known client connection)
    (hf : Follows s s' known known') : Valid s' known' client connection := by
  obtain ⟨hconnection, name, hname, hprincipal⟩ := hvalid
  obtain ⟨hknown, hprincipals⟩ := hf.late client (h.late hname)
  exact ⟨hconnection, name, hknown.trans hname, hprincipals.trans hprincipal⟩

theorem Retains.follows (h : Retains s s') (known : ℕ → Option String) :
    Follows s s' known known where
  early t ht := ⟨h.early t ht, rfl⟩
  late t _ := ⟨rfl, congrFun h.principals t⟩
  clients _ ht := Or.inl (h.clients ht)

theorem Retains.trans (h : Retains s s') (h' : Retains s' s'') : Retains s s'' where
  early t ht := h.early t (h'.early t ht)
  clients := h'.clients.trans h.clients
  principals := h'.principals.trans h.principals
  closed t ht := h'.closed t (h.closed t ht)

theorem retains_setHandler (s : MulticastTcp.State) (t : ℕ) {phase : Handler}
    (hearly : phase = .absent ∨ phase = .verifying → IsEarly s t) :
    Retains s (setHandler s t phase) where
  early u hu := by
    by_cases hut : u = t
    · subst hut
      simp only [IsEarly, setHandler, Function.update_self] at hu
      exact hearly hu
    · simp only [IsEarly, setHandler, Function.update_of_ne hut] at hu
      exact hu

theorem retains_closeWriter (s : MulticastTcp.State) (t : ℕ) : Retains s (closeWriter s t) where
  closed u hu := by
    by_cases hut : u = t
    · subst hut
      exact Function.update_self ..
    · exact (Function.update_of_ne hut ..).trans hu

theorem retains_leave (s : MulticastTcp.State) (t : ℕ) (registered : Bool) :
    Retains s (leave s t registered) := by
  cases registered with
  | false =>
    rw [leave_unregistered]
    exact (retains_closeWriter s t).trans (retains_setHandler _ t (by nofun))
  | true =>
    cases hclosing : s.closing with
    | true =>
      rw [leave_closing s t hclosing]
      have hended : Retains s (setHandler s t .ended) :=
        retains_setHandler s t (by nofun)
      exact { early := hended.early }
    | false =>
      rw [leave_open s t hclosing]
      have hunregister : Retains s (unregister s t) := { clients := Finset.erase_subset _ _ }
      exact (hunregister.trans (retains_closeWriter _ t)).trans
        (retains_setHandler _ t (by nofun))

theorem retains_accept (hauth : c.authenticates = true) (s : MulticastTcp.State)
    (ht : s.handlers t = .absent) (refused : Bool) : Retains s (accept c s t refused) := by
  have hrefuses : Retains s (setHandler (closeWriter (track s t) t) t .refusing) := by
    have htrack : Retains s (track s t) := {}
    exact (htrack.trans (retains_closeWriter _ t)).trans
      (retains_setHandler _ t (by nofun))
  have hcounts : Retains s { track s t with active := s.active + 1 } := {}
  unfold accept
  split_ifs
  · exact hrefuses
  · exact hrefuses
  · exact hcounts.trans (retains_leave _ t false)
  · exact hcounts.trans (retains_setHandler _ t fun _ => Or.inl ht)

theorem retains_send (s : MulticastTcp.State) (j client : ℕ) (data : Bytes) (idle : Bool) :
    Retains s (send c s j client data idle) := by
  unfold send
  split_ifs
  · exact {}
  · exact { clients := Finset.erase_subset _ _, closed := (retains_closeWriter s client).closed }
  · exact {}

theorem retains_failSend (s : MulticastTcp.State) (j client : ℕ) :
    Retains s (failSend s j client) := by
  have hexpels (s : MulticastTcp.State) :
      Retains s (setSender (closeWriter s client) j .expelling) :=
    { closed := (retains_closeWriter s client).closed }
  unfold failSend
  split_ifs
  · have hunregister : Retains s (unregister s client) := { clients := Finset.erase_subset _ _ }
    exact hunregister.trans (hexpels _)
  · exact hexpels s

theorem retains_write (s : MulticastTcp.State) (j client : ℕ) : Retains s (write s j client) := by
  unfold write
  split_ifs
  · exact retains_failSend s j client
  · exact {}

theorem retains_frame (s : MulticastTcp.State) (t : ℕ) (payload : Bytes) :
    Retains s (frame s t payload) := by
  unfold frame
  split_ifs
  · exact retains_leave s t true
  · exact retains_setHandler s t (by nofun)

theorem retains_gathered (s : MulticastTcp.State) (k : ℕ) : Retains s (gathered s k) := by
  unfold gathered
  split_ifs
  · exact {}
  · exact { clients := Finset.empty_subset _ }

theorem retains_step (hauth : c.authenticates = true) (hs : MulticastTcp.step c s e = some s')
    (he : ∀ t name, e ≠ .verified t (.principal name)) : Retains s s' := by
  cases happens_of_step hs with
  | accept t refused ht => exact retains_accept hauth s ht refused
  | verified t verdict =>
    cases verdict with
    | principal name => exact absurd rfl (he t name)
    | _ => exact retains_leave s t false
  | frame t payload => exact retains_frame s t payload
  | queued t payload =>
    have hreads : Retains s (setHandler s t .reading) := retains_setHandler s t (by nofun)
    exact { early := hreads.early }
  | failed t => exact retains_leave s t true
  | finished t =>
    have hended : Retains s (setHandler s t .ended) := retains_setHandler s t (by nofun)
    exact { early := hended.early }
  | send j client data idle => exact retains_send s j client data idle
  | write j client => exact retains_write s j client
  | failSend j client => exact retains_failSend s j client
  | expel t => exact retains_closeWriter s t
  | gathered k => exact retains_gathered s k
  | closeConnection k t => exact { closed := (retains_closeWriter s t).closed }
  | recv | sent | expelled | beginClose | drained | connectionsClosed | returned => exact {}

/-- The authenticator names the client. -/
theorem follows_verified {name : String} (ht : s.handlers t = .verifying) :
    Follows s (verified s t (.principal name)) known (Function.update known t (some name)) := by
  have hne {u : ℕ} (hu : ¬ IsEarly s u) : u ≠ t := by
    rintro rfl
    exact hu (Or.inr ht)
  unfold verified
  split_ifs with hclosing
  · have hleaves := retains_leave s t false
    refine ⟨fun u hu => ⟨hleaves.early u hu, ?_⟩, fun u hu => ⟨?_, ?_⟩, fun u hu => ?_⟩
    · apply Function.update_of_ne
      rintro rfl
      rw [leave_unregistered] at hu
      obtain hu | hu := hu <;> nomatch (Function.update_self ..).symm.trans hu
    · exact Function.update_of_ne (hne hu) ..
    · exact congrFun hleaves.principals u
    · exact Or.inl (hleaves.clients hu)
  · refine ⟨fun u hu => ?_, fun u hu => ⟨?_, ?_⟩, fun u hu => ?_⟩
    · have hut : u ≠ t := by
        rintro rfl
        obtain hu | hu := hu <;> nomatch (Function.update_self ..).symm.trans hu
      have hreads : Retains s (setHandler s t .reading) :=
        retains_setHandler s t (by nofun)
      exact ⟨hreads.early u hu, Function.update_of_ne hut ..⟩
    · exact Function.update_of_ne (hne hu) ..
    · exact Function.update_of_ne (hne hu) ..
    · by_cases hut : u = t
      · subst hut
        exact Or.inr ⟨name, Function.update_self .., Function.update_self ..⟩
      · exact Or.inl (Finset.mem_of_mem_insert_of_ne hu hut)

theorem closed_verified {name : String} {client : ℕ} (h : s.writerClosed client = true) :
    (verified s t (.principal name)).writerClosed client = true := by
  unfold verified
  split_ifs
  · exact (retains_leave s t false).closed client h
  · exact h

theorem next_cases (hauth : c.authenticates = true)
    (h : Next (tcp c true) s known s' known') :
    (Retains s s' ∧ known' = known) ∨ ∃ t name, s.handlers t = .verifying ∧
      s' = verified s t (.principal name) ∧ known' = Function.update known t (some name) := by
  cases h with
  | expel => exact Or.inl ⟨retains_closeWriter s _, rfl⟩
  | @step _ _ e hs =>
    by_cases he : ∃ t name, e = .verified t (.principal name)
    · obtain ⟨t, name, rfl⟩ := he
      obtain ⟨ht, hs⟩ := Option.ite_none_right_eq_some.mp hs
      exact Or.inr ⟨t, name, ht, (Option.some.inj hs).symm, rfl⟩
    · have hne : ∀ t name, e ≠ .verified t (.principal name) :=
        fun t name h => he ⟨t, name, h⟩
      have hquiet : (tcp c true).authentication e = none := by
        cases e with
        | verified t verdict =>
          cases verdict with
          | principal name => exact absurd rfl (hne t name)
          | _ => rfl
        | _ => rfl
      exact Or.inl ⟨retains_step hauth hs hne, authenticate_of_quiet hquiet known⟩

theorem Next.follows (hauth : c.authenticates = true)
    (h : Next (tcp c true) s known s' known') : Follows s s' known known' := by
  obtain ⟨hretains, rfl⟩ | ⟨t, name, ht, rfl, rfl⟩ := next_cases hauth h
  · exact hretains.follows known'
  · exact follows_verified ht

theorem lawful (hauth : c.authenticates = true) : Lawful (tcp c true) Holds Valid where
  holds_start := ⟨fun _ _ => rfl, nofun⟩
  holds_next h hnext := h.follow (Next.follows hauth hnext)
  recv_quiet := rfl
  known_next h hnext hname := ((Next.follows hauth hnext).late _ (h.late hname)).1.trans hname
  valid_lookup {s _ client connection} h hlookup := by
    obtain ⟨⟨hclient, -⟩, hconnection⟩ := Option.ite_none_right_eq_some.mp hlookup
    exact ⟨(Option.some.inj hconnection).symm, h.clients client hclient⟩
  valid_next h hnext hvalid := hvalid.follow h (Next.follows hauth hnext)
  presented hvalid := hvalid.1
  expected hvalid := by
    obtain ⟨rfl, name, hname, hprincipal⟩ := hvalid
    exact ⟨name, hname, hprincipal⟩
  closed_next hnext hclosed := by
    obtain ⟨hretains, -⟩ | ⟨t, name, -, rfl, -⟩ := next_cases hauth hnext
    · exact hretains.closed _ hclosed
    · exact closed_verified hclosed
  closed_expel hvalid := by
    obtain ⟨rfl, -⟩ := hvalid
    exact Function.update_self ..

end
end Tcp

namespace Ws
open MulticastWs

def IsEarly (s : MulticastWs.State) (t : ℕ) : Prop :=
  s.handlers t = .absent ∨ s.handlers t = .verifying

def Named (known : ℕ → Option String) (t : ℕ) (principal : Option String) : Prop :=
  ∃ name, principal = some name ∧ known t = some name

/-- Whatever is filed under a client is its own. -/
structure Holds (s : MulticastWs.State) (known : ℕ → Option String) : Prop where
  early : ∀ t, IsEarly s t → known t = none
  preparing : ∀ t principal, s.handlers t = .preparing principal → Named known t principal
  clients : ∀ t ws, s.clients.lookup t = some ws → ws = t
  requests : ∀ t request, s.requests.lookup t = some request → request = t
  principals : ∀ t principal, s.principals.lookup t = some principal → Named known t principal

def Valid (known : ℕ → Option String) (client : ℕ) (session : Session) : Prop :=
  session.ws = client ∧ session.request = client ∧ Named known client session.principal

/-- A step that tells the server nothing about its clients. -/
structure Retains (s s' : MulticastWs.State) : Prop where
  early : ∀ t, IsEarly s' t → IsEarly s t := by exact fun _ h => h
  preparing : ∀ t principal, s'.handlers t = .preparing principal →
    s.handlers t = .preparing principal := by exact fun _ _ h => h
  clients : ∀ t ws, s'.clients.lookup t = some ws → s.clients.lookup t = some ws := by
    exact fun _ _ h => h
  requests : ∀ t request, s'.requests.lookup t = some request →
    s.requests.lookup t = some request := by exact fun _ _ h => h
  principals : ∀ t principal, s'.principals.lookup t = some principal →
    s.principals.lookup t = some principal := by exact fun _ _ h => h
  closed : ∀ t, s.wsClosed t = true → s'.wsClosed t = true := by exact fun _ h => h

section
variable {c : MulticastWs.Config} {s s' s'' : MulticastWs.State} {e : MulticastWs.Event}
  {known known' : ℕ → Option String} {client t : ℕ} {session : Session}

theorem Retains.trans (h : Retains s s') (h' : Retains s' s'') : Retains s s'' where
  early t ht := h.early t (h'.early t ht)
  preparing t principal ht := h.preparing t principal (h'.preparing t principal ht)
  clients t ws ht := h.clients t ws (h'.clients t ws ht)
  requests t request ht := h.requests t request (h'.requests t request ht)
  principals t principal ht := h.principals t principal (h'.principals t principal ht)
  closed t ht := h'.closed t (h.closed t ht)

theorem Holds.retain (h : Holds s known) (hr : Retains s s') : Holds s' known where
  early t ht := h.early t (hr.early t ht)
  preparing t principal ht := h.preparing t principal (hr.preparing t principal ht)
  clients t ws ht := h.clients t ws (hr.clients t ws ht)
  requests t request ht := h.requests t request (hr.requests t request ht)
  principals t principal ht := h.principals t principal (hr.principals t principal ht)

theorem retains_setHandler (s : MulticastWs.State) (t : ℕ) {phase : Handler}
    (hearly : phase = .absent ∨ phase = .verifying → IsEarly s t)
    (hpreparing : ∀ principal, phase ≠ .preparing principal) :
    Retains s (setHandler s t phase) where
  early u hu := by
    by_cases hut : u = t
    · subst hut
      simp only [IsEarly, setHandler, Function.update_self] at hu
      exact hearly hu
    · simp only [IsEarly, setHandler, Function.update_of_ne hut] at hu
      exact hu
  preparing u principal hu := by
    by_cases hut : u = t
    · subst hut
      exact absurd ((Function.update_self ..).symm.trans hu) (hpreparing principal)
    · exact (Function.update_of_ne hut ..).symm.trans hu

theorem retains_ended (s : MulticastWs.State) (t : ℕ) : Retains s (setHandler s t .ended) :=
  retains_setHandler s t (by nofun) nofun

theorem retains_release (s : MulticastWs.State) (t : ℕ) : Retains s (release s t) := by
  have hended := retains_ended s t
  exact { early := hended.early, preparing := hended.preparing }

theorem retains_closeWs (s : MulticastWs.State) (t : ℕ) : Retains s (closeWs s t) where
  closed u hu := by
    by_cases hut : u = t
    · subst hut
      exact Function.update_self ..
    · exact (Function.update_of_ne hut ..).trans hu

theorem retains_leave (s : MulticastWs.State) (t : ℕ) : Retains s (leave s t) := by
  have hleaves (s : MulticastWs.State) : Retains s
      (setHandler (closeWs { s with queue := s.queue.filter (·.1 ≠ t) } t) t .leaving) := by
    have hdrops : Retains s { s with queue := s.queue.filter (·.1 ≠ t) } := {}
    exact (hdrops.trans (retains_closeWs _ t)).trans (retains_setHandler _ t (by nofun) nofun)
  have hforgets : Retains s (forget s t) :=
    { clients := fun _ _ h => (lookup_of_erase h).2
      requests := fun _ _ h => (lookup_of_erase h).2
      principals := fun _ _ h => (lookup_of_erase h).2 }
  unfold leave
  split_ifs
  · exact hforgets.trans (hleaves _)
  · exact hleaves s

theorem retains_accept (hauth : c.authenticates = true) (ht : s.handlers t = .absent)
    (foreign : Bool) : Retains s (accept c s t foreign) := by
  unfold accept
  rw [if_pos hauth]
  split_ifs
  · exact retains_ended s t
  · exact retains_ended s t
  · have hverifies : Retains s (setHandler s t .verifying) :=
      retains_setHandler s t (fun _ => Or.inl ht) nofun
    exact { early := hverifies.early, preparing := hverifies.preparing }

theorem retains_trySend (s : MulticastWs.State) (j : ℕ) (ws : Option ℕ) (data : Bytes)
    (delivery : Option ℕ) : Retains s (trySend c s j ws data delivery) := by
  unfold trySend
  split_ifs
  · exact {}
  · cases ws with
    | none => exact {}
    | some ws => exact {}

theorem retains_sendClosed (s : MulticastWs.State) (j ws : ℕ) (delivery : Option ℕ)
    (interrupted : Bool) : Retains s (sendClosed s j ws delivery interrupted) := by
  unfold sendClosed
  split
  next client =>
    have hdrops (s : MulticastWs.State) : Retains s (setSender (closeWs s ws) j .dropping) :=
      { closed := (retains_closeWs s ws).closed }
    unfold drop
    split_ifs
    · have herases : Retains s { s with clients := s.clients.erase client } :=
        { clients := fun _ _ h => (lookup_of_erase h).2 }
      exact herases.trans (hdrops _)
    · exact hdrops s
  next => exact {}

/-- A step that tells the server who a client is, or files one. -/
inductive Tells (s s' : MulticastWs.State) (known known' : ℕ → Option String) : Prop
  | names (t : ℕ) (name : String) (ht : s.handlers t = .verifying)
      (hs : s' = setHandler s t (.preparing (some name)))
      (hknown : known' = Function.update known t (some name))
  | files (t : ℕ) (principal : Option String) (ht : s.handlers t = .preparing principal)
      (hs : s' = register s t principal) (hknown : known' = known)

theorem retains_message (s : MulticastWs.State) (t : ℕ) (payload : Bytes) :
    Retains s (message c s t payload) := by
  unfold message
  split_ifs
  · exact retains_leave s t
  · exact retains_setHandler s t (by nofun) nofun

/-- The answer to the upgrade files the client, or nothing. -/
theorem prepared_cases {principal : Option String} (ht : s.handlers t = .preparing principal)
    (succeeds : Bool) : Retains s (prepared s t principal succeeds) ∨
      Tells s (prepared s t principal succeeds) known known := by
  unfold prepared
  split_ifs
  · exact Or.inl (retains_release s t)
  · exact Or.inl ((retains_closeWs s t).trans (retains_setHandler _ t (by nofun) nofun))
  · exact Or.inr (.files t principal ht rfl rfl)

theorem retains_step (hauth : c.authenticates = true) (hs : MulticastWs.step c s e = some s')
    (he : ∀ t name, e ≠ .verified t (.principal name)) :
    Retains s s' ∨ Tells s s' known known := by
  cases happens_of_step hs with
  | prepared t principal succeeds ht => exact prepared_cases ht succeeds
  | accept t foreign ht => exact Or.inl (retains_accept hauth ht foreign)
  | verified t verdict =>
    cases verdict with
    | principal name => exact absurd rfl (he t name)
    | _ => exact Or.inl (retains_release s t)
  | message t payload => exact Or.inl (retains_message s t payload)
  | queued t payload =>
    have hserves : Retains s (setHandler s t .serving) := retains_setHandler s t (by nofun) nofun
    exact Or.inl { early := hserves.early, preparing := hserves.preparing }
  | failed t => exact Or.inl (retains_leave s t)
  | finished t => exact Or.inl (retains_release s t)
  | send j client data => exact Or.inl (retains_trySend s j _ data none)
  | deliver b j client ws data =>
    have hbegins : Retains s { s with
        broadcasts := Function.update s.broadcasts b ((s.broadcasts b).erase (client, ws)) } := {}
    exact Or.inl (hbegins.trans (retains_trySend _ j _ data _))
  | failSend j ws => exact Or.inl { closed := (retains_closeWs s ws).closed }
  | sendClosed j ws delivery interrupted =>
    exact Or.inl (retains_sendClosed s j ws delivery interrupted)
  | expel t => exact Or.inl (retains_closeWs s t)
  | closeSocket k t => exact Or.inl { closed := (retains_closeWs s t).closed }
  | cleared k => exact Or.inl { clients := nofun, requests := nofun, principals := nofun }
  | recv | broadcast | sent | dropped | beginClose | returned => exact Or.inl {}

theorem next_cases (hauth : c.authenticates = true)
    (h : Next (webSocket c) s known s' known') :
    (Retains s s' ∧ known' = known) ∨ Tells s s' known known' := by
  cases h with
  | expel => exact Or.inl ⟨retains_closeWs s _, rfl⟩
  | @step _ _ e hs =>
    by_cases he : ∃ t name, e = .verified t (.principal name)
    · obtain ⟨t, name, rfl⟩ := he
      obtain ⟨ht, hs⟩ := Option.ite_none_right_eq_some.mp hs
      exact Or.inr (.names t name ht (Option.some.inj hs).symm rfl)
    · have hne : ∀ t name, e ≠ .verified t (.principal name) :=
        fun t name h => he ⟨t, name, h⟩
      have hquiet : (webSocket c).authentication e = none := by
        cases e with
        | verified t verdict =>
          cases verdict with
          | principal name => exact absurd rfl (hne t name)
          | _ => rfl
        | _ => rfl
      rw [authenticate_of_quiet hquiet]
      obtain hretains | htells := retains_step hauth hs hne
      · exact Or.inl ⟨hretains, rfl⟩
      · exact Or.inr htells

/-- Identities that are known stay, as a client is named once. -/
theorem Tells.keeps (h : Holds s known) (htells : Tells s s' known known') {name : String}
    (hname : known client = some name) : known' client = some name := by
  cases htells with
  | names t other ht _ hknown =>
    have hne : client ≠ t := by
      rintro rfl
      nomatch hname.symm.trans (h.early client (Or.inr ht))
    rw [hknown, Function.update_of_ne hne]
    exact hname
  | files t principal _ _ hknown => exact hknown ▸ hname

theorem Named.mono {principal : Option String} (h : Named known t principal)
    (hknown : ∀ name, known t = some name → known' t = some name) : Named known' t principal := by
  obtain ⟨name, hprincipal, hname⟩ := h
  exact ⟨name, hprincipal, hknown name hname⟩

theorem Holds.name {name : String} (h : Holds s known) (ht : s.handlers t = .verifying) :
    Holds (setHandler s t (.preparing (some name))) (Function.update known t (some name)) := by
  have hstays {u : ℕ} {principal : Option String} (hu : Named known u principal) :
      Named (Function.update known t (some name)) u principal :=
    hu.mono fun _ hname => Tells.keeps h (.names t name ht rfl rfl) hname
  refine ⟨fun u hu => ?_, fun u principal hu => ?_, h.clients, h.requests, fun u principal hu => ?_⟩
  · have hut : u ≠ t := by
      rintro rfl
      obtain hu | hu := hu <;> nomatch (Function.update_self ..).symm.trans hu
    rw [Function.update_of_ne hut]
    simp only [IsEarly, setHandler, Function.update_of_ne hut] at hu
    exact h.early u hu
  · by_cases hut : u = t
    · subst hut
      have hprincipal := Handler.preparing.inj ((Function.update_self ..).symm.trans hu)
      exact ⟨name, hprincipal.symm, Function.update_self ..⟩
    · exact hstays (h.preparing u principal ((Function.update_of_ne hut ..).symm.trans hu))
  · exact hstays (h.principals u principal hu)

/-- An entry of a table that has got one more. -/
theorem lookup_insert_cases {β : Type} {table : AList fun _ : ℕ => β} {u : ℕ} {a b : β}
    (h : (table.insert t a).lookup u = some b) :
    u = t ∧ b = a ∨ table.lookup u = some b := by
  by_cases hut : u = t
  · subst hut
    rw [AList.lookup_insert] at h
    exact Or.inl ⟨rfl, (Option.some.inj h).symm⟩
  · rw [AList.lookup_insert_ne hut] at h
    exact Or.inr h

theorem Holds.file {principal : Option String} (h : Holds s known)
    (ht : s.handlers t = .preparing principal) : Holds (register s t principal) known := by
  have hserves : Retains s (setHandler s t .serving) := retains_setHandler s t (by nofun) nofun
  refine ⟨fun u hu => h.early u (hserves.early u hu),
    fun u p hu => h.preparing u p (hserves.preparing u p hu),
    fun u ws hu => ?_, fun u request hu => ?_, fun u p hu => ?_⟩
  · obtain ⟨rfl, rfl⟩ | hold := lookup_insert_cases hu
    · rfl
    · exact h.clients u ws hold
  · obtain ⟨rfl, rfl⟩ | hold := lookup_insert_cases hu
    · rfl
    · exact h.requests u request hold
  · obtain ⟨rfl, rfl⟩ | hold := lookup_insert_cases hu
    · exact h.preparing u p ht
    · exact h.principals u p hold

theorem Holds.tell (h : Holds s known) (htells : Tells s s' known known') : Holds s' known' := by
  cases htells with
  | names t name ht hs hknown =>
    subst hs hknown
    exact h.name ht
  | files t principal ht hs hknown =>
    subst hs hknown
    exact h.file ht

theorem Next.keeps (hauth : c.authenticates = true) (h : Holds s known)
    (hnext : Next (webSocket c) s known s' known') {name : String}
    (hname : known client = some name) : known' client = some name := by
  obtain ⟨-, rfl⟩ | htells := next_cases hauth hnext
  · exact hname
  · exact htells.keeps h hname

theorem lawful (hauth : c.authenticates = true) :
    Lawful (webSocket c) Holds fun _ known client session => Valid known client session where
  holds_start := ⟨fun _ _ => rfl, nofun, nofun, nofun, nofun⟩
  holds_next h hnext := by
    obtain ⟨hretains, rfl⟩ | htells := next_cases hauth hnext
    · exact h.retain hretains
    · exact h.tell htells
  recv_quiet := rfl
  known_next h hnext hname := Next.keeps hauth h hnext hname
  valid_lookup {s known client session} h hlookup := by
    obtain ⟨ws, hws, hlookup⟩ := Option.bind_eq_some_iff.mp hlookup
    obtain ⟨principal, hprincipal, hlookup⟩ := Option.bind_eq_some_iff.mp hlookup
    obtain ⟨request, hrequest, hlookup⟩ := Option.bind_eq_some_iff.mp hlookup
    obtain rfl := Option.some.inj hlookup
    exact ⟨h.clients client ws hws, h.requests client request hrequest,
      h.principals client principal hprincipal⟩
  valid_next h hnext hvalid :=
    ⟨hvalid.1, hvalid.2.1, hvalid.2.2.mono fun _ hname => Next.keeps hauth h hnext hname⟩
  presented hvalid := hvalid.2.1
  expected hvalid := by
    obtain ⟨-, -, name, hprincipal, hname⟩ := hvalid
    exact ⟨name, hname, hprincipal⟩
  closed_next {s s' known known' client} hnext hclosed := by
    obtain ⟨hretains, -⟩ | htells := next_cases hauth hnext
    · exact hretains.closed client hclosed
    · cases htells with
      | names t name _ hs _ => exact hs ▸ hclosed
      | files t principal _ hs _ => exact hs ▸ hclosed
  closed_expel hvalid := by
    obtain ⟨rfl, -⟩ := hvalid
    exact Function.update_self ..

end
end Ws

/-- Each time the task enters `dispatch`, the request was taken up, then the credentials of
its connection were shown, then the identity of the connect time came back, which is the
one in the context. When another answer comes back the connection is closed, and what the
task does next, if anything, is to take up another item. -/
structure Authorized {σ ε κ : Type} (T : Transport σ ε κ) (s : State σ κ) (t : ℕ) : Prop where
  entered : ∀ before request principal after,
    s.traces t = before ++ .entered request principal :: after → ∃ earlier item name,
      before = earlier ++ [.taken item, .started (s.clients t), .verified (.principal name)] ∧
        validate item = some request ∧ principal = some name ∧
          s.authenticated (s.clients t) = some name
  revoked : ∀ before verdict after, s.traces t = before ++ .verified verdict :: after →
    ∃ name, s.authenticated (s.clients t) = some name ∧
      (Revokes verdict name → T.isClosed s.transport (s.clients t) = true ∧
        (after = [] ∨ ∃ item later, after = .taken item :: later))

theorem authorized_run {σ ε κ W : Type} {T : Transport σ ε κ} {app : ExecutionHost W}
    {Holds : σ → (ℕ → Option String) → Prop} {Valid : σ → (ℕ → Option String) → ℕ → κ → Prop}
    {es : List (Event ε)} {s : State σ κ} (hT : Lawful T Holds Valid)
    (hverifies : T.verifies = true) (h : Machine.run (step T app) (start T) es = some s) (t : ℕ) :
    Authorized T s t where
  entered before request principal after htrace :=
    gated_run hT hverifies h t before (.entered request principal) after htrace
  revoked before verdict after htrace :=
    gated_run hT hverifies h t before (.verified verdict) after htrace

/-- No task of a `MulticastApp` enters `dispatch` with an identity that has not just been
verified, over TCP when the authenticator can verify again and over WebSocket when there is
an authenticator. -/
theorem dispatch_authorized {W : Type} (app : ExecutionHost W) (t : ℕ) :
    (∀ (c : MulticastTcp.Config) (es : List (Event MulticastTcp.Event))
        (s : State MulticastTcp.State ℕ), c.authenticates = true →
      Machine.run (step (tcp c true) app) (start (tcp c true)) es = some s →
        Authorized (tcp c true) s t) ∧
      ∀ (c : MulticastWs.Config) (es : List (Event MulticastWs.Event))
        (s : State MulticastWs.State Session), c.authenticates = true →
        Machine.run (step (webSocket c) app) (start (webSocket c)) es = some s →
          Authorized (webSocket c) s t := by
  constructor
  · intro c es s hauth hrun
    exact authorized_run (Tcp.lawful hauth) rfl hrun t
  · intro c es s hauth hrun
    exact authorized_run (Ws.lawful hauth) hauth hrun t

/-- An app to which every message is one call. -/
def callHost : ExecutionHost Unit :=
  { leastHost 1 Nat.one_pos with codec := ⟨fun _ => some [], fun _ => some (callItem 1)⟩ }

def tcpServer : Transport MulticastTcp.State MulticastTcp.Event ℕ :=
  tcp ⟨1, 1024, true, true⟩ true

def webSocketServer : Transport MulticastWs.State MulticastWs.Event Session :=
  webSocket ⟨1, 1024, true⟩

/-- A request of a client is dispatched. Then its credentials are revoked. -/
def revokedRun : List (Event MulticastTcp.Event) :=
  [.transport (.accept 0 false), .transport (.verified 0 (.principal "alice")),
    .transport (.frame 0 [1]), .transport (.queued 0), .transport (.frame 0 [2]),
    .transport (.queued 0), .receive 0, .takeUp 0, .verified 0 (.principal "alice"),
    .receive 1, .takeUp 1, .verified 1 .rejected]

def dispatchedRun : List (Event MulticastWs.Event) :=
  [.transport (.accept 0 false), .transport (.verified 0 (.principal "bob")),
    .transport (.prepared 0 true), .transport (.message 0 [1]), .transport (.queued 0),
    .receive 0, .takeUp 0, .verified 0 (.principal "bob")]

theorem dispatch_authorized_revoked :
    (∃ s, Machine.run (step tcpServer callHost) (start tcpServer) revokedRun = some s ∧
      (s.traces 1).length = 3 ∧ s.transport.writerClosed 0 = true ∧ Authorized tcpServer s 1) ∧
      ∃ s, Machine.run (step webSocketServer callHost) (start webSocketServer) dispatchedRun =
        some s ∧ (s.traces 0).length = 4 ∧ Authorized webSocketServer s 0 := by
  constructor
  · exact ⟨_, rfl, rfl, rfl, (dispatch_authorized callHost 1).1 _ revokedRun _ rfl rfl⟩
  · exact ⟨_, rfl, rfl, (dispatch_authorized callHost 0).2 _ dispatchedRun _ rfl rfl⟩

end WireRpc.AuthorizationGate
