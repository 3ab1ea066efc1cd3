import WireRpc.MulticastWs

/-!
# The tables of the WebSocket server

`_clients`, `_requests` and `_principals` have the same keys as long as no delivery of a
broadcast fails to a client that is still in `_clients`: that one alone is taken out of a
single table.
-/
namespace WireRpc.MulticastWs
open Library

def TablesAgree (s : State) : Prop :=
  ∀ t, (t ∈ s.clients ↔ t ∈ s.requests) ∧ (t ∈ s.clients ↔ t ∈ s.principals)

/-- No table holds a client whose serving task is over. -/
def EndedForgotten (s : State) : Prop :=
  ∀ t, s.handlers t = .ended → t ∉ s.clients ∧ t ∉ s.requests ∧ t ∉ s.principals

/-- The step is not the failure of a delivery to a client that is still in `_clients`. -/
def NoDrop (s : State) : Event → Prop
  | .sendClosed j false => ∀ client ws, s.senders j = .failing ws (some client) →
      s.clients.lookup client ≠ some ws
  | _ => True

/-- A client is filed with its own socket, and its serving task has not left. -/
def Inv (s : State) : Prop :=
  ∀ t ws, s.clients.lookup t = some ws → ws = t ∧ (s.handlers t).isRegistered = true

theorem inv_start : Inv start := fun _ _ h => nomatch h

structure SameTables (s s' : State) : Prop where
  clients : s'.clients = s.clients := by rfl
  requests : s'.requests = s.requests := by rfl
  principals : s'.principals = s.principals := by rfl

inductive Move (s s' : State) : Prop
  | stays (hsame : SameTables s s') (t : ℕ) (phase : Handler)
      (hhandlers : s'.handlers = Function.update s.handlers t phase)
      (hphase : (s.handlers t).isRegistered = true → phase.isRegistered = true)
  | idles (hsame : SameTables s s') (hhandlers : s'.handlers = s.handlers)
  | registers (t : ℕ) (principal : Option String) (hs : s' = register s t principal)
  | leaves (t : ℕ) (hs : s' = leave s t)
  | clears (k : ℕ) (hs : s' = cleared s k)

section
variable {c : Config} {s s' : State} {e : Event} {t : ℕ}

theorem accept_move (ht : s.handlers t = .absent) (foreign : Bool) :
    Move s (accept c s t foreign) := by
  have habsent (phase : Handler) :
      (s.handlers t).isRegistered = true → phase.isRegistered = true := by
    rw [ht]
    nofun
  unfold accept
  split_ifs
  · exact .stays {} t _ rfl (habsent _)
  · exact .stays {} t _ rfl (habsent _)
  · exact .stays {} t _ rfl (habsent _)
  · exact .stays {} t _ rfl (habsent _)

theorem verified_move (ht : s.handlers t = .verifying) (verdict : Verdict) :
    Move s (verified s t verdict) := by
  have hverifying (phase : Handler) :
      (s.handlers t).isRegistered = true → phase.isRegistered = true := by
    rw [ht]
    nofun
  cases verdict with
  | principal name => exact .stays {} t _ rfl (hverifying _)
  | _ => exact .stays {} t _ rfl (hverifying _)

theorem prepared_move {principal : Option String} (ht : s.handlers t = .preparing principal)
    (succeeds : Bool) : Move s (prepared s t principal succeeds) := by
  have hpreparing (phase : Handler) :
      (s.handlers t).isRegistered = true → phase.isRegistered = true := by
    rw [ht]
    nofun
  unfold prepared
  split_ifs
  · exact .stays {} t _ rfl (hpreparing _)
  · exact .stays {} t _ rfl (hpreparing _)
  · exact .registers t principal rfl

theorem message_move (payload : Bytes) : Move s (message c s t payload) := by
  unfold message
  split_ifs
  · exact .leaves t rfl
  · exact .stays {} t _ rfl fun _ => rfl

theorem trySend_move (s : State) (j : ℕ) (ws : Option ℕ) (data : Bytes) (delivery : Option ℕ) :
    SameTables s (trySend c s j ws data delivery) ∧
      (trySend c s j ws data delivery).handlers = s.handlers := by
  unfold trySend
  split_ifs
  · exact ⟨{}, rfl⟩
  · cases ws with
    | none => exact ⟨{}, rfl⟩
    | some ws => exact ⟨{}, rfl⟩

/-- A delivery that failed takes its client out of `_clients` alone. -/
structure Drops (s s' : State) (client ws : ℕ) : Prop where
  lookup : s.clients.lookup client = some ws
  clients : s'.clients = s.clients.erase client
  requests : s'.requests = s.requests
  handlers : s'.handlers = s.handlers

theorem sendClosed_move {j ws : ℕ} {delivery : Option ℕ} {interrupted : Bool}
    (hj : s.senders j = .failing ws delivery) :
    (Move s (sendClosed s j ws delivery interrupted) ∧ NoDrop s (.sendClosed j interrupted)) ∨
      (∃ client, Drops s (sendClosed s j ws delivery interrupted) client ws) ∧
        ¬ NoDrop s (.sendClosed j interrupted) := by
  cases interrupted with
  | true => cases delivery <;> exact Or.inl ⟨.idles {} rfl, trivial⟩
  | false =>
    cases delivery with
    | none =>
      refine Or.inl ⟨.idles {} rfl, fun client ws' hfailing => ?_⟩
      nomatch hj.symm.trans hfailing
    | some client =>
      by_cases hlookup : s.clients.lookup client = some ws
      · have hdrop : Drops s (drop s j client ws) client ws := by
          unfold drop
          rw [if_pos hlookup]
          exact ⟨hlookup, rfl, rfl, rfl⟩
        exact Or.inr ⟨⟨client, hdrop⟩, fun hno => hno client ws hj hlookup⟩
      · refine Or.inl ⟨?_, fun client' ws' hfailing => ?_⟩
        · show Move s (drop s j client ws)
          unfold drop
          rw [if_neg hlookup]
          exact .idles {} rfl
        · obtain ⟨rfl, hclient⟩ := Sender.failing.inj (hj.symm.trans hfailing)
          obtain rfl := Option.some.inj hclient
          exact hlookup

/-- A step moves the tables together and is no drop, or it drops a client. -/
theorem step_move (hs : step c s e = some s') :
    (Move s s' ∧ NoDrop s e) ∨ (∃ client ws, Drops s s' client ws) ∧ ¬ NoDrop s e := by
  cases happens_of_step hs with
  | accept t foreign ht => exact Or.inl ⟨accept_move ht foreign, trivial⟩
  | verified t verdict ht => exact Or.inl ⟨verified_move ht verdict, trivial⟩
  | prepared t principal succeeds ht => exact Or.inl ⟨prepared_move ht succeeds, trivial⟩
  | message t payload => exact Or.inl ⟨message_move payload, trivial⟩
  | queued t => exact Or.inl ⟨.stays {} t .serving rfl fun _ => rfl, trivial⟩
  | failed t => exact Or.inl ⟨.leaves t rfl, trivial⟩
  | finished t ht =>
    refine Or.inl ⟨.stays {} t .ended rfl fun hregistered => ?_, trivial⟩
    obtain ht | ht := ht <;> rw [ht] at hregistered <;> nomatch hregistered
  | send j client data =>
    have hsend := trySend_move (c := c) s j (s.clients.lookup client) data none
    exact Or.inl ⟨.idles hsend.1 hsend.2, trivial⟩
  | deliver b j client ws data =>
    have hsend := trySend_move (c := c) { s with
      broadcasts := Function.update s.broadcasts b ((s.broadcasts b).erase (client, ws)) }
      j (some ws) data (some client)
    refine Or.inl ⟨.idles ?_ hsend.2, trivial⟩
    exact ⟨hsend.1.clients, hsend.1.requests, hsend.1.principals⟩
  | sendClosed j ws delivery interrupted hj =>
    obtain hmove | ⟨⟨client, hdrops⟩, hno⟩ := sendClosed_move hj
    · exact Or.inl hmove
    · exact Or.inr ⟨⟨client, ws, hdrops⟩, hno⟩
  | cleared k => exact Or.inl ⟨.clears k rfl, trivial⟩
  | recv | broadcast | sent | failSend | dropped | expel | beginClose | closeSocket | returned =>
    exact Or.inl ⟨.idles {} rfl, trivial⟩

theorem leave_eq (s : State) (t : ℕ) :
    (s.clients.lookup t = some t ∧ (leave s t).clients = s.clients.erase t ∧
        (leave s t).requests = s.requests.erase t ∧
        (leave s t).principals = s.principals.erase t) ∨
      (s.clients.lookup t ≠ some t ∧ SameTables s (leave s t)) := by
  unfold leave
  by_cases hlookup : s.clients.lookup t = some t
  · rw [if_pos hlookup]
    exact Or.inl ⟨hlookup, rfl, rfl, rfl⟩
  · rw [if_neg hlookup]
    exact Or.inr ⟨hlookup, {}⟩

theorem leave_handlers (s : State) (t : ℕ) :
    (leave s t).handlers = Function.update s.handlers t .leaving := by
  unfold leave
  split_ifs
  · rfl
  · rfl

theorem mem_of_lookup {ws : ℕ} (h : s.clients.lookup t = some ws) : t ∈ s.clients :=
  AList.lookup_isSome.mp (Option.isSome_iff_exists.mpr ⟨ws, h⟩)

theorem Inv.lookup_self (h : Inv s) (ht : t ∈ s.clients) : s.clients.lookup t = some t := by
  obtain ⟨ws, hws⟩ := Option.isSome_iff_exists.mp (AList.lookup_isSome.mpr ht)
  obtain ⟨rfl, -⟩ := h t ws hws
  exact hws

theorem Inv.of_lookup_le (h : Inv s) (hhandlers : s'.handlers = s.handlers)
    (hlookup : ∀ t ws, s'.clients.lookup t = some ws → s.clients.lookup t = some ws) : Inv s' := by
  intro t ws hws
  rw [hhandlers]
  exact h t ws (hlookup t ws hws)

theorem lookup_of_erase {β : Type} {table : AList fun _ : ℕ => β} {u : ℕ} {b : β}
    (h : (table.erase t).lookup u = some b) : u ≠ t ∧ table.lookup u = some b := by
  by_cases hut : u = t
  · subst hut
    nomatch (AList.lookup_erase ..).symm.trans h
  · exact ⟨hut, (AList.lookup_erase_ne hut).symm.trans h⟩

theorem Inv.move (h : Inv s) (hm : Move s s') : Inv s' := by
  cases hm with
  | stays hsame t phase hhandlers hphase =>
    intro u ws hws
    rw [hsame.clients] at hws
    obtain ⟨rfl, hregistered⟩ := h u ws hws
    refine ⟨rfl, ?_⟩
    rw [hhandlers]
    by_cases hut : ws = t
    · subst hut
      rw [Function.update_self]
      exact hphase hregistered
    · rw [Function.update_of_ne hut]
      exact hregistered
  | idles hsame hhandlers =>
    exact h.of_lookup_le hhandlers fun t ws hws => hsame.clients ▸ hws
  | registers t principal hs =>
    subst hs
    intro u ws hws
    by_cases hut : u = t
    · subst hut
      obtain rfl := Option.some.inj ((AList.lookup_insert s.clients).symm.trans hws)
      refine ⟨rfl, ?_⟩
      show (Function.update s.handlers u .serving u).isRegistered = true
      rw [Function.update_self]
      rfl
    · obtain ⟨rfl, hregistered⟩ := h u ws ((AList.lookup_insert_ne hut).symm.trans hws)
      refine ⟨rfl, ?_⟩
      show (Function.update s.handlers t .serving ws).isRegistered = true
      rw [Function.update_of_ne hut]
      exact hregistered
  | leaves t hs =>
    subst hs
    intro u ws hws
    have hothers : u ≠ t ∧ s.clients.lookup u = some ws := by
      obtain ⟨-, hclients, -⟩ | ⟨hlookup, hsame⟩ := leave_eq s t
      · rw [hclients] at hws
        exact lookup_of_erase hws
      · rw [hsame.clients] at hws
        refine ⟨?_, hws⟩
        rintro rfl
        exact hlookup (h.lookup_self (mem_of_lookup hws))
    obtain ⟨rfl, hregistered⟩ := h u ws hothers.2
    refine ⟨rfl, ?_⟩
    rw [leave_handlers, Function.update_of_ne hothers.1]
    exact hregistered
  | clears k hs =>
    subst hs
    intro u ws hws
    nomatch hws

theorem Inv.drop {client ws : ℕ} (h : Inv s) (hd : Drops s s' client ws) : Inv s' := by
  apply h.of_lookup_le hd.handlers
  intro u ws' hws
  rw [hd.clients] at hws
  exact (lookup_of_erase hws).2

theorem Inv.step (h : Inv s) (hs : step c s e = some s') : Inv s' := by
  obtain ⟨hmove, -⟩ | ⟨⟨client, ws, hdrops⟩, -⟩ := step_move hs
  · exact h.move hmove
  · exact h.drop hdrops

theorem TablesAgree.of_same (h : TablesAgree s) (hsame : SameTables s s') : TablesAgree s' := by
  intro t
  rw [hsame.clients, hsame.requests, hsame.principals]
  exact h t

theorem TablesAgree.move (h : TablesAgree s) (hm : Move s s') : TablesAgree s' := by
  cases hm with
  | stays hsame _ _ _ _ => exact h.of_same hsame
  | idles hsame _ => exact h.of_same hsame
  | registers t principal hs =>
    subst hs
    intro u
    show (u ∈ s.clients.insert t t ↔ u ∈ s.requests.insert t t) ∧
      (u ∈ s.clients.insert t t ↔ u ∈ s.principals.insert t principal)
    simp only [AList.mem_insert]
    exact ⟨or_congr_right (h u).1, or_congr_right (h u).2⟩
  | leaves t hs =>
    subst hs
    obtain ⟨-, hclients, hrequests, hprincipals⟩ | ⟨-, hsame⟩ := leave_eq s t
    · intro u
      rw [hclients, hrequests, hprincipals]
      simp only [AList.mem_erase]
      exact ⟨and_congr_right fun _ => (h u).1, and_congr_right fun _ => (h u).2⟩
    · exact h.of_same hsame
  | clears k hs =>
    subst hs
    exact fun u => ⟨Iff.rfl, Iff.rfl⟩

/-- A drop leaves the request of its client behind. -/
theorem TablesAgree.not_of_drop {client ws : ℕ} (h : TablesAgree s) (hd : Drops s s' client ws) :
    ¬ TablesAgree s' := by
  intro hagree
  have hmem : client ∈ s'.requests := by
    rw [hd.requests]
    exact (h client).1.mp (mem_of_lookup hd.lookup)
  have hclient := (hagree client).1.mpr hmem
  rw [hd.clients, AList.mem_erase] at hclient
  exact hclient.1 rfl

theorem TablesAgree.forgotten (h : TablesAgree s) (hinv : Inv s) : EndedForgotten s := by
  intro t ht
  have hclient : t ∉ s.clients := by
    intro hmem
    obtain ⟨-, hregistered⟩ := hinv t t (hinv.lookup_self hmem)
    rw [ht] at hregistered
    nomatch hregistered
  exact ⟨hclient, fun hmem => hclient ((h t).1.mpr hmem), fun hmem => hclient ((h t).2.mpr hmem)⟩

theorem step_agree_iff (hinv : Inv s) (h : TablesAgree s ∧ EndedForgotten s)
    (hs : step c s e = some s') : (TablesAgree s' ∧ EndedForgotten s') ↔ NoDrop s e := by
  have hinv' := hinv.step hs
  obtain ⟨hmove, hno⟩ | ⟨⟨client, ws, hdrops⟩, hno⟩ := step_move hs
  · have hagree := h.1.move hmove
    exact iff_of_true ⟨hagree, hagree.forgotten hinv'⟩ hno
  · exact iff_of_false (fun hagree => h.1.not_of_drop hdrops hagree.1) hno

end

/-- The three tables have the same keys in every state of a run, and hold none whose
serving task is over, exactly if no delivery of a broadcast fails in it to a client that is
still in `_clients`. -/
theorem tables_agree_iff (c : Config) (es : List Event) (s : State)
    (h : Machine.run (step c) start es = some s) :
    Machine.Throughout (step c) (fun s => TablesAgree s ∧ EndedForgotten s) start es ↔
      Machine.Meets (step c) NoDrop start es := by
  apply Machine.throughout_iff_meets (fun _ _ _ hs hstep => hs.step hstep) _ inv_start _ h
  · exact fun _ _ _ hinv hagree hs => step_agree_iff hinv hagree hs
  · have hagree : TablesAgree start := fun _ => ⟨Iff.rfl, Iff.rfl⟩
    exact ⟨hagree, hagree.forgotten inv_start⟩

/-- A delivery fails, and then the serving task ends. -/
def droppingRun : List Event :=
  [.accept 0 false, .prepared 0 true, .broadcast 0, .deliver 0 0 0 0 [1], .failSend 0,
    .sendClosed 0 false, .dropped 0, .failed 0, .finished 0]

/-- The request and the identity of a dropped client are never forgotten. -/
theorem dropped_client_leaks :
    ∃ s, Machine.run (step ⟨1, 1024, false⟩) start droppingRun = some s ∧
      s.handlers 0 = .ended ∧ 0 ∉ s.clients ∧ 0 ∈ s.requests ∧ 0 ∈ s.principals :=
  ⟨_, rfl, rfl, by decide, by decide, by decide⟩

/-- Two clients, one of which leaves while a broadcast is under way. -/
def leavingRun : List Event :=
  [.accept 0 false, .accept 1 false, .prepared 0 true, .prepared 1 true, .broadcast 0,
    .deliver 0 0 0 0 [1], .failSend 0, .failed 0, .sendClosed 0 false, .dropped 0, .finished 0]

theorem tables_agree_leaving :
    Machine.Throughout (step ⟨2, 1024, false⟩) (fun s => TablesAgree s ∧ EndedForgotten s) start
      leavingRun := by
  apply (tables_agree_iff ⟨2, 1024, false⟩ leavingRun _ rfl).mpr
  iterate 8 refine Machine.meets_cons_of trivial rfl ?_
  refine Machine.meets_cons_of ?_ rfl ?_
  · intro client ws hfailing
    obtain ⟨rfl, hclient⟩ := Sender.failing.inj hfailing
    obtain rfl := Option.some.inj hclient
    decide
  · iterate 2 refine Machine.meets_cons_of trivial rfl ?_
    trivial

end WireRpc.MulticastWs
