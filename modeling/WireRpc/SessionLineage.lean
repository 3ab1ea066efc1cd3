import WireRpc.MemorySessions
import WireRpc.Library.Machine

/-!
# Lineages of session tokens

The tokens that come from one `create` by rotations are a lineage. Any number of callers use
a store in memory: their calls are atomic, the clock never goes back, and new tokens are
ones that nobody has seen before.
-/
namespace WireRpc.SessionLineage
open Library Sessions MemorySessions

structure Lineage (T : Type) where
  root : String
  principal : String
  created : T

/-- `clock` is the last reading. `lineage`, and `spent`, the tokens that were destroyed or
rotated away, belong to the history. -/
structure State (T κ : Type) where
  store : Store T κ
  clock : T
  lineage : String → Option (Lineage T)
  spent : Finset String

/-- Each call reads the clock at `now`, and at `later` if it reads it again. `token` is what
`secrets` gives out. -/
inductive Event (T : Type) where
  | create (userId : String) (payload : List (String × Json)) (token : String) (now later : T)
  | get (sessionId : String) (now : T)
  | destroy (sessionId : String) (now later : T)
  | rotate (sessionId token : String) (now later : T)
  | revokeAll (userId : String) (now later : T)

section
variable {T κ : Type} [LinearOrder T] [Add T] [LinearOrder κ] (c : Config T)
  (digest : String → κ) (s : State T κ)

def start (clock : T) : State T κ where
  store := empty
  clock := clock
  lineage := fun _ => none
  spent := ∅

/-- A token as `secrets` gives it out: of the right shape, and never seen before. -/
def Fresh (token : String) : Prop :=
  valid token = true ∧ (s.lineage token).isNone = true ∧ token ∉ s.spent

instance (token : String) : Decidable (Fresh s token) :=
  inferInstanceAs (Decidable (_ ∧ _ ∧ _))

def create (userId : String) (payload : List (String × Json)) (token : String) (now later : T) :
    State T κ :=
  let r := Sessions.create (execute c now later) digest userId payload token s.store
  { s with
    store := r.1
    clock := later
    lineage := match r.2 with
      | .ok token => Function.update s.lineage token (some ⟨token, userId, later⟩)
      | .error _ => s.lineage }

/-- `get` and `validate` leave the same behind. -/
def get (sessionId : String) (now : T) : State T κ :=
  { s with
    store := (Sessions.get (execute c now now) digest sessionId s.store).1
    clock := now }

def destroy (sessionId : String) (now later : T) : State T κ :=
  { s with
    store := (Sessions.destroy (execute c now later) digest sessionId s.store).1
    clock := later
    spent := insert sessionId s.spent }

def rotate (sessionId token : String) (now later : T) : State T κ :=
  let r := Sessions.rotate (execute c now later) digest sessionId token s.store
  match r.2 with
  | .ok (some token) =>
    { store := r.1
      clock := later
      lineage := Function.update s.lineage token (s.lineage sessionId)
      spent := insert sessionId s.spent }
  | _ => { s with store := r.1, clock := later }

def revokeAll (userId : String) (now later : T) : State T κ :=
  { s with
    store := (Sessions.revokeAll (execute c now later) userId s.store).1
    clock := later }

def step : Event T → Option (State T κ)
  | .create userId payload token now later =>
    if s.clock ≤ now ∧ now ≤ later ∧ Fresh s token then
      some (create c digest s userId payload token now later)
    else none
  | .get sessionId now =>
    if s.clock ≤ now then some (get c digest s sessionId now) else none
  | .destroy sessionId now later =>
    if s.clock ≤ now ∧ now ≤ later then some (destroy c digest s sessionId now later) else none
  | .rotate sessionId token now later =>
    if s.clock ≤ now ∧ now ≤ later ∧ Fresh s token then
      some (rotate c digest s sessionId token now later)
    else none
  | .revokeAll userId now later =>
    if s.clock ≤ now ∧ now ≤ later then some (revokeAll c s userId now later) else none

/-- The token is good for the principal at the given time. -/
def Validates (token : String) (now : T) (principal : String) : Prop :=
  (Sessions.validate (execute c now now) digest token s.store).2 = .ok (some principal)

def Rotates (token newToken : String) (now later : T) : Prop :=
  (Sessions.rotate (execute c now later) digest token newToken s.store).2 = .ok (some newToken)

end

section
variable {T κ : Type} [LinearOrder T] [Add T] [LinearOrder κ]

/-- The session of a token that is not spent: it holds the principal of its lineage and
expires when the lineage does. -/
structure Owns (c : Config T) (digest : String → κ) (s : State T κ) (token : String)
    (l : Lineage T) (key : κ) (e : Bytes × T) : Prop where
  key : digest token = key
  lineage : s.lineage token = some l
  unspent : token ∉ s.spent
  expiry : e.2 = l.created + c.ttl
  record : ∃ record : SessionRecord, e.1 = record.dumps ∧ record.principal = l.principal ∧
    identity record.principal = true

/-- Each session is owned, and no lineage has two sessions. -/
structure Inv (c : Config T) (digest : String → κ) (s : State T κ) : Prop where
  store : Indexed s.store
  bounded : Table.size s.store.sessions ≤ c.maxSessions
  owned : ∀ key e, s.store.sessions.lookup key = some e → ∃ token l, Owns c digest s token l key e
  single : ∀ t u l l' e e', s.lineage t = some l → s.lineage u = some l' → l.root = l'.root →
    s.store.sessions.lookup (digest t) = some e → s.store.sessions.lookup (digest u) = some e' →
      t = u
  rooted : ∀ t l, s.lineage t = some l → s.lineage l.root = some l
  shaped : ∀ t l, s.lineage t = some l → valid t = true

variable {c : Config T} {digest : String → κ} {s s' : State T κ}

theorem inv_start (clock : T) : Inv c digest (start clock : State T κ) where
  store := indexed_empty
  bounded := Nat.zero_le _
  owned _ _ h := nomatch h
  single _ _ _ _ _ _ h := nomatch h
  rooted _ _ h := nomatch h
  shaped _ _ h := nomatch h

/-- A session is that of the token it was looked up with. -/
theorem Inv.owner (h : Inv c digest s) (hdigest : Function.Injective digest)
    {token : String} {e : Bytes × T} (he : s.store.sessions.lookup (digest token) = some e) :
    ∃ l, Owns c digest s token l (digest token) e := by
  obtain ⟨owner, l, howns⟩ := h.owned _ e he
  obtain rfl := hdigest howns.key
  exact ⟨l, howns⟩

/-- A step that lets sessions go and makes none. What it spends has no session left. -/
structure Shrinks (digest : String → κ) (s s' : State T κ) : Prop where
  store : Indexed s'.store
  bounded : Table.size s'.store.sessions ≤ Table.size s.store.sessions
  sub : ∀ key e, s'.store.sessions.lookup key = some e → s.store.sessions.lookup key = some e
  lineage : s'.lineage = s.lineage
  spent : ∀ token ∈ s'.spent, token ∉ s.spent →
    s'.store.sessions.lookup (digest token) = none

/-- A new token is issued. -/
structure Issues (c : Config T) (digest : String → κ) (s s' : State T κ) (token : String)
    (record : SessionRecord) (created : T) : Prop where
  fresh : Fresh s token
  identity : identity record.principal = true
  store : Indexed s'.store
  bounded : Table.size s'.store.sessions ≤ c.maxSessions
  lookup : ∀ k e, s'.store.sessions.lookup k = some e →
    k = digest token ∧ e = (record.dumps, created + c.ttl) ∨
      k ≠ digest token ∧ s.store.sessions.lookup k = some e
  lineage : s'.lineage =
    Function.update s.lineage token (some ⟨token, record.principal, created⟩)
  spent : s'.spent = s.spent

/-- A token takes the place of another one of its lineage. -/
structure Replaces (digest : String → κ) (s s' : State T κ) (old token : String)
    (e : Bytes × T) : Prop where
  fresh : Fresh s token
  session : s.store.sessions.lookup (digest old) = some e
  store : Indexed s'.store
  bounded : Table.size s'.store.sessions ≤ Table.size s.store.sessions
  lookup : ∀ k e', s'.store.sessions.lookup k = some e' →
    k = digest token ∧ e' = e ∨
      k ≠ digest token ∧ k ≠ digest old ∧ s.store.sessions.lookup k = some e'
  lineage : s'.lineage = Function.update s.lineage token (s.lineage old)
  spent : s'.spent = insert old s.spent

inductive Move (c : Config T) (digest : String → κ) (s s' : State T κ) : Prop
  | shrinks (h : Shrinks digest s s')
  | issues (token : String) (record : SessionRecord) (created : T)
      (h : Issues c digest s s' token record created)
  | replaces (old token : String) (e : Bytes × T) (h : Replaces digest s s' old token e)

theorem Shrinks.refl (h : Inv c digest s) (hstore : s'.store = s.store)
    (hlineage : s'.lineage = s.lineage) (hspent : s'.spent = s.spent) :
    Shrinks digest s s' where
  store := hstore ▸ h.store
  bounded := by rw [hstore]
  sub key e hlookup := by rwa [hstore] at hlookup
  lineage := hlineage
  spent token hnew hold := absurd (hspent ▸ hnew) hold

theorem shrinks_prune (h : Inv c digest s) {now : T} (hstore : s'.store = prune c now s.store)
    (hlineage : s'.lineage = s.lineage) (hspent : s'.spent = s.spent) : Shrinks digest s s' where
  store := hstore ▸ (prune_spec c now h.store).1
  bounded := by
    rw [hstore, size_prune c now h.store]
    exact alive_le now s.store
  sub key e hlookup := by
    rw [hstore, (prune_spec c now h.store).2, Option.filter_eq_some_iff] at hlookup
    exact hlookup.1
  lineage := hlineage
  spent token hnew hold := absurd (hspent ▸ hnew) hold

theorem get_store (c : Config T) (digest : String → κ) (sessionId : String) (now : T)
    {s : Store T κ} (h : Indexed s) :
    (Sessions.get (execute c now now) digest sessionId s).1 = s ∨
      (Sessions.get (execute c now now) digest sessionId s).1 = prune c now s := by
  unfold Sessions.get
  split_ifs
  · exact Or.inl rfl
  · right
    rw [get_eq c now now _ h]
    cases (s.sessions.lookup (digest sessionId)).filter (live now) with
    | none => rfl
    | some e =>
      simp only [Option.map_some]
      split <;> rfl

theorem get_move (h : Inv c digest s) (sessionId : String) (now : T) :
    Move c digest s (get c digest s sessionId now) := by
  obtain hstore | hstore := get_store c digest sessionId now h.store
  · exact .shrinks (Shrinks.refl h hstore rfl rfl)
  · exact .shrinks (shrinks_prune h hstore rfl rfl)

theorem destroy_move (h : Inv c digest s) (hdigest : Function.Injective digest) {now later : T}
    (hle : now ≤ later) (sessionId : String) :
    Move c digest s (destroy c digest s sessionId now later) := by
  by_cases hvalid : valid sessionId = true
  · obtain ⟨store, hexecute, hindexed, hsize, hlookup⟩ :=
      destroy_spec c hle (digest sessionId) h.store
    have hstore : (destroy c digest s sessionId now later).store = store := by
      simp only [destroy, Sessions.destroy, hvalid, hexecute]
      rfl
    refine .shrinks ⟨hstore ▸ hindexed, ?_, fun key e he => ?_, rfl, fun token hnew hold => ?_⟩
    · rw [hstore]
      exact hsize.trans (alive_le now s.store)
    · rw [hstore, hlookup] at he
      split_ifs at he with hkey
      exact (Option.filter_eq_some_iff.mp he).1
    · obtain rfl | hmem := Finset.mem_insert.mp hnew
      · rw [hstore, hlookup, if_pos rfl]
      · exact absurd hmem hold
  · have hstore : (destroy c digest s sessionId now later).store = s.store := by
      simp only [destroy, Sessions.destroy, hvalid]
      rfl
    refine .shrinks ⟨hstore ▸ h.store, by rw [hstore], fun key e he => ?_, rfl,
      fun token hnew hold => ?_⟩
    · rwa [hstore] at he
    · obtain rfl | hmem := Finset.mem_insert.mp hnew
      · -- what is no token has no session
        rw [hstore]
        apply Option.eq_none_iff_forall_ne_some.mpr
        intro e he
        obtain ⟨l, howns⟩ := h.owner hdigest he
        exact hvalid (h.shaped token l howns.lineage)
      · exact absurd hmem hold

theorem revokeAll_store (h : Inv c digest s) {now later : T} (hle : now ≤ later) {userId : String}
    (hidentity : identity userId = true) :
    Indexed (revokeAll c s userId now later).store ∧
      Table.size (revokeAll c s userId now later).store.sessions ≤ alive now s.store ∧
      ∀ k, (revokeAll c s userId now later).store.sessions.lookup k =
        (s.store.sessions.lookup k).filter fun e => !belongsTo userId e && live later e := by
  obtain ⟨store, hexecute, hindexed, hsize, hlookup⟩ := revoke_spec c hle userId h.store
  have hstore : (revokeAll c s userId now later).store = store := by
    simp only [revokeAll, Sessions.revokeAll, hidentity, hexecute]
    rfl
  rw [hstore]
  exact ⟨hindexed, hsize, hlookup⟩

theorem revokeAll_move (h : Inv c digest s) {now later : T} (hle : now ≤ later)
    (userId : String) : Move c digest s (revokeAll c s userId now later) := by
  by_cases hidentity : identity userId = true
  · obtain ⟨hindexed, hsize, hlookup⟩ := revokeAll_store h hle hidentity
    refine .shrinks ⟨hindexed, hsize.trans (alive_le now s.store), fun key e he => ?_, rfl,
      fun token hnew hold => absurd hnew hold⟩
    rw [hlookup] at he
    exact (Option.filter_eq_some_iff.mp he).1
  · have hstore : (revokeAll c s userId now later).store = s.store := by
      simp only [revokeAll, Sessions.revokeAll, hidentity]
      rfl
    exact .shrinks (Shrinks.refl h hstore rfl rfl)

/-- The arguments that `create` takes. -/
def Acceptable (userId : String) (payload : List (String × Json)) : Prop :=
  identity userId = true ∧ (SessionRecord.mk userId payload).length ≤ 16384

/-- The ways `create` ends. -/
theorem created_cases (c : Config T) (digest : String → κ) {store : Store T κ}
    (h : Indexed store) (userId : String) (payload : List (String × Json))
    (token : String) (now later : T) :
    (¬ Acceptable userId payload ∧
      Sessions.create (execute c now later) digest userId payload token store =
        (store, .error .value)) ∨
    Acceptable userId payload ∧
      (((∃ e, (store.sessions.lookup (digest token)).filter (live now) = some e) ∧
        Sessions.create (execute c now later) digest userId payload token store =
          (prune c now store, .error .unavailable)) ∨
      (c.maxSessions ≤ alive now store ∧
        Sessions.create (execute c now later) digest userId payload token store =
          (prune c now store, .error .capacity)) ∨
      (alive now store < c.maxSessions ∧ ∃ store', Indexed store' ∧
        Sessions.create (execute c now later) digest userId payload token store =
          (store', .ok token) ∧
        Table.size store'.sessions = alive now store + 1 ∧
        ∀ k, store'.sessions.lookup k =
          if k = digest token then some ((SessionRecord.mk userId payload).dumps, later + c.ttl)
          else (store.sessions.lookup k).filter (live now))) := by
  unfold Sessions.create Acceptable
  by_cases hidentity : identity userId = true
  · by_cases hlength : (SessionRecord.mk userId payload).length ≤ 16384
    · refine Or.inr ⟨⟨hidentity, hlength⟩, ?_⟩
      rw [if_neg (by simp [hidentity]), if_neg (not_lt.mpr hlength)]
      obtain ⟨hcollides, heq⟩ | ⟨hfull, heq⟩ | ⟨hroom, store', hindexed, heq, hsize, hlookup⟩ :=
        create_cases c now later (digest token) (SessionRecord.mk userId payload).dumps h
      · exact Or.inl ⟨hcollides, by rw [heq]; rfl⟩
      · exact Or.inr (Or.inl ⟨hfull, by rw [heq]; rfl⟩)
      · exact Or.inr (Or.inr ⟨hroom, store', hindexed, by rw [heq]; rfl, hsize, hlookup⟩)
    · refine Or.inl ⟨fun h => hlength h.2, ?_⟩
      rw [if_neg (by simp [hidentity]), if_pos (not_le.mp hlength)]
  · refine Or.inl ⟨fun h => hidentity h.1, ?_⟩
    rw [if_pos (by simpa using hidentity)]

theorem create_move (h : Inv c digest s) {token : String} (hfresh : Fresh s token)
    (userId : String) (payload : List (String × Json)) (now later : T) :
    Move c digest s (create c digest s userId payload token now later) := by
  obtain ⟨-, heq⟩ | ⟨hacceptable, ⟨-, heq⟩ | ⟨-, heq⟩ |
      ⟨hroom, store, hindexed, heq, hsize, hlookup⟩⟩ :=
    created_cases c digest h.store userId payload token now later
  · simp only [create, heq]
    exact .shrinks (Shrinks.refl h rfl rfl rfl)
  · simp only [create, heq]
    exact .shrinks (shrinks_prune h rfl rfl rfl)
  · simp only [create, heq]
    exact .shrinks (shrinks_prune h rfl rfl rfl)
  · simp only [create, heq]
    refine .issues token ⟨userId, payload⟩ later ⟨hfresh, hacceptable.1, hindexed, ?_,
      fun k e he => ?_, rfl, rfl⟩
    · show Table.size store.sessions ≤ c.maxSessions
      omega
    · rw [hlookup] at he
      split_ifs at he with hk
      · exact Or.inl ⟨hk, (Option.some.inj he).symm⟩
      · exact Or.inr ⟨hk, (Option.filter_eq_some_iff.mp he).1⟩

/-- The ways `rotate` ends. -/
theorem rotated_cases (c : Config T) (digest : String → κ) {store : Store T κ}
    (h : Indexed store) {now later : T} (hle : now ≤ later)
    (sessionId token : String) :
    ((valid sessionId = true →
        (store.sessions.lookup (digest sessionId)).filter (live now) = none) ∧
      ((Sessions.rotate (execute c now later) digest sessionId token store).1 = store ∨
        (Sessions.rotate (execute c now later) digest sessionId token store).1 =
          prune c now store) ∧
      (Sessions.rotate (execute c now later) digest sessionId token store).2 = .ok none) ∨
    ((∃ e, (store.sessions.lookup (digest token)).filter (live now) = some e) ∧
      Sessions.rotate (execute c now later) digest sessionId token store =
        (prune c now store, .error .unavailable)) ∨
    (∃ e store', (store.sessions.lookup (digest sessionId)).filter (live now) = some e ∧
      Sessions.rotate (execute c now later) digest sessionId token store =
        (store', .ok (some token)) ∧ Indexed store' ∧
      Table.size store'.sessions ≤ alive now store ∧
      ∀ k, store'.sessions.lookup k = (if k = digest token then some e
        else if k = digest sessionId then none else store.sessions.lookup k).filter
          (live later)) := by
  unfold Sessions.rotate
  by_cases hvalid : valid sessionId = true
  · rw [if_neg (by simp [hvalid])]
    obtain ⟨hnone, heq⟩ | ⟨hcollides, heq⟩ | ⟨e, store', he, heq, hindexed, hsize, hlookup⟩ :=
      rotate_cases c hle (digest sessionId) (digest token) h
    · exact Or.inl ⟨fun _ => hnone, Or.inr (by rw [heq]), by rw [heq]; rfl⟩
    · exact Or.inr (Or.inl ⟨hcollides, by rw [heq]; rfl⟩)
    · exact Or.inr (Or.inr ⟨e, store', he, by rw [heq]; rfl, hindexed, hsize, hlookup⟩)
  · rw [if_pos (by simpa using hvalid)]
    exact Or.inl ⟨fun h => absurd h hvalid, Or.inl rfl, rfl⟩

theorem rotate_move (h : Inv c digest s) {sessionId token : String} (hfresh : Fresh s token)
    {now later : T} (hle : now ≤ later) :
    Move c digest s (rotate c digest s sessionId token now later) := by
  obtain ⟨-, hstore, heq⟩ | ⟨-, heq⟩ | ⟨e, store, he, heq, hindexed, hsize, hlookup⟩ :=
    rotated_cases c digest h.store hle sessionId token
  · simp only [rotate, heq]
    obtain hstore | hstore := hstore
    · exact .shrinks (Shrinks.refl h hstore rfl rfl)
    · exact .shrinks (shrinks_prune h hstore rfl rfl)
  · simp only [rotate, heq]
    exact .shrinks (shrinks_prune h rfl rfl rfl)
  · simp only [rotate, heq]
    refine .replaces sessionId token e ⟨hfresh, (Option.filter_eq_some_iff.mp he).1, hindexed,
      hsize.trans (alive_le now s.store), fun k e' he' => ?_, rfl, rfl⟩
    rw [hlookup, Option.filter_eq_some_iff] at he'
    obtain ⟨he', -⟩ := he'
    split_ifs at he' with hk hk'
    · exact Or.inl ⟨hk, (Option.some.inj he').symm⟩
    · exact Or.inr ⟨hk, hk', he'⟩

theorem step_move {e : Event T} (h : Inv c digest s) (hdigest : Function.Injective digest)
    (hs : step c digest s e = some s') : Move c digest s s' := by
  cases e with
  | create userId payload token now later =>
    obtain ⟨⟨-, -, hfresh⟩, hs⟩ := Option.ite_none_right_eq_some.mp hs
    exact Option.some.inj hs ▸ create_move h hfresh userId payload now later
  | get sessionId now =>
    obtain ⟨-, hs⟩ := Option.ite_none_right_eq_some.mp hs
    exact Option.some.inj hs ▸ get_move h sessionId now
  | destroy sessionId now later =>
    obtain ⟨⟨-, hle⟩, hs⟩ := Option.ite_none_right_eq_some.mp hs
    exact Option.some.inj hs ▸ destroy_move h hdigest hle sessionId
  | rotate sessionId token now later =>
    obtain ⟨⟨-, hle, hfresh⟩, hs⟩ := Option.ite_none_right_eq_some.mp hs
    exact Option.some.inj hs ▸ rotate_move h hfresh hle
  | revokeAll userId now later =>
    obtain ⟨⟨-, hle⟩, hs⟩ := Option.ite_none_right_eq_some.mp hs
    exact Option.some.inj hs ▸ revokeAll_move h hle userId

end
end WireRpc.SessionLineage
