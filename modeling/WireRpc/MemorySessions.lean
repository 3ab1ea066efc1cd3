import WireRpc.Sessions
import Mathlib.Data.List.Sort
import Mathlib.Data.Prod.Lex

/-!
# Sessions in memory

`InMemorySessionStore` keeps the sessions and a heap of their expiry times. The heap is the
list of its entries in the order it gives them out. Rotation and removal leave entries of
sessions that are gone behind, so an entry removes a session only if it has its expiry time.
-/
namespace WireRpc.MemorySessions
open Library Sessions

structure Config (T : Type) where
  ttl : T
  maxSessions : ℕ
  limit : 0 < maxSessions

structure Store (T κ : Type) where
  sessions : Table κ (Bytes × T)
  expiry : List (T ×ₗ κ)

section
variable {T κ : Type} [LinearOrder T] [Add T] [LinearOrder κ]

def empty : Store T κ := ⟨∅, []⟩

/-- An entry comes off the heap. -/
def discard (entry : T ×ₗ κ) (sessions : Table κ (Bytes × T)) : Table κ (Bytes × T) :=
  match sessions.lookup (ofLex entry).2 with
  | some (_, expiry) =>
    if expiry = (ofLex entry).1 then sessions.erase (ofLex entry).2 else sessions
  | none => sessions

/-- The loop of `_prune`. -/
def expire (now : T) : List (T ×ₗ κ) → Table κ (Bytes × T) → Store T κ
  | [], sessions => ⟨sessions, []⟩
  | entry :: rest, sessions =>
    if (ofLex entry).1 ≤ now then expire now rest (discard entry sessions)
    else ⟨sessions, entry :: rest⟩

def entriesOf (sessions : Table κ (Bytes × T)) : List (T ×ₗ κ) :=
  sessions.entries.map fun e => toLex (e.2.2, e.1)

variable (c : Config T)

def prune (now : T) (s : Store T κ) : Store T κ :=
  let s := expire now s.expiry s.sessions
  if s.expiry.length > 2 * c.maxSessions then
    { s with expiry := (entriesOf s.sessions).insertionSort (· ≤ ·) }
  else s

def belongsTo (principal : String) (entry : Bytes × T) : Bool :=
  principalOf entry.1 == some principal

/-- `heapq.heappush`. -/
def push (expiry : T) (key : κ) (heap : List (T ×ₗ κ)) : List (T ×ₗ κ) :=
  heap.orderedInsert (· ≤ ·) (toLex (expiry, key))

/-- `_execute`, which reads the clock when it prunes, and once more before it ends. -/
def execute (now later : T) : Execute (Store T κ) κ := fun operation s =>
  let s := prune c now s
  match operation with
  | .create key value =>
    if key ∈ s.sessions then (s, .error .unavailable)
    else if Table.size s.sessions ≥ c.maxSessions then (s, .error .capacity)
    else
      ({  sessions := s.sessions.insert key (value, later + c.ttl)
          expiry := push (later + c.ttl) key s.expiry }, .ok .done)
  | .get key => (s, .ok (.found ((s.sessions.lookup key).map Prod.fst)))
  | .destroy key => (prune c later { s with sessions := s.sessions.erase key }, .ok .done)
  | .rotate key newKey =>
    match s.sessions.lookup key with
    | none => (s, .ok (.rotated false))
    | some (value, expiry) =>
      if newKey ∈ s.sessions then (s, .error .unavailable)
      else
        (prune c later {
          sessions := (s.sessions.erase key).insert newKey (value, expiry)
          expiry := push expiry newKey s.expiry }, .ok (.rotated true))
  | .revoke principal =>
    (prune c later {
      s with sessions := Table.keep (fun _ entry => !belongsTo principal entry) s.sessions },
      .ok (.revoked (Table.count (fun _ entry => belongsTo principal entry) s.sessions)))

end

section
variable {T κ : Type} [LinearOrder T] [LinearOrder κ]

def live (now : T) (entry : Bytes × T) : Bool := now < entry.2

/-- The heap is in order and has an entry for every session. -/
structure Indexed (s : Store T κ) : Prop where
  sorted : s.expiry.Pairwise (· ≤ ·)
  covered : ∀ key value expiry, s.sessions.lookup key = some (value, expiry) →
    toLex (expiry, key) ∈ s.expiry

theorem indexed_empty : Indexed (empty : Store T κ) where
  sorted := List.Pairwise.nil
  covered _ _ _ h := nomatch h

/-- The heap entry is that of the session. -/
def isFor (entry : T ×ₗ κ) (key : κ) (e : Bytes × T) : Bool :=
  e.2 = (ofLex entry).1 && key = (ofLex entry).2

/-- An entry removes the session it is for, and no other. -/
theorem lookup_discard (entry : T ×ₗ κ) (sessions : Table κ (Bytes × T)) (key : κ) :
    (discard entry sessions).lookup key =
      (sessions.lookup key).filter fun e => !isFor entry key e := by
  unfold discard isFor
  by_cases hkey : key = (ofLex entry).2
  · subst hkey
    cases hlookup : sessions.lookup (ofLex entry).2 with
    | none => simpa using hlookup
    | some e =>
      by_cases hexpiry : e.2 = (ofLex entry).1
      · simp [hexpiry, AList.lookup_erase, Option.filter_some]
      · simp [hexpiry, hlookup, Option.filter_some]
  · have hsame : (sessions.lookup key).filter (fun e =>
        !(decide (e.2 = (ofLex entry).1) && decide (key = (ofLex entry).2))) =
          sessions.lookup key := by
      cases sessions.lookup key with
      | none => rfl
      | some e => simp [hkey, Option.filter_some]
    rw [hsame]
    split
    · split_ifs
      · exact AList.lookup_erase_ne hkey
      · rfl
    · rfl

theorem expire_spec (now : T) {heap : List (T ×ₗ κ)} {sessions : Table κ (Bytes × T)}
    (hsorted : heap.Pairwise (· ≤ ·))
    (hcovered : ∀ key value expiry, sessions.lookup key = some (value, expiry) →
      toLex (expiry, key) ∈ heap) :
    Indexed (expire now heap sessions) ∧ ∀ key, (expire now heap sessions).sessions.lookup key =
      (sessions.lookup key).filter (live now) := by
  induction heap generalizing sessions with
  | nil =>
    have hnone (key : κ) : sessions.lookup key = none := by
      cases hlookup : sessions.lookup key with
      | none => rfl
      | some e => nomatch hcovered key e.1 e.2 hlookup
    refine ⟨⟨List.Pairwise.nil, hcovered⟩, fun key => ?_⟩
    show sessions.lookup key = _
    rw [hnone key]
    rfl
  | cons entry rest ih =>
    obtain ⟨hfirst, hrest⟩ := List.pairwise_cons.mp hsorted
    unfold expire
    split_ifs with hdue
    · have hcovered' : ∀ key value expiry,
          (discard entry sessions).lookup key = some (value, expiry) →
            toLex (expiry, key) ∈ rest := by
        intro key value expiry hlookup
        rw [lookup_discard, Option.filter_eq_some_iff] at hlookup
        obtain hentry | hmem := List.mem_cons.mp (hcovered key value expiry hlookup.1)
        · simp [isFor, ← hentry] at hlookup
        · exact hmem
      obtain ⟨hindexed, hlookup⟩ := ih hrest hcovered'
      refine ⟨hindexed, fun key => ?_⟩
      rw [hlookup, lookup_discard, Option.filter_filter]
      congr 1
      funext e
      -- the session that the entry removes is due
      by_cases hfor : isFor entry key e = true
      · have hexpiry : e.2 = (ofLex entry).1 := by
          simp only [isFor, Bool.and_eq_true, decide_eq_true_eq] at hfor
          exact hfor.1
        simp [hfor, live, hexpiry, hdue]
      · simp [hfor]
    · refine ⟨⟨hsorted, hcovered⟩, fun key => ?_⟩
      show sessions.lookup key = _
      cases hlookup : sessions.lookup key with
      | none => rfl
      | some e =>
        have hlive : live now e = true := by
          have hmem := hcovered key e.1 e.2 hlookup
          have hle : (ofLex entry).1 ≤ e.2 := by
            obtain rfl | hmem := List.mem_cons.mp hmem
            · exact le_rfl
            · exact Prod.Lex.monotone_fst _ _ (hfirst _ hmem)
          simpa [live] using lt_of_lt_of_le (not_le.mp hdue) hle
        rw [Option.filter_some_pos hlive]

omit [LinearOrder T] in
theorem mem_entriesOf {sessions : Table κ (Bytes × T)} {key : κ} {value : Bytes} {expiry : T}
    (h : sessions.lookup key = some (value, expiry)) :
    toLex (expiry, key) ∈ entriesOf sessions :=
  List.mem_map.mpr ⟨⟨key, (value, expiry)⟩, AList.mem_lookup_iff.mp h, rfl⟩

/-- `_prune` keeps the sessions that are alive and no others, whatever was left in the
heap. -/
theorem prune_spec [Add T] (c : Config T) (now : T) {s : Store T κ} (h : Indexed s) :
    Indexed (prune c now s) ∧ ∀ key, (prune c now s).sessions.lookup key =
      (s.sessions.lookup key).filter (live now) := by
  obtain ⟨hindexed, hlookup⟩ := expire_spec now h.sorted h.covered
  unfold prune
  dsimp only
  split_ifs
  · refine ⟨⟨List.pairwise_insertionSort (· ≤ ·) _, fun key value expiry hkey => ?_⟩, hlookup⟩
    exact (List.mem_insertionSort (· ≤ ·)).mpr (mem_entriesOf hkey)
  · exact ⟨hindexed, hlookup⟩

end

section
variable {T κ : Type} [LinearOrder T] [Add T] [LinearOrder κ] {c : Config T} {s : Store T κ}
  {now later : T}

/-- How many sessions are alive. -/
def alive (now : T) (s : Store T κ) : ℕ := Table.count (fun _ => live now) s.sessions

theorem size_prune (c : Config T) (now : T) (h : Indexed s) :
    Table.size (prune c now s).sessions = alive now s := by
  apply Table.size_congr
  intro key
  apply Table.mem_congr
  rw [(prune_spec c now h).2, Table.lookup_keep]

omit [Add T] in
/-- Fewer sessions are covered by the same heap. -/
theorem Indexed.shrink (h : Indexed s) {sessions : Table κ (Bytes × T)}
    (hsub : ∀ key e, sessions.lookup key = some e → s.sessions.lookup key = some e) :
    Indexed { s with sessions := sessions } where
  sorted := h.sorted
  covered key value expiry hlookup := h.covered key value expiry (hsub key _ hlookup)

omit [Add T] in
/-- A session enters with its heap entry. -/
theorem Indexed.push (h : Indexed s) {sessions : Table κ (Bytes × T)} {key : κ} {value : Bytes}
    {expiry : T} (hsub : ∀ k e, sessions.lookup k = some e → s.sessions.lookup k = some e) :
    Indexed (Store.mk (sessions.insert key (value, expiry)) (push expiry key s.expiry)) where
  sorted := List.Pairwise.orderedInsert _ _ h.sorted
  covered k v x hlookup := by
    apply (List.mem_orderedInsert (· ≤ ·)).mpr
    by_cases hk : k = key
    · subst hk
      have hlookup := (AList.lookup_insert sessions).symm.trans hlookup
      obtain ⟨-, rfl⟩ := Prod.mk.inj (Option.some.inj hlookup)
      exact Or.inl rfl
    · have hold := (AList.lookup_insert_ne hk).symm.trans hlookup
      exact Or.inr (h.covered k v x (hsub k _ hold))

/-- The ways `create` ends. -/
theorem create_cases (c : Config T) (now later : T) (key : κ) (value : Bytes) (h : Indexed s) :
    ((∃ e, (s.sessions.lookup key).filter (live now) = some e) ∧
      execute c now later (.create key value) s = (prune c now s, .error .unavailable)) ∨
    (c.maxSessions ≤ alive now s ∧
      execute c now later (.create key value) s = (prune c now s, .error .capacity)) ∨
    (alive now s < c.maxSessions ∧ ∃ s', Indexed s' ∧
      execute c now later (.create key value) s = (s', .ok .done) ∧
      Table.size s'.sessions = alive now s + 1 ∧
      ∀ k, s'.sessions.lookup k = if k = key then some (value, later + c.ttl)
        else (s.sessions.lookup k).filter (live now)) := by
  obtain ⟨hindexed, hlookup⟩ := prune_spec c now h
  have hsize := size_prune c now h
  by_cases hmem : key ∈ (prune c now s).sessions
  · obtain ⟨e, he⟩ := Option.isSome_iff_exists.mp (AList.lookup_isSome.mpr hmem)
    rw [hlookup] at he
    exact Or.inl ⟨⟨e, he⟩, if_pos hmem⟩
  · refine Or.inr ?_
    by_cases hfull : c.maxSessions ≤ alive now s
    · refine Or.inl ⟨hfull, ?_⟩
      have hfull' : Table.size (prune c now s).sessions ≥ c.maxSessions := by rwa [hsize]
      exact (if_neg hmem).trans (if_pos hfull')
    · have hroom : ¬ Table.size (prune c now s).sessions ≥ c.maxSessions := by rwa [hsize]
      refine Or.inr ⟨not_le.mp hfull, _, hindexed.push fun _ _ hk => hk,
        (if_neg hmem).trans (if_neg hroom), ?_, fun k => ?_⟩
      · rw [← hsize]
        exact Table.size_insert hmem _
      · split_ifs with hk
        · subst hk
          exact AList.lookup_insert _
        · exact (AList.lookup_insert_ne hk).trans (hlookup k)

theorem get_eq (c : Config T) (now later : T) (key : κ) (h : Indexed s) :
    execute c now later (.get key) s = (prune c now s,
      .ok (.found (((s.sessions.lookup key).filter (live now)).map Prod.fst))) := by
  rw [← (prune_spec c now h).2]
  rfl

omit [Add T] [LinearOrder κ] in
theorem alive_le (now : T) (s : Store T κ) : alive now s ≤ Table.size s.sessions :=
  Table.size_keep_le _ _

omit [Add T] in
/-- What is alive later is alive now. -/
theorem live_of_le (hle : now ≤ later) {e : Bytes × T} (h : live later e = true) :
    live now e = true := by
  simp only [live, decide_eq_true_eq] at h ⊢
  exact lt_of_le_of_lt hle h

omit [Add T] in
theorem filter_live (hle : now ≤ later) (o : Option (Bytes × T)) :
    (o.filter (live now)).filter (live later) = o.filter (live later) := by
  rw [Option.filter_filter]
  congr 1
  funext e
  by_cases hlater : live later e = true
  · simp [hlater, live_of_le hle hlater]
  · simp [hlater]

/-- The last thing that an operation does is to prune again. -/
theorem prune_again {s' : Store T κ} (c : Config T) (later : T) (hindexed : Indexed s')
    (hsize : Table.size s'.sessions ≤ alive now s) :
    Indexed (prune c later s') ∧ Table.size (prune c later s').sessions ≤ alive now s ∧
      ∀ k, (prune c later s').sessions.lookup k = (s'.sessions.lookup k).filter (live later) := by
  obtain ⟨hpruned, hlookup⟩ := prune_spec c later hindexed
  refine ⟨hpruned, ?_, hlookup⟩
  rw [size_prune c later hindexed]
  exact (alive_le later s').trans hsize

theorem destroy_spec (c : Config T) (hle : now ≤ later) (key : κ) (h : Indexed s) :
    ∃ s', execute c now later (.destroy key) s = (s', .ok .done) ∧ Indexed s' ∧
      Table.size s'.sessions ≤ alive now s ∧
      ∀ k, s'.sessions.lookup k =
        if k = key then none else (s.sessions.lookup k).filter (live later) := by
  obtain ⟨hindexed, hlookup⟩ := prune_spec c now h
  have herased : Indexed { prune c now s with sessions := (prune c now s).sessions.erase key } := by
    apply hindexed.shrink
    intro k e hk
    by_cases hkey : k = key
    · subst hkey
      nomatch (AList.lookup_erase ..).symm.trans hk
    · exact (AList.lookup_erase_ne hkey).symm.trans hk
  have hsize : Table.size ((prune c now s).sessions.erase key) ≤ alive now s := by
    rw [← size_prune c now h]
    exact Table.size_le fun k hk => (AList.mem_erase.mp hk).2
  obtain ⟨hindexed', hsize', hlookup'⟩ := prune_again c later herased hsize
  refine ⟨_, rfl, hindexed', hsize', fun k => (hlookup' k).trans ?_⟩
  split_ifs with hk
  · subst hk
    show (((prune c now s).sessions.erase k).lookup k).filter (live later) = none
    rw [AList.lookup_erase]
    rfl
  · show (((prune c now s).sessions.erase key).lookup k).filter (live later) = _
    rw [AList.lookup_erase_ne hk, hlookup, filter_live hle]

/-- The ways `rotate` ends. -/
theorem rotate_cases (c : Config T) (hle : now ≤ later) (key newKey : κ) (h : Indexed s) :
    ((s.sessions.lookup key).filter (live now) = none ∧
      execute c now later (.rotate key newKey) s = (prune c now s, .ok (.rotated false))) ∨
    ((∃ e, (s.sessions.lookup newKey).filter (live now) = some e) ∧
      execute c now later (.rotate key newKey) s = (prune c now s, .error .unavailable)) ∨
    ∃ e s', (s.sessions.lookup key).filter (live now) = some e ∧
      execute c now later (.rotate key newKey) s = (s', .ok (.rotated true)) ∧ Indexed s' ∧
      Table.size s'.sessions ≤ alive now s ∧
      ∀ k, s'.sessions.lookup k = (if k = newKey then some e else if k = key then none
        else s.sessions.lookup k).filter (live later) := by
  obtain ⟨hindexed, hlookup⟩ := prune_spec c now h
  cases hkey : (prune c now s).sessions.lookup key with
  | none =>
    refine Or.inl ⟨(hlookup key).symm.trans hkey, ?_⟩
    simp only [execute, hkey]
  | some e =>
    refine Or.inr ?_
    by_cases hmem : newKey ∈ (prune c now s).sessions
    · obtain ⟨e', he'⟩ := Option.isSome_iff_exists.mp (AList.lookup_isSome.mpr hmem)
      refine Or.inl ⟨⟨e', (hlookup newKey).symm.trans he'⟩, ?_⟩
      simp only [execute, hkey, if_pos hmem]
    · have hmoved : Indexed (Store.mk (((prune c now s).sessions.erase key).insert newKey e)
          (push e.2 newKey (prune c now s).expiry)) := by
        apply hindexed.push
        intro k e' hk
        by_cases hkey' : k = key
        · subst hkey'
          nomatch (AList.lookup_erase ..).symm.trans hk
        · exact (AList.lookup_erase_ne hkey').symm.trans hk
      have hnew : newKey ∉ (prune c now s).sessions.erase key :=
        fun hnew => hmem (AList.mem_erase.mp hnew).2
      have hsize : Table.size (((prune c now s).sessions.erase key).insert newKey e) ≤
          alive now s := by
        rw [Table.size_rename (Table.mem_of_lookup hkey) hnew, size_prune c now h]
      obtain ⟨hindexed', hsize', hlookup'⟩ := prune_again c later hmoved hsize
      refine Or.inr ⟨e, _, (hlookup key).symm.trans hkey, ?_, hindexed', hsize', fun k => ?_⟩
      · simp only [execute, hkey, if_neg hmem]
      · rw [hlookup']
        split_ifs with hk hk'
        · subst hk
          rw [AList.lookup_insert]
        · subst hk'
          rw [AList.lookup_insert_ne hk, AList.lookup_erase]
        · rw [AList.lookup_insert_ne hk, AList.lookup_erase_ne hk', hlookup, filter_live hle]

theorem revoke_spec (c : Config T) (hle : now ≤ later) (principal : String) (h : Indexed s) :
    ∃ s', execute c now later (.revoke principal) s = (s', .ok (.revoked (Table.count
        (fun _ entry => belongsTo principal entry && live now entry) s.sessions))) ∧ Indexed s' ∧
      Table.size s'.sessions ≤ alive now s ∧
      ∀ k, s'.sessions.lookup k = (s.sessions.lookup k).filter fun entry =>
        !belongsTo principal entry && live later entry := by
  obtain ⟨hindexed, hlookup⟩ := prune_spec c now h
  have hkept : Indexed (Store.mk (Table.keep (fun _ entry => !belongsTo principal entry)
      (prune c now s).sessions) (prune c now s).expiry) := by
    apply hindexed.shrink
    intro k e hk
    rw [Table.lookup_keep, Option.filter_eq_some_iff] at hk
    exact hk.1
  have hsize : Table.size (Table.keep (fun _ entry => !belongsTo principal entry)
      (prune c now s).sessions) ≤ alive now s := by
    rw [← size_prune c now h]
    exact Table.size_keep_le _ _
  have hcount : Table.count (fun _ entry => belongsTo principal entry) (prune c now s).sessions =
      Table.count (fun _ entry => belongsTo principal entry && live now entry) s.sessions := by
    apply Table.count_congr
    intro k
    rw [hlookup, Option.filter_filter]
    simp only [Bool.and_comm]
  obtain ⟨hindexed', hsize', hlookup'⟩ := prune_again c later hkept hsize
  refine ⟨_, ?_, hindexed', hsize', fun k => ?_⟩
  · rw [← hcount]
    rfl
  · rw [hlookup', Table.lookup_keep, hlookup, Option.filter_filter, Option.filter_filter]
    congr 1
    funext e
    by_cases hlater : live later e = true
    · simp [hlater, live_of_le hle hlater]
    · simp [hlater]

end
end WireRpc.MemorySessions
