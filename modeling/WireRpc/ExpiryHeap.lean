import WireRpc.MemorySessions
import WireRpc.Library.Simulation

/-!
# The expiry heap is plain expiry

The reference scans all sessions at the start of every operation and deletes those that are
due. The store looks at the top of its heap only, and leaves entries of sessions that are gone
in it. Its operations return what those of the reference return.
-/
namespace WireRpc.ExpiryHeap
open Library Sessions MemorySessions Answering

/-- A call of `_execute`, with the first reading of the clock and the one after it. -/
structure Call (T κ : Type) where
  operation : Operation κ
  now : T
  later : T

/-- The key that an operation brings in. -/
def Call.newKey {T κ : Type} (call : Call T κ) : Option κ :=
  match call.operation with
  | .create key _ => some key
  | .rotate _ newKey => some newKey
  | _ => none

section
variable {T κ : Type} [LinearOrder T] [Add T] [LinearOrder κ]

def store (c : Config T) : Answering (Store T κ) (Call T κ) (Except SessionError Reply) :=
  fun call => execute c call.now call.later call.operation

omit [Add T] in
/-- Every session that is due goes. -/
def purge (now : T) (m : Table κ (Bytes × T)) : Table κ (Bytes × T) :=
  Table.keep (fun _ => live now) m

/-- The reference, which knows no heap. -/
def reference (c : Config T) :
    Answering (Table κ (Bytes × T)) (Call T κ) (Except SessionError Reply) := fun call m =>
  let m := purge call.now m
  match call.operation with
  | .create key value =>
    if Table.size m ≥ c.maxSessions then (m, .error .capacity)
    else (m.insert key (value, call.later + c.ttl), .ok .done)
  | .get key => (m, .ok (.found ((m.lookup key).map Prod.fst)))
  | .destroy key => (m.erase key, .ok .done)
  | .rotate key newKey =>
    match m.lookup key with
    | some e => ((m.erase key).insert newKey e, .ok (.rotated true))
    | none => (m, .ok (.rotated false))
  | .revoke principal =>
    (Table.keep (fun _ e => !belongsTo principal e) m,
      .ok (.revoked (Table.count (fun _ e => belongsTo principal e) m)))

/-- A call after others: the clock does not go back, and a new key was never used. -/
structure Admissible (past : List (Call T κ)) (call : Call T κ) : Prop where
  within : call.now ≤ call.later
  between : ∀ earlier ∈ past, earlier.later ≤ call.now
  fresh : ∀ key, call.newKey = some key → ∀ earlier ∈ past, earlier.newKey ≠ some key

def History (calls : List (Call T κ)) : Prop :=
  AtEach (fun past call _ => Admissible past call) calls

/-- The operation ends the session itself. -/
def Ends (operation : Operation κ) (key : κ) (e : Bytes × T) : Prop :=
  match operation with
  | .destroy old => old = key
  | .rotate old _ => old = key
  | .revoke principal => belongsTo principal e = true
  | _ => False

end

section
variable {T κ : Type} [LinearOrder T] [Add T] [LinearOrder κ] {s : Store T κ}

omit [LinearOrder T] [Add T] in
theorem size_erase_le (sessions : Table κ (Bytes × T)) (key : κ) :
    Table.size (sessions.erase key) ≤ Table.size sessions :=
  Table.size_le fun _ h => (AList.mem_erase.mp h).2

omit [Add T] in
theorem size_expire_le (now : T) (heap : List (T ×ₗ κ)) (sessions : Table κ (Bytes × T)) :
    Table.size (expire now heap sessions).sessions ≤ Table.size sessions := by
  induction heap generalizing sessions with
  | nil => exact le_rfl
  | cons entry rest ih =>
    have hdiscard : Table.size (MemorySessions.discard entry sessions) ≤ Table.size sessions := by
      unfold MemorySessions.discard
      split
      · split_ifs
        · exact size_erase_le _ _
        · exact le_rfl
      · exact le_rfl
    unfold expire
    split_ifs
    · exact (ih _).trans hdiscard
    · exact le_rfl

omit [Add T] in
theorem size_prune_le (c : Config T) (now : T) (s : Store T κ) :
    Table.size (prune c now s).sessions ≤ Table.size s.sessions := by
  have hexpire := size_expire_le now s.expiry s.sessions
  unfold prune
  dsimp only
  split_ifs
  · exact hexpire
  · exact hexpire

omit [Add T] in
/-- Pruning rebuilds a heap that has too many entries from the sessions. -/
theorem length_prune (c : Config T) (now : T)
    (hsize : Table.size s.sessions ≤ c.maxSessions) :
    (prune c now s).expiry.length ≤ 2 * c.maxSessions := by
  have hexpire := (size_expire_le now s.expiry s.sessions).trans hsize
  unfold prune
  dsimp only
  split_ifs with hmany
  · calc ((entriesOf (expire now s.expiry s.sessions).sessions).insertionSort (· ≤ ·)).length
        = Table.size (expire now s.expiry s.sessions).sessions := by
          rw [List.length_insertionSort]
          exact List.length_map _
      _ ≤ 2 * c.maxSessions := by omega
  · exact not_lt.mp hmany

omit [Add T] in
theorem length_push (expiry : T) (key : κ) (heap : List (T ×ₗ κ)) :
    (push expiry key heap).length = heap.length + 1 :=
  List.orderedInsert_length _ _ _

/-- The store and its heap are within their limits. -/
structure Fits (c : Config T) (s : Store T κ) : Prop where
  sessions : Table.size s.sessions ≤ c.maxSessions
  heap : s.expiry.length ≤ 2 * c.maxSessions + 1

omit [Add T] in
theorem fits_prune {c : Config T} (now : T) (hsize : Table.size s.sessions ≤ c.maxSessions) :
    Fits c (prune c now s) where
  sessions := (size_prune_le c now s).trans hsize
  heap := (length_prune c now hsize).trans (Nat.le_succ _)

theorem fits_execute {c : Config T} (call : Call T κ) (h : Fits c s) :
    Fits c (store c call s).1 := by
  obtain ⟨operation, now, later⟩ := call
  have hpruned := fits_prune now h.sessions
  unfold store execute
  dsimp only
  cases operation with
  | create key value =>
    dsimp only
    split_ifs with hmem hfull
    · exact hpruned
    · exact hpruned
    · constructor
      · have hsize := Table.size_insert hmem (value, later + c.ttl)
        dsimp only
        omega
      · have hheap := length_prune c now h.sessions
        dsimp only
        rw [length_push]
        omega
  | get key => exact hpruned
  | destroy key => exact fits_prune later ((size_erase_le _ key).trans hpruned.sessions)
  | rotate key newKey =>
    dsimp only
    split
    · exact hpruned
    · rename_i value expiry hkey
      split_ifs with hmem
      · exact hpruned
      · apply fits_prune later
        have hnew : newKey ∉ (prune c now s).sessions.erase key :=
          fun hnew => hmem (AList.mem_erase.mp hnew).2
        have hsize := Table.size_rename (Table.mem_of_lookup hkey) hnew (value, expiry)
        exact hsize.le.trans hpruned.sessions
  | revoke principal =>
    exact fits_prune later ((Table.size_keep_le _ _).trans hpruned.sessions)

end

section
variable {T κ : Type} [LinearOrder T] [Add T] [LinearOrder κ] {c : Config T}
  {past : List (Call T κ)} {call : Call T κ} {s : Store T κ} {m : Table κ (Bytes × T)}

omit [Add T] in
theorem lookup_purge (now : T) (m : Table κ (Bytes × T)) (key : κ) :
    (purge now m).lookup key = (m.lookup key).filter (live now) :=
  Table.lookup_keep _ _ _

/-- The tables show the same sessions at every time that is still to come. -/
structure Related (c : Config T) (past : List (Call T κ)) (s : Store T κ)
    (m : Table κ (Bytes × T)) : Prop where
  indexed : Indexed s
  fits : Fits c s
  same : ∀ t, (∀ earlier ∈ past, earlier.later ≤ t) → ∀ key,
    (s.sessions.lookup key).filter (live t) = (m.lookup key).filter (live t)
  issued : ∀ key ∈ s.sessions, ∃ earlier ∈ past, earlier.newKey = some key

omit [Add T] in
theorem related_nil (c : Config T) : Related c [] (empty : Store T κ) ∅ where
  indexed := indexed_empty
  fits := ⟨Nat.zero_le _, Nat.zero_le _⟩
  same _ _ _ := rfl
  issued _ h := nomatch h

omit [Add T] in
/-- The table of the reference, when both have dropped what is due. -/
theorem Related.lookup_now (h : Related c past s m) (hcall : Admissible past call) (key : κ) :
    (s.sessions.lookup key).filter (live call.now) = (purge call.now m).lookup key := by
  rw [lookup_purge]
  exact h.same call.now hcall.between key

omit [Add T] in
theorem Related.alive_eq (h : Related c past s m) (hcall : Admissible past call) :
    alive call.now s = Table.size (purge call.now m) := by
  apply Table.size_congr
  intro key
  apply Table.mem_congr
  rw [Table.lookup_keep, h.lookup_now hcall]

omit [Add T] in
/-- A new key has no session. -/
theorem Related.fresh (h : Related c past s m) (hcall : Admissible past call) {key : κ}
    (hkey : call.newKey = some key) : s.sessions.lookup key = none := by
  apply Option.eq_none_iff_forall_ne_some.mpr
  intro e he
  obtain ⟨earlier, hmem, hsame⟩ := h.issued key (Table.mem_of_lookup he)
  exact hcall.fresh key hkey earlier hmem hsame

/-- The store and the reference answer the call alike and stay related. -/
def Agree (c : Config T) (past : List (Call T κ)) (call : Call T κ) (s : Store T κ)
    (m : Table κ (Bytes × T)) : Prop :=
  (store c call s).2 = (reference c call m).2 ∧
    Related c (past ++ [call]) (store c call s).1 (reference c call m).1

/-- What is to be shown of the tables after a call. -/
theorem Related.agree (h : Related c past s m) {s' : Store T κ} {m' : Table κ (Bytes × T)}
    {answer : Except SessionError Reply} (hstore : store c call s = (s', answer))
    (hreference : reference c call m = (m', answer)) (hindexed : Indexed s')
    (hsame : ∀ t, call.later ≤ t → ∀ key,
      (s'.sessions.lookup key).filter (live t) = (m'.lookup key).filter (live t))
    (hissued : ∀ key e, s'.sessions.lookup key = some e →
      (∃ e', s.sessions.lookup key = some e') ∨ call.newKey = some key) :
    Agree c past call s m := by
  have hfits := fits_execute call h.fits
  unfold Agree
  rw [hstore] at hfits ⊢
  rw [hreference]
  refine ⟨rfl, hindexed, hfits, fun t ht => hsame t (ht call (by simp)), fun key hkey => ?_⟩
  obtain ⟨e, he⟩ := Option.isSome_iff_exists.mp (AList.lookup_isSome.mpr hkey)
  obtain ⟨e', hold⟩ | hnew := hissued key e he
  · obtain ⟨earlier, hmem, hsame⟩ := h.issued key (Table.mem_of_lookup hold)
    exact ⟨earlier, List.mem_append_left _ hmem, hsame⟩
  · exact ⟨call, by simp, hnew⟩

omit [Add T] [LinearOrder T] in
theorem of_filter {p : Bytes × T → Bool} {o : Option (Bytes × T)} {e : Bytes × T}
    (h : o.filter p = some e) : ∃ e', o = some e' :=
  ⟨e, (Option.filter_eq_some_iff.mp h).1⟩

/-- The call does no more than drop what is due. -/
theorem agree_of_pruned (h : Related c past s m) (hcall : Admissible past call)
    {answer : Except SessionError Reply} (hstore : store c call s = (prune c call.now s, answer))
    (hreference : reference c call m = (purge call.now m, answer)) : Agree c past call s m := by
  obtain ⟨hindexed, hlookup⟩ := prune_spec c call.now h.indexed
  apply h.agree hstore hreference hindexed
  · intro t _ key
    rw [hlookup, h.lookup_now hcall]
  · intro key e he
    rw [hlookup] at he
    exact Or.inl (of_filter he)

theorem agree_create {key : κ} {value : Bytes} {now later : T}
    (h : Related c past s m) (hcall : Admissible past ⟨.create key value, now, later⟩) :
    Agree c past ⟨.create key value, now, later⟩ s m := by
  have halive : alive now s = Table.size (purge now m) := h.alive_eq hcall
  obtain ⟨⟨e, he⟩, -⟩ | ⟨hfull, hstore⟩ | ⟨hroom, s', hindexed, hstore, -, hlookup⟩ :=
    create_cases c now later key value h.indexed
  · rw [h.fresh hcall rfl] at he
    nomatch he
  · apply agree_of_pruned h hcall hstore
    exact if_pos (halive ▸ hfull)
  · have hreference : reference c ⟨.create key value, now, later⟩ m =
        ((purge now m).insert key (value, later + c.ttl), .ok .done) :=
      if_neg (not_le.mpr (halive ▸ hroom))
    have hdone : store c ⟨.create key value, now, later⟩ s = (s', .ok .done) := hstore
    apply h.agree hdone hreference hindexed
    · intro t _ k
      rw [hlookup]
      by_cases hk : k = key
      · subst hk
        rw [if_pos rfl, AList.lookup_insert]
      · rw [if_neg hk, AList.lookup_insert_ne hk, ← h.lookup_now hcall]
    · intro k e he
      rw [hlookup] at he
      by_cases hk : k = key
      · subst hk
        exact Or.inr rfl
      · rw [if_neg hk] at he
        exact Or.inl (of_filter he)

theorem agree_destroy {key : κ} {now later : T} (h : Related c past s m)
    (hcall : Admissible past ⟨.destroy key, now, later⟩) :
    Agree c past ⟨.destroy key, now, later⟩ s m := by
  obtain ⟨s', hstore, hindexed, -, hlookup⟩ :=
    destroy_spec c hcall.within key h.indexed
  apply h.agree hstore rfl hindexed
  · intro t ht k
    rw [hlookup]
    by_cases hk : k = key
    · subst hk
      rw [if_pos rfl, AList.lookup_erase]
    · rw [if_neg hk, AList.lookup_erase_ne hk, ← h.lookup_now hcall, filter_live ht]
      exact (filter_live (hcall.within.trans ht) _).symm
  · intro k e he
    rw [hlookup] at he
    split_ifs at he
    exact Or.inl (of_filter he)

theorem agree_rotate {key newKey : κ} {now later : T} (h : Related c past s m)
    (hcall : Admissible past ⟨.rotate key newKey, now, later⟩) :
    Agree c past ⟨.rotate key newKey, now, later⟩ s m := by
  obtain ⟨hnone, hstore⟩ | ⟨⟨e, he⟩, -⟩ | ⟨e, s', hkey, hstore, hindexed, -, hlookup⟩ :=
    rotate_cases c hcall.within key newKey h.indexed
  · apply agree_of_pruned h hcall hstore
    have hpurged : (purge now m).lookup key = none := (h.lookup_now hcall key).symm.trans hnone
    simp only [reference, hpurged]
  · rw [h.fresh hcall rfl] at he
    nomatch he
  · have hpurged : (purge now m).lookup key = some e := (h.lookup_now hcall key).symm.trans hkey
    have hreference : reference c ⟨.rotate key newKey, now, later⟩ m =
        (((purge now m).erase key).insert newKey e, .ok (.rotated true)) := by
      simp only [reference, hpurged]
    apply h.agree hstore hreference hindexed
    · intro t ht k
      rw [hlookup, filter_live ht]
      by_cases hk : k = newKey
      · subst hk
        rw [if_pos rfl, AList.lookup_insert]
      · rw [if_neg hk, AList.lookup_insert_ne hk]
        by_cases hk' : k = key
        · subst hk'
          rw [if_pos rfl, AList.lookup_erase]
        · rw [if_neg hk', AList.lookup_erase_ne hk', ← h.lookup_now hcall]
          exact (filter_live (hcall.within.trans ht) _).symm
    · intro k e' he'
      rw [hlookup] at he'
      obtain ⟨e'', hk⟩ := of_filter he'
      split_ifs at hk with hnew
      · exact Or.inr (congrArg some hnew.symm)
      · exact Or.inl ⟨e'', hk⟩

theorem agree_revoke {principal : String} {now later : T} (h : Related c past s m)
    (hcall : Admissible past ⟨.revoke principal, now, later⟩) :
    Agree c past ⟨.revoke principal, now, later⟩ s m := by
  obtain ⟨s', hstore, hindexed, -, hlookup⟩ :=
    revoke_spec c hcall.within principal h.indexed
  have hcount : Table.count (fun _ e => belongsTo principal e && live now e) s.sessions =
      Table.count (fun _ e => belongsTo principal e) (purge now m) := by
    apply Table.count_congr
    intro k
    rw [← h.lookup_now hcall, Option.filter_filter]
    simp only [Bool.and_comm]
  rw [hcount] at hstore
  apply h.agree hstore rfl hindexed
  · intro t ht k
    have hsame := h.lookup_now hcall k
    rw [hlookup, Table.lookup_keep, ← hsame]
    simp only [Option.filter_filter]
    congr 1
    funext e
    by_cases hlive : live t e = true
    · simp [hlive, live_of_le ht hlive, live_of_le (hcall.within.trans ht) hlive]
    · simp [hlive]
  · intro k e he
    rw [hlookup] at he
    exact Or.inl (of_filter he)

theorem agree_of_related (h : Related c past s m) (hcall : Admissible past call) :
    Agree c past call s m := by
  obtain ⟨operation, now, later⟩ := call
  cases operation with
  | create key value => exact agree_create h hcall
  | get key =>
    apply agree_of_pruned h hcall (get_eq c now later key h.indexed)
    have hsame : (s.sessions.lookup key).filter (live now) = (purge now m).lookup key :=
      h.lookup_now hcall key
    rw [hsame]
    rfl
  | destroy key => exact agree_destroy h hcall
  | rotate key newKey => exact agree_rotate h hcall
  | revoke principal => exact agree_revoke h hcall

theorem simulates (c : Config T) :
    Simulates (store c) some (reference (κ := κ) c) (Related c) Admissible where
  answer _ _ _ _ _ hown hrelated hcall := by
    obtain rfl := Option.some.inj hown
    exact (agree_of_related hrelated hcall).1
  next _ _ _ _ _ hown hrelated hcall := by
    obtain rfl := Option.some.inj hown
    exact (agree_of_related hrelated hcall).2
  other _ _ _ _ hown := nomatch hown

/-- What is not due and not ended by the call stays in the reference. -/
theorem lookup_reference {key : κ} {e : Bytes × T}
    (hkey : (purge call.now m).lookup key = some e) (hends : ¬Ends call.operation key e)
    (hfresh : ∀ newKey, call.newKey = some newKey → newKey ≠ key) :
    (reference c call m).1.lookup key = some e := by
  obtain ⟨operation, now, later⟩ := call
  cases operation with
  | create newKey value =>
    have hne := hfresh newKey rfl
    simp only [reference]
    split_ifs
    · exact hkey
    · exact (AList.lookup_insert_ne hne.symm).trans hkey
  | get old => exact hkey
  | destroy old => exact (AList.lookup_erase_ne (Ne.symm hends)).trans hkey
  | rotate old newKey =>
    have hne := hfresh newKey rfl
    simp only [reference]
    split
    · exact ((AList.lookup_insert_ne hne.symm).trans (AList.lookup_erase_ne (Ne.symm hends))).trans
        hkey
    · exact hkey
  | revoke principal =>
    have hother : belongsTo principal e = false := by simpa [Ends] using hends
    refine (Table.lookup_keep _ _ _).trans ?_
    rw [Option.filter_eq_some_iff]
    exact ⟨hkey, by rw [hother]; rfl⟩

/-- A session that is not due, and that the call does not end, is there after the call. -/
theorem Related.kept (h : Related c past s m) (hcall : Admissible past call) {key : κ}
    {e : Bytes × T} (hkey : s.sessions.lookup key = some e) (hlive : call.later < e.2)
    (hends : ¬Ends call.operation key e) :
    (store c call s).1.sessions.lookup key = some e := by
  have hlater : live call.later e = true := decide_eq_true hlive
  have hpurged : (purge call.now m).lookup key = some e := by
    rw [← h.lookup_now hcall, hkey]
    exact Option.filter_some_pos (live_of_le hcall.within hlater)
  have hreference : (reference c call m).1.lookup key = some e := by
    apply lookup_reference hpurged hends
    intro newKey hnew hsame
    subst hsame
    nomatch (h.fresh hcall hnew).symm.trans hkey
  have hnow : ∀ earlier ∈ past ++ [call], earlier.later ≤ call.later := by
    intro earlier hmem
    obtain hpast | hself := List.mem_append.mp hmem
    · exact (hcall.between earlier hpast).trans hcall.within
    · rw [List.mem_singleton.mp hself]
  have hfiltered := (agree_of_related h hcall).2.same call.later hnow key
  rw [hreference, Option.filter_some_pos hlater] at hfiltered
  exact (Option.filter_eq_some_iff.mp hfiltered).1

/-- The state that the calls lead to. -/
def reached (c : Config T) (past : List (Call T κ)) : Store T κ := finish (store c) empty past

theorem related_reached (h : History past) :
    Related c past (reached c past) (finish (reference c) ∅ past) := by
  have hall : AtEach (fun before call _ => Admissible before call) (past.filterMap some) := by
    rw [List.filterMap_some]
    exact h
  have hrelated := ((simulates c).run (related_nil c) hall).2
  rwa [List.filterMap_some] at hrelated

/-- The calls are answered as the reference answers them. After each of them every session has
its entry in the heap, the heap has at most `2 * max_sessions + 1` entries, and pruning drops
exactly the sessions that are due. A session stays until it is due or a call ends it. -/
theorem heap_refines_expiry (c : Config T) (calls : List (Call T κ)) (h : History calls) :
    answers (store c) some empty calls = answers (reference c) some ∅ calls ∧
      (∀ past, past <+: calls →
        (∀ key value expiry, (reached c past).sessions.lookup key = some (value, expiry) →
          toLex (expiry, key) ∈ (reached c past).expiry) ∧
        (reached c past).expiry.length ≤ 2 * c.maxSessions + 1 ∧
        ∀ now key, (prune c now (reached c past)).sessions.lookup key =
          ((reached c past).sessions.lookup key).filter fun e => now < e.2) ∧
      ∀ past call, past ++ [call] <+: calls → ∀ key e,
        (reached c past).sessions.lookup key = some e → call.later < e.2 →
          ¬Ends call.operation key e →
            (store c call (reached c past)).1.sessions.lookup key = some e := by
  refine ⟨?_, fun past hpast => ?_, fun past call hpast key e hkey hlive hends => ?_⟩
  · have hall : AtEach (fun before call _ => Admissible before call) (calls.filterMap some) := by
      rw [List.filterMap_some]
      exact h
    have hanswers := ((simulates c).run (related_nil c) hall).1
    rwa [List.filterMap_some] at hanswers
  · obtain ⟨rest, rfl⟩ := hpast
    have hrelated : Related c past (reached c past) _ := related_reached (AtEach.of_append h)
    refine ⟨hrelated.indexed.covered, hrelated.fits.heap, fun now key => ?_⟩
    exact (prune_spec c now hrelated.indexed).2 key
  · obtain ⟨rest, rfl⟩ := hpast
    have hnext : History (past ++ [call]) := AtEach.of_append h
    have hrelated : Related c past (reached c past) _ := related_reached (AtEach.of_append hnext)
    exact hrelated.kept (hnext past call [] rfl) hkey hlive hends

end

def config : Config ℕ := ⟨10, 1, Nat.one_pos⟩

def text (principal : String) : Bytes := (SessionRecord.mk principal []).dumps

/-- Three sessions that end before they are due leave an entry each, one more than the heap
may keep. -/
def churn : List (Call ℕ ℕ) :=
  [⟨.create 0 (text "ann"), 0, 1⟩, ⟨.rotate 0 1, 2, 2⟩, ⟨.destroy 1, 3, 3⟩,
    ⟨.create 2 (text "bob"), 4, 5⟩, ⟨.create 3 (text "eve"), 6, 6⟩, ⟨.get 2, 14, 14⟩,
    ⟨.get 2, 15, 15⟩]

theorem history_churn : History churn := by
  simp only [History, churn, atEach_cons]
  refine ⟨⟨?_, ?_, ?_⟩, ⟨?_, ?_, ?_⟩, ⟨?_, ?_, ?_⟩, ⟨?_, ?_, ?_⟩, ⟨?_, ?_, ?_⟩, ⟨?_, ?_, ?_⟩,
    ⟨?_, ?_, ?_⟩, atEach_nil _⟩
  all_goals simp [Call.newKey]

theorem heap_refines_expiry_churn :
    answers (store config) some empty churn =
      [.ok .done, .ok (.rotated true), .ok .done, .ok .done, .error .capacity,
        .ok (.found (some (text "bob"))), .ok (.found none)] := by
  have hanswers := (heap_refines_expiry config churn history_churn).1
  rw [hanswers]
  decide +kernel

end WireRpc.ExpiryHeap
