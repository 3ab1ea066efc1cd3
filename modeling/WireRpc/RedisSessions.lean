import WireRpc.SessionBackends

/-!
# Sessions in Redis

The script of `RedisSessionStore` works on a hash of the sessions and a sorted set of their
expiry times. It is atomic, but what it has written when it fails stays.
-/
namespace WireRpc.RedisSessions
open Library Sessions MemorySessions SessionBackends

/-- The two keys of a namespace. -/
structure Keys (T κ : Type) where
  sessions : Table κ Bytes
  expiry : Table κ T

section
variable {T κ : Type} [LinearOrder T] [DecidableEq κ]

def empty : Keys T κ := ⟨∅, ∅⟩

/-- `ZRANGEBYSCORE`, an `HDEL` for each key it names, and `ZREMRANGEBYSCORE`. -/
def expire (now : T) (s : Keys T κ) : Keys T κ :=
  let expired := (Table.keep (fun _ score => decide (score ≤ now)) s.expiry).keys
  {  sessions := Table.eraseAll expired s.sessions
     expiry := Table.keep (fun _ score => !decide (score ≤ now)) s.expiry }

/-- The keys of the sessions of a principal. The script fails at a text that `cjson.decode`
does not take. -/
def sessionsOf (principal : String) (sessions : Table κ Bytes) : Option (List κ) :=
  if sessions.entries.all fun e => (Json.decode e.2).isSome then
    some (Table.keep (fun _ value => principalOf value == some principal) sessions).keys
  else none

variable [Add T] (c : Config T)

/-- `_SCRIPT`. -/
def script (call : Call T κ) (s : Keys T κ) : Keys T κ × Option Answer :=
  let s := expire call.now s
  match call.operation with
  | .create key value =>
    if key ∈ s.sessions then (s, some (.number (-2)))
    else if Table.size s.sessions ≥ c.maxSessions then (s, some (.number (-1)))
    else
      ({  sessions := s.sessions.insert key value
          expiry := s.expiry.insert key (call.now + c.ttl) }, some (.number 1))
  | .get key =>
    if key ∉ s.expiry then (s, some .none)
    else
      match s.sessions.lookup key with
      | some value => (s, some (.text value))
      | none => (s, some .none)
  | .destroy key =>
    ({  sessions := s.sessions.erase key
        expiry := s.expiry.erase key }, some (.number (if key ∈ s.sessions then 1 else 0)))
  | .rotate key newKey =>
    match s.sessions.lookup key with
    | none => (s, some (.number 0))
    | some data =>
      if newKey ∈ s.sessions then (s, some (.number (-2)))
      else
        match s.expiry.lookup key with
        | none => (s, some (.number (-2)))
        | some score =>
          ({  sessions := (s.sessions.insert newKey data).erase key
              expiry := (s.expiry.insert newKey score).erase key }, some (.number 1))
  | .revoke principal =>
    match sessionsOf principal s.sessions with
    | none => (s, none)
    | some remove =>
      ({  sessions := Table.eraseAll remove s.sessions
          expiry := Table.eraseAll remove s.expiry }, some (.number remove.length))

/-- `_execute`. -/
def execute : Answering (Keys T κ) (Call T κ) (Except SessionError Reply) := fun call s =>
  let r := script c call s
  (r.1, match r.2 with
    | none => .error .unavailable
    | some result =>
      if result = .number (-1) then .error .capacity
      else if result = .number (-2) then .error .unavailable
      else .ok (reply call.operation result))

end

section
variable {T κ : Type} [LinearOrder T] [DecidableEq κ]

/-- The hash and the sorted set hold the entries of the reference. -/
structure Holds (s : Keys T κ) (m : Table κ (Entry T)) : Prop where
  sessions : ∀ key, s.sessions.lookup key = (m.lookup key).map Entry.value
  expiry : ∀ key, s.expiry.lookup key = (m.lookup key).map Entry.expiry

variable {s : Keys T κ} {m : Table κ (Entry T)} {past : List (Call T κ)} {call : Call T κ}

omit [LinearOrder T] in
theorem Holds.mem_sessions (h : Holds s m) (key : κ) : key ∈ s.sessions ↔ key ∈ m := by
  rw [← AList.lookup_isSome, ← AList.lookup_isSome, h.sessions, Option.isSome_map]

omit [LinearOrder T] in
theorem Holds.mem_expiry (h : Holds s m) (key : κ) : key ∈ s.expiry ↔ key ∈ m := by
  rw [← AList.lookup_isSome, ← AList.lookup_isSome, h.expiry, Option.isSome_map]

omit [LinearOrder T] in
theorem Holds.size (h : Holds s m) : Table.size s.sessions = Table.size m :=
  Table.size_congr h.mem_sessions

theorem Holds.expire (h : Holds s m) (now : T) : Holds (expire now s) (purge now m) where
  sessions key := by
    have hexpired : key ∈ (Table.keep (fun _ score => decide (score ≤ now)) s.expiry).keys ↔
        ∃ e, m.lookup key = some e ∧ e.expiry ≤ now := by
      rw [Table.mem_keys_keep, h.expiry]
      simp
    show (Table.eraseAll _ s.sessions).lookup key = _
    rw [Table.lookup_eraseAll, lookup_purge, h.sessions]
    simp only [hexpired]
    cases m.lookup key with
    | none => simp
    | some e =>
      by_cases hdue : e.expiry ≤ now
      · simp [hdue, Entry.live]
      · simp [hdue, Entry.live, not_le.mp hdue]
  expiry key := by
    show (Table.keep _ s.expiry).lookup key = _
    rw [Table.lookup_keep, lookup_purge, h.expiry, Option.filter_map]
    congr 2
    funext e
    simp [Entry.live, ← not_le]

omit [LinearOrder T] in
theorem Holds.insert (h : Holds s m) (key : κ) (e : Entry T) :
    Holds ⟨s.sessions.insert key e.value, s.expiry.insert key e.expiry⟩ (m.insert key e) where
  sessions k := by
    by_cases hk : k = key
    · subst hk
      rw [AList.lookup_insert, AList.lookup_insert, Option.map_some]
    · rw [AList.lookup_insert_ne hk, AList.lookup_insert_ne hk, h.sessions]
  expiry k := by
    by_cases hk : k = key
    · subst hk
      rw [AList.lookup_insert, AList.lookup_insert, Option.map_some]
    · rw [AList.lookup_insert_ne hk, AList.lookup_insert_ne hk, h.expiry]

omit [LinearOrder T] in
theorem Holds.erase (h : Holds s m) (key : κ) :
    Holds ⟨s.sessions.erase key, s.expiry.erase key⟩ (m.erase key) where
  sessions k := by
    by_cases hk : k = key
    · subst hk
      rw [AList.lookup_erase, AList.lookup_erase, Option.map_none]
    · rw [AList.lookup_erase_ne hk, AList.lookup_erase_ne hk, h.sessions]
  expiry k := by
    by_cases hk : k = key
    · subst hk
      rw [AList.lookup_erase, AList.lookup_erase, Option.map_none]
    · rw [AList.lookup_erase_ne hk, AList.lookup_erase_ne hk, h.expiry]

omit [LinearOrder T] in
theorem Holds.eraseAll (h : Holds s m) {remove : List κ} {p : Entry T → Bool}
    (hmem : ∀ key, key ∈ remove ↔ ∃ e, m.lookup key = some e ∧ p e = false) :
    Holds ⟨Table.eraseAll remove s.sessions, Table.eraseAll remove s.expiry⟩
      (Table.keep (fun _ => p) m) := by
  constructor
  · intro key
    show (Table.eraseAll remove s.sessions).lookup key = _
    rw [Table.lookup_eraseAll, Table.lookup_keep, h.sessions]
    simp only [hmem]
    cases m.lookup key with
    | none => simp
    | some e => cases hp : p e <;> simp [hp]
  · intro key
    show (Table.eraseAll remove s.expiry).lookup key = _
    rw [Table.lookup_eraseAll, Table.lookup_keep, h.expiry]
    simp only [hmem]
    cases m.lookup key with
    | none => simp
    | some e => cases hp : p e <;> simp [hp]

omit [LinearOrder T] in
/-- Only what the lookups answer counts. -/
theorem Holds.congr {m' : Table κ (Entry T)} (h : Holds s m)
    (hsame : ∀ key, m.lookup key = m'.lookup key) : Holds s m' where
  sessions key := by rw [h.sessions, hsame]
  expiry key := by rw [h.expiry, hsame]

omit [LinearOrder T] [DecidableEq κ] in
/-- The text of an entry names its principal. -/
theorem principalOf_known {key : κ} {e : Entry T} (h : Known past key e) :
    principalOf e.value = some e.principal := by
  obtain ⟨record, hvalue, hprincipal⟩ := h.record
  rw [hvalue, hprincipal, principalOf_dumps]

omit [LinearOrder T] in
/-- The script finds the sessions of a principal, and fails at none of them. -/
theorem sessionsOf_eq (h : Holds s m) (hknown : AllKnown past m) (principal : String) :
    ∃ remove, sessionsOf principal s.sessions = some remove ∧
      remove.length = Table.count (fun _ e => e.principal == principal) m ∧
      ∀ key, key ∈ remove ↔ ∃ e, m.lookup key = some e ∧ (e.principal != principal) = false := by
  have hdecodes : s.sessions.entries.all (fun e => (Json.decode e.2).isSome) = true := by
    apply List.all_eq_true.mpr
    intro e he
    have hlookup := AList.mem_lookup_iff.mpr (show ⟨e.1, e.2⟩ ∈ s.sessions.entries from he)
    rw [h.sessions] at hlookup
    obtain ⟨entry, hentry, hvalue⟩ := Option.map_eq_some_iff.mp hlookup
    obtain ⟨record, hrecord, -⟩ := (hknown e.1 entry hentry).record
    rw [← hvalue, hrecord]
    unfold SessionRecord.dumps
    rw [Json.decode_encode]
    rfl
  have hmatch (key : κ) (e : Entry T) (he : m.lookup key = some e) :
      (principalOf e.value == some principal) = (e.principal == principal) := by
    rw [principalOf_known (hknown key e he)]
    simp
  refine ⟨_, if_pos hdecodes, ?_, fun key => ?_⟩
  · rw [← Table.size_eq_keys]
    apply Table.count_congr
    intro key
    rw [h.sessions]
    cases he : m.lookup key with
    | none => rfl
    | some e =>
      rw [Option.filter_map, Option.isSome_map, Option.filter_some, Option.filter_some]
      simp only [Function.comp_apply, hmatch key e he]
  · rw [Table.mem_keys_keep, h.sessions]
    cases he : m.lookup key with
    | none => simp
    | some e => simp [principalOf_known (hknown key e he)]

theorem execute_spec [Add T] (c : Config T) (h : Holds s m) (hknown : AllKnown past m)
    (hcall : Admissible past call) :
    (execute c call s).2 = (reference c call m).2 ∧
      Holds (execute c call s).1 (reference c call m).1 := by
  have hexpired := h.expire call.now
  have hfresh {key : κ} (hkey : call.newKey = some key) :
      (purge call.now m).lookup key = none := (hknown.purge call.now).fresh hcall hkey
  unfold execute script reference
  obtain ⟨operation, now⟩ := call
  cases operation with
  | create key value =>
    obtain ⟨record, rfl⟩ := hcall.text key value rfl
    have hnew : key ∉ (expire now s).sessions := by
      rw [hexpired.mem_sessions]
      exact AList.lookup_eq_none.mp (hfresh rfl)
    simp only [if_neg hnew, hexpired.size, principalOf_dumps]
    by_cases hfull : Table.size (purge now m) ≥ c.maxSessions
    · simp only [if_pos hfull]
      exact ⟨rfl, hexpired⟩
    · simp only [if_neg hfull]
      exact ⟨rfl, hexpired.insert key ⟨record.principal, record.dumps, now + c.ttl⟩⟩
  | get key =>
    cases he : (purge now m).lookup key with
    | none =>
      have hkey : key ∉ (expire now s).expiry := by
        rw [hexpired.mem_expiry]
        exact AList.lookup_eq_none.mp he
      simp only [if_pos hkey, he]
      exact ⟨rfl, hexpired⟩
    | some e =>
      have hkey : ¬ key ∉ (expire now s).expiry := by
        rw [hexpired.mem_expiry, not_not]
        exact Table.mem_of_lookup he
      simp only [if_neg hkey, hexpired.sessions, he]
      exact ⟨rfl, hexpired⟩
  | destroy key =>
    by_cases hkey : key ∈ (expire now s).sessions
    · simp only [if_pos hkey]
      exact ⟨rfl, hexpired.erase key⟩
    · simp only [if_neg hkey]
      exact ⟨rfl, hexpired.erase key⟩
  | rotate key newKey =>
    have hnew := hfresh rfl
    cases he : (purge now m).lookup key with
    | none =>
      simp only [hexpired.sessions, he]
      exact ⟨rfl, hexpired⟩
    | some e =>
      have hfree : newKey ∉ (expire now s).sessions := by
        rw [hexpired.mem_sessions]
        exact AList.lookup_eq_none.mp hnew
      have hne : newKey ≠ key := by
        rintro rfl
        nomatch hnew.symm.trans he
      simp only [hexpired.sessions, hexpired.expiry, he, Option.map_some, if_neg hfree]
      refine ⟨rfl, ((hexpired.insert newKey e).erase key).congr fun k => ?_⟩
      by_cases hk : k = newKey
      · subst hk
        rw [AList.lookup_erase_ne hne, AList.lookup_insert, AList.lookup_insert]
      · rw [AList.lookup_insert_ne hk]
        by_cases hk' : k = key
        · subst hk'
          rw [AList.lookup_erase, AList.lookup_erase]
        · rw [AList.lookup_erase_ne hk', AList.lookup_erase_ne hk', AList.lookup_insert_ne hk]
  | revoke principal =>
    obtain ⟨remove, hremove, hlength, hmem⟩ :=
      sessionsOf_eq hexpired (hknown.purge now) principal
    simp only [hremove]
    refine ⟨?_, hexpired.eraseAll hmem⟩
    have hpos (n : ℤ) (hn : n < 0) : Answer.number remove.length ≠ .number n := by
      intro h
      have := Answer.number.inj h
      omega
    rw [if_neg (hpos (-1) (by decide)), if_neg (hpos (-2) (by decide)), ← hlength]
    rfl

/-- How the two keys and the reference are related after the past calls. -/
def Related (past : List (Call T κ)) (s : Keys T κ) (m : Table κ (Entry T)) : Prop :=
  Holds s m ∧ AllKnown past m

theorem redis_simulates [Add T] (c : Config T) :
    (execute c : Answering (Keys T κ) (Call T κ) _).Simulates some (reference c) Related
      Admissible where
  answer past s m e call he h hcall := by
    obtain rfl := Option.some.inj he
    exact (execute_spec c h.1 h.2 hcall).1
  next past s m e call he h hcall := by
    obtain rfl := Option.some.inj he
    exact ⟨(execute_spec c h.1 h.2 hcall).2, h.2.next hcall c⟩
  other _ _ _ _ he := nomatch he

theorem redis_run [Add T] (c : Config T) {calls : List (Call T κ)} (h : History calls) :
    Answering.answers (execute c) some empty calls =
        Answering.answers (reference c) some ∅ calls ∧
      Related calls (Answering.finish (execute c) empty calls)
        (Answering.finish (reference c) ∅ calls) := by
  have hempty : Related [] (empty : Keys T κ) ∅ := ⟨⟨fun _ => rfl, fun _ => rfl⟩, allKnown_nil⟩
  have hrun := (redis_simulates c).run hempty (by rwa [List.filterMap_some])
  rwa [List.filterMap_some] at hrun

end
end WireRpc.RedisSessions
