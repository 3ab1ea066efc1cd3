import WireRpc.SessionBackends

/-!
# Sessions in SQL

`SQLiteSessionStore._transaction` and `PostgresSessionStore._execute` make the same
statements. In PostgreSQL each of them is about the rows of one namespace, the primary key is
the namespace and the digest, and a renamed row is answered with `TRUE` instead of a count. A
transaction that fails is rolled back.
-/
namespace WireRpc.SqlSessions
open Library Sessions MemorySessions SessionBackends

section
variable {T K : Type} [DecidableEq K]

/-- `DELETE FROM ... WHERE`. -/
def deleteWhere (p : K → Entry T → Bool) (rows : Table K (Entry T)) : Table K (Entry T) :=
  Table.keep (fun k row => !p k row) rows

/-- `INSERT INTO ...`, which fails when there is a row of that primary key. -/
def insertInto (k : K) (row : Entry T) (rows : Table K (Entry T)) :
    Except SessionError (Table K (Entry T)) :=
  if k ∈ rows then .error .unavailable else .ok (rows.insert k row)

/-- `UPDATE ... SET digest = ... WHERE digest = ...` and the number of rows it changed. -/
def updateKey (k newKey : K) (rows : Table K (Entry T)) :
    Except SessionError (Table K (Entry T) × ℕ) :=
  match rows.lookup k with
  | none => .ok (rows, 0)
  | some row =>
    if newKey ≠ k ∧ newKey ∈ rows then .error .unavailable
    else .ok ((rows.erase k).insert newKey row, 1)

end

/-- The keys of the rows of one store, and what an `UPDATE` is answered with. -/
structure Dialect (κ K : Type) where
  name : κ → K
  mine : K → Bool
  renamed : ℕ → Answer
  injective : Function.Injective name
  mine_iff : ∀ k, mine k = true ↔ ∃ key, name key = k
  truthy : ∀ n ≤ 1, (renamed n).truthy = (n == 1)

def sqlite (κ : Type) : Dialect κ κ where
  name := id
  mine := fun _ => true
  renamed := fun n => .flag (n == 1)
  injective := Function.injective_id
  mine_iff k := by simp
  truthy _ _ := rfl

def postgres {ν : Type} [DecidableEq ν] (κ : Type) (ns : ν) : Dialect κ (ν × κ) where
  name := fun key => (ns, key)
  mine := fun k => k.1 == ns
  renamed := fun n => if n = 0 then .none else .flag true
  injective := Prod.mk_right_injective ns
  mine_iff k := by
    constructor
    · intro h
      exact ⟨k.2, by rw [← beq_iff_eq.mp h]⟩
    · rintro ⟨key, rfl⟩
      exact beq_self_eq_true ns
  truthy n hn := by
    obtain rfl | rfl : n = 0 ∨ n = 1 := by omega
    · rfl
    · rfl

section
variable {T κ K : Type} [LinearOrder T] [Add T] [DecidableEq K] (d : Dialect κ K) (c : Config T)

/-- The statements between `BEGIN` and `COMMIT`. -/
def statements (call : Call T κ) (rows : Table K (Entry T)) :
    Except SessionError (Table K (Entry T) × Answer) := do
  let rows := deleteWhere (fun k row => d.mine k && row.expiry ≤ call.now) rows
  match call.operation with
  | .create key value =>
    if Table.count (fun k _ => d.mine k) rows ≥ c.maxSessions then throw .capacity
    else
      match principalOf value with
      | some principal =>
        let rows ← insertInto (d.name key) ⟨principal, value, call.now + c.ttl⟩ rows
        return (rows, .none)
      | none => throw .unavailable
  | .get key =>
    match rows.lookup (d.name key) with
    | some row => return (rows, .text row.value)
    | none => return (rows, .none)
  | .destroy key => return (deleteWhere (fun k _ => k == d.name key) rows, .none)
  | .rotate key newKey =>
    let (rows, n) ← updateKey (d.name key) (d.name newKey) rows
    return (rows, d.renamed n)
  | .revoke principal =>
    let p := fun k (row : Entry T) => d.mine k && row.principal == principal
    return (deleteWhere p rows, .number (Table.count p rows))

def transaction : Answering (Table K (Entry T)) (Call T κ) (Except SessionError Reply) :=
  fun call rows =>
    match statements d c call rows with
    | .ok (rows, answer) => (rows, .ok (reply call.operation answer))
    | .error e => (rows, .error e)

end

section
variable {T K : Type} [DecidableEq K]

theorem lookup_deleteWhere (p : K → Entry T → Bool) (rows : Table K (Entry T)) (k : K) :
    (deleteWhere p rows).lookup k = (rows.lookup k).filter fun row => !p k row :=
  Table.lookup_keep _ _ _

/-- Rows that the condition does not select stay. -/
theorem lookup_deleteWhere_of {p : K → Entry T → Bool} {rows : Table K (Entry T)} {k : K}
    (h : ∀ row, p k row = false) : (deleteWhere p rows).lookup k = rows.lookup k := by
  rw [lookup_deleteWhere]
  cases rows.lookup k with
  | none => rfl
  | some row => simp [h row]

theorem lookup_deleteKey (k : K) (rows : Table K (Entry T)) (k' : K) :
    (deleteWhere (fun k' _ => k' == k) rows).lookup k' = (rows.erase k).lookup k' := by
  by_cases hk : k' = k
  · subst hk
    rw [lookup_deleteWhere, AList.lookup_erase]
    simp
  · rw [AList.lookup_erase_ne hk]
    exact lookup_deleteWhere_of fun _ => beq_false_of_ne hk

theorem insertInto_ok {k : K} {row : Entry T} {rows rows' : Table K (Entry T)}
    (h : insertInto k row rows = .ok rows') :
    ∀ k', rows'.lookup k' = if k' = k then some row else rows.lookup k' := by
  intro k'
  unfold insertInto at h
  split_ifs at h
  obtain rfl := Except.ok.inj h
  split_ifs with hk
  · subst hk
    exact AList.lookup_insert rows
  · exact AList.lookup_insert_ne hk

theorem updateKey_ok {k newKey : K} {rows rows' : Table K (Entry T)} {n : ℕ}
    (h : updateKey k newKey rows = .ok (rows', n)) :
    (rows.lookup k = none ∧ rows' = rows ∧ n = 0) ∨
      ∃ row, rows.lookup k = some row ∧ n = 1 ∧
        ∀ k', rows'.lookup k' = if k' = newKey then some row
          else if k' = k then none else rows.lookup k' := by
  unfold updateKey at h
  cases hk : rows.lookup k with
  | none =>
    rw [hk] at h
    obtain ⟨rfl, rfl⟩ := Prod.mk.inj (Except.ok.inj h)
    exact Or.inl ⟨rfl, rfl, rfl⟩
  | some row =>
    rw [hk] at h
    dsimp only at h
    split_ifs at h
    obtain ⟨rfl, rfl⟩ := Prod.mk.inj (Except.ok.inj h)
    refine Or.inr ⟨row, rfl, rfl, fun k' => ?_⟩
    split_ifs with hnew hold
    · subst hnew
      exact AList.lookup_insert _
    · subst hold
      rw [AList.lookup_insert_ne hnew, AList.lookup_erase]
    · rw [AList.lookup_insert_ne hnew, AList.lookup_erase_ne hold]

end

section
variable {T κ K : Type} [LinearOrder T] [DecidableEq κ] [DecidableEq K] (d : Dialect κ K)

/-- The rows of a store are the entries of the reference. -/
def Same (rows : Table K (Entry T)) (m : Table κ (Entry T)) : Prop :=
  ∀ key, rows.lookup (d.name key) = m.lookup key

/-- They are, as far as anyone can tell after the past calls: a transaction that was rolled
back may have left rows that are due. -/
def Agrees (past : List (Call T κ)) (rows : Table K (Entry T)) (m : Table κ (Entry T)) : Prop :=
  ∀ now, (∀ earlier ∈ past, earlier.now ≤ now) → ∀ key,
    (rows.lookup (d.name key)).filter (Entry.live now) = (m.lookup key).filter (Entry.live now)

variable {d} {past : List (Call T κ)} {call : Call T κ} {rows rows' : Table K (Entry T)}
  {m m' : Table κ (Entry T)}

theorem Same.agrees (h : Same d rows m) : Agrees d past rows m := by
  intro now _ key
  rw [h key]

theorem Agrees.purge (h : Agrees d past rows m) :
    Agrees d (past ++ [call]) rows (purge call.now m) := by
  intro now hnow key
  have hlater : call.now ≤ now := hnow call (by simp)
  rw [lookup_purge, filter_live_of_le hlater]
  exact h now (fun earlier hmem => hnow earlier (List.mem_append_left _ hmem)) key

theorem Agrees.same (h : Agrees d past rows m) (hcall : Admissible past call) :
    Same d (deleteWhere (fun k row => d.mine k && row.expiry ≤ call.now) rows)
      (SessionBackends.purge call.now m) := by
  intro key
  have hmine : d.mine (d.name key) = true := (d.mine_iff _).mpr ⟨key, rfl⟩
  rw [lookup_deleteWhere, lookup_purge, ← h call.now hcall.later key]
  congr 1
  funext row
  simp [hmine, Entry.live, ← not_lt]

omit [LinearOrder T] in
theorem Same.count (h : Same d rows m) (p : Entry T → Bool) :
    Table.count (fun k row => d.mine k && p row) rows = Table.count (fun _ e => p e) m := by
  apply Table.count_eq_of_name d.injective
  · intro key
    have hmine : d.mine (d.name key) = true := (d.mine_iff _).mpr ⟨key, rfl⟩
    simp only [h key, hmine, Bool.true_and]
  · intro k row hp
    exact (d.mine_iff k).mp (Bool.and_eq_true_iff.mp hp).1

omit [LinearOrder T] in
theorem Same.size (h : Same d rows m) : Table.count (fun k _ => d.mine k) rows = Table.size m := by
  have hcount := h.count fun _ => true
  simp only [Bool.and_true] at hcount
  rw [hcount]
  exact congrArg List.length (List.filter_true _)

omit [LinearOrder T] in
/-- A key without an entry has no row either. -/
theorem Same.notMem (h : Same d rows m) {key : κ} (hkey : m.lookup key = none) :
    d.name key ∉ rows := by
  apply AList.lookup_eq_none.mp
  rw [h key, hkey]

omit [LinearOrder T] in
theorem Same.insert (h : Same d rows m) (key : κ) (e : Entry T) :
    Same d (rows.insert (d.name key) e) (m.insert key e) := by
  intro k
  by_cases hk : k = key
  · subst hk
    rw [AList.lookup_insert, AList.lookup_insert]
  · rw [AList.lookup_insert_ne hk, AList.lookup_insert_ne (d.injective.ne hk), h k]

omit [LinearOrder T] in
theorem Same.erase (h : Same d rows m) (key : κ) :
    Same d (rows.erase (d.name key)) (m.erase key) := by
  intro k
  by_cases hk : k = key
  · subst hk
    rw [AList.lookup_erase, AList.lookup_erase]
  · rw [AList.lookup_erase_ne hk, AList.lookup_erase_ne (d.injective.ne hk), h k]

omit [LinearOrder T] in
theorem Same.deleteWhere (h : Same d rows m) {p : K → Entry T → Bool} {q : κ → Entry T → Bool}
    (hpq : ∀ key e, p (d.name key) e = !q key e) :
    Same d (deleteWhere p rows) (Table.keep q m) := by
  intro key
  rw [lookup_deleteWhere, Table.lookup_keep, h key]
  congr 1
  funext e
  rw [hpq, Bool.not_not]

/-- A transaction answers what the reference does. It leaves the entries of the reference
behind, unless it was rolled back. -/
theorem transaction_spec [Add T] (c : Config T) (hagrees : Agrees d past rows m)
    (hknown : AllKnown past m) (hcall : Admissible past call) :
    (transaction d c call rows).2 = (reference c call m).2 ∧
      (Same d (transaction d c call rows).1 (reference c call m).1 ∨
        (transaction d c call rows).1 = rows ∧
          (reference c call m).1 = purge call.now m) := by
  have hsame := hagrees.same hcall
  have hfresh {key : κ} (hkey : call.newKey = some key) :
      (purge call.now m).lookup key = none := (hknown.purge call.now).fresh hcall hkey
  unfold transaction statements reference
  obtain ⟨operation, now⟩ := call
  cases operation with
  | create key value =>
    obtain ⟨record, rfl⟩ := hcall.text key value rfl
    have hkey := hfresh rfl
    simp only [hsame.size, principalOf_dumps]
    by_cases hfull : Table.size (SessionBackends.purge now m) ≥ c.maxSessions
    · simp only [if_pos hfull]
      exact ⟨rfl, Or.inr ⟨rfl, trivial⟩⟩
    · simp only [if_neg hfull, insertInto, if_neg (hsame.notMem hkey)]
      exact ⟨rfl, Or.inl (hsame.insert key _)⟩
  | get key =>
    simp only [hsame key]
    cases (SessionBackends.purge now m).lookup key with
    | none => exact ⟨rfl, Or.inl hsame⟩
    | some e => exact ⟨rfl, Or.inl hsame⟩
  | destroy key =>
    refine ⟨rfl, Or.inl fun k => ?_⟩
    refine (lookup_deleteKey (d.name key) _ (d.name k)).trans ?_
    exact hsame.erase key k
  | rotate key newKey =>
    have hnew := hfresh rfl
    cases hkey : (SessionBackends.purge now m).lookup key with
    | none =>
      simp only [updateKey, hsame key, hkey]
      refine ⟨?_, Or.inl hsame⟩
      exact congrArg (fun b => Except.ok (Reply.rotated b)) (d.truthy 0 (by omega))
    | some e =>
      have hfree : ¬ (d.name newKey ≠ d.name key ∧ d.name newKey ∈ _) :=
        fun h => hsame.notMem hnew h.2
      simp only [updateKey, hsame key, hkey, if_neg hfree]
      refine ⟨?_, Or.inl ((hsame.erase key).insert newKey e)⟩
      exact congrArg (fun b => Except.ok (Reply.rotated b)) (d.truthy 1 (by omega))
  | revoke principal =>
    have hmine (key : κ) : d.mine (d.name key) = true := (d.mine_iff _).mpr ⟨key, rfl⟩
    refine ⟨?_, Or.inl (hsame.deleteWhere fun k e => ?_)⟩
    · exact congrArg (fun n => Except.ok (Reply.revoked n))
        (hsame.count fun e => e.principal == principal)
    · simp [hmine, bne]

/-- The rows of other stores stay as they are. -/
theorem transaction_other [Add T] {κ' : Type} (d' : Dialect κ' K) (c : Config T)
    (call : Call T κ') (rows : Table K (Entry T)) {k : K} (hk : d'.mine k = false) :
    (transaction d' c call rows).1.lookup k = rows.lookup k := by
  have hname (key : κ') : k ≠ d'.name key := by
    rintro rfl
    exact absurd ((d'.mine_iff _).mpr ⟨key, rfl⟩) (by simp [hk])
  have hkept : (SqlSessions.deleteWhere (fun k row => d'.mine k && row.expiry ≤ call.now)
      rows).lookup k = rows.lookup k := lookup_deleteWhere_of fun row => by simp [hk]
  unfold transaction
  cases hrows : statements d' c call rows with
  | error e => rfl
  | ok result =>
    obtain ⟨rows', answer⟩ := result
    show rows'.lookup k = rows.lookup k
    rw [← hkept]
    unfold statements at hrows
    obtain ⟨operation, now⟩ := call
    cases operation with
    | create key value =>
      dsimp only at hrows
      split_ifs at hrows
      split at hrows
      case h_1 principal _ =>
        cases hinsert : insertInto (d'.name key) ⟨principal, value, now + c.ttl⟩
            (SqlSessions.deleteWhere (fun k row => d'.mine k && row.expiry ≤ now) rows) with
        | error e =>
          rw [hinsert] at hrows
          nomatch hrows
        | ok inserted =>
          rw [hinsert] at hrows
          obtain ⟨rfl, -⟩ := Prod.mk.inj (Except.ok.inj hrows)
          rw [insertInto_ok hinsert, if_neg (hname key)]
      case h_2 => nomatch hrows
    | get key =>
      dsimp only at hrows
      split at hrows
      all_goals
        obtain ⟨rfl, -⟩ := Prod.mk.inj (Except.ok.inj hrows)
        rfl
    | destroy key =>
      obtain ⟨rfl, -⟩ := Prod.mk.inj (Except.ok.inj hrows)
      rw [lookup_deleteKey, AList.lookup_erase_ne (hname key)]
    | rotate key newKey =>
      dsimp only at hrows
      cases hupdate : updateKey (d'.name key) (d'.name newKey)
          (SqlSessions.deleteWhere (fun k row => d'.mine k && row.expiry ≤ now) rows) with
      | error e =>
        rw [hupdate] at hrows
        nomatch hrows
      | ok updated =>
        rw [hupdate] at hrows
        obtain ⟨rfl, -⟩ := Prod.mk.inj (Except.ok.inj hrows)
        obtain ⟨-, hsame, -⟩ | ⟨row, -, -, hlookup⟩ := updateKey_ok hupdate
        · rw [hsame]
        · rw [hlookup, if_neg (hname newKey), if_neg (hname key)]
    | revoke principal =>
      obtain ⟨rfl, -⟩ := Prod.mk.inj (Except.ok.inj hrows)
      exact lookup_deleteWhere_of fun row => by simp [hk]

/-- How the rows of a store and the reference are related after the past calls. -/
def Related (d : Dialect κ K) (past : List (Call T κ)) (rows : Table K (Entry T))
    (m : Table κ (Entry T)) : Prop :=
  Agrees d past rows m ∧ AllKnown past m

theorem Related.next [Add T] (h : Related d past rows m) (c : Config T)
    (hcall : Admissible past call) :
    Related d (past ++ [call]) (transaction d c call rows).1 (reference c call m).1 := by
  obtain ⟨hagrees, hknown⟩ := h
  refine ⟨?_, hknown.next hcall c⟩
  obtain ⟨-, hsame | ⟨hrows, hm⟩⟩ := transaction_spec c hagrees hknown hcall
  · exact hsame.agrees
  · rw [hrows, hm]
    exact hagrees.purge

theorem related_nil : Related d [] (∅ : Table K (Entry T)) ∅ :=
  ⟨Same.agrees fun _ => rfl, allKnown_nil⟩

theorem sqlite_simulates [Add T] (c : Config T) :
    Answering.Simulates (transaction (sqlite κ) c) some (reference c) (Related (sqlite κ))
      Admissible where
  answer past rows m e call he h hcall := by
    obtain rfl := Option.some.inj he
    exact (transaction_spec c h.1 h.2 hcall).1
  next past rows m e call he h hcall := by
    obtain rfl := Option.some.inj he
    exact h.next c hcall
  other _ _ _ _ he := nomatch he

theorem sqlite_answers [Add T] (c : Config T) {calls : List (Call T κ)} (h : History calls) :
    Answering.answers (transaction (sqlite κ) c) some ∅ calls =
      Answering.answers (reference c) some ∅ calls := by
  obtain ⟨hanswers, -⟩ := (sqlite_simulates c).run related_nil (by rwa [List.filterMap_some])
  rwa [List.filterMap_some] at hanswers

end

section
variable {T κ ν : Type} [LinearOrder T] [Add T] [DecidableEq κ] [DecidableEq ν]

/-- A database that serves the stores of any number of namespaces. -/
def database (c : ν → Config T) :
    Answering (Table (ν × κ) (Entry T)) (ν × Call T κ) (Except SessionError Reply) :=
  fun e => transaction (postgres κ e.1) (c e.1) e.2

def ofStore (ns : ν) (e : ν × Call T κ) : Option (Call T κ) :=
  if e.1 = ns then some e.2 else none

theorem postgres_simulates (c : ν → Config T) (ns : ν) :
    Answering.Simulates (database c) (ofStore ns) (reference (c ns)) (Related (postgres κ ns))
      Admissible where
  answer past rows m e call he h hcall := by
    obtain ⟨rfl, hcall'⟩ := Option.ite_none_right_eq_some.mp he
    obtain rfl := Option.some.inj hcall'
    exact (transaction_spec (c e.1) h.1 h.2 hcall).1
  next past rows m e call he h hcall := by
    obtain ⟨rfl, hcall'⟩ := Option.ite_none_right_eq_some.mp he
    obtain rfl := Option.some.inj hcall'
    exact h.next (c e.1) hcall
  other past rows m e he h := by
    have hns : ns ≠ e.1 := by
      rintro rfl
      nomatch (if_pos rfl).symm.trans he
    refine ⟨fun now hnow key => ?_, h.2⟩
    have hrow := transaction_other (postgres κ e.1) (c e.1) e.2 rows (k := (ns, key))
      (beq_false_of_ne hns)
    exact (congrArg (Option.filter (Entry.live now)) hrow).trans (h.1 now hnow key)

theorem postgres_answers (c : ν → Config T) (ns : ν) {es : List (ν × Call T κ)}
    (h : History (es.filterMap (ofStore ns))) :
    Answering.answers (database c) (ofStore ns) ∅ es =
      Answering.answers (reference (c ns)) some ∅ (es.filterMap (ofStore ns)) :=
  ((postgres_simulates c ns).run related_nil h).1

end
end WireRpc.SqlSessions
