import WireRpc.MemorySessions
import WireRpc.Library.Simulation

/-!
# What session backends have in common

The reference that the backends are measured against is a finite map from keys to principal,
value and expiry, from which each operation first deletes every entry that is due. A call of
`_execute` carries the reading of the clock that it makes. Calls are atomic.
-/
namespace WireRpc.SessionBackends
open Library Sessions MemorySessions

/-- What a driver returns: `None`, a text, a truth value or a number. -/
inductive Answer where
  | none
  | text (value : Bytes)
  | flag (b : Bool)
  | number (n : ℤ)
  deriving DecidableEq

def Answer.truthy : Answer → Bool
  | .none => false
  | .text value => value != []
  | .flag b => b
  | .number n => n != 0

/-- What the callers of `_execute` make of it. -/
def reply {κ : Type} : Operation κ → Answer → Reply
  | .create _ _, _ => .done
  | .get _, .text value => .found (some value)
  | .get _, _ => .found none
  | .destroy _, _ => .done
  | .rotate _ _, answer => .rotated answer.truthy
  | .revoke _, .number n => .revoked n.toNat
  | .revoke _, _ => .revoked 0

structure Call (T κ : Type) where
  operation : Operation κ
  now : T

/-- The key that an operation brings in. -/
def Call.newKey {T κ : Type} (call : Call T κ) : Option κ :=
  match call.operation with
  | .create key _ => some key
  | .rotate _ newKey => some newKey
  | _ => none

structure Entry (T : Type) where
  principal : String
  value : Bytes
  expiry : T

section
variable {T κ : Type} [LinearOrder T] [DecidableEq κ]

def Entry.live (now : T) (e : Entry T) : Bool := now < e.expiry

def purge (now : T) (m : Table κ (Entry T)) : Table κ (Entry T) :=
  Table.keep (fun _ e => e.live now) m

/-- The reference. -/
def reference [Add T] (c : Config T) :
    Answering (Table κ (Entry T)) (Call T κ) (Except SessionError Reply) := fun call m =>
  let m := purge call.now m
  match call.operation with
  | .create key value =>
    if Table.size m ≥ c.maxSessions then (m, .error .capacity)
    else
      match principalOf value with
      | some principal => (m.insert key ⟨principal, value, call.now + c.ttl⟩, .ok .done)
      | none => (m, .error .unavailable)
  | .get key => (m, .ok (.found ((m.lookup key).map Entry.value)))
  | .destroy key => (m.erase key, .ok .done)
  | .rotate key newKey =>
    match m.lookup key with
    | some e => ((m.erase key).insert newKey e, .ok (.rotated true))
    | none => (m, .ok (.rotated false))
  | .revoke principal =>
    (Table.keep (fun _ e => e.principal != principal) m,
      .ok (.revoked (Table.count (fun _ e => e.principal == principal) m)))

/-- A call after others: the clock has not gone back, a new key is one that was never used,
and what is created is the text of a record. -/
structure Admissible (past : List (Call T κ)) (call : Call T κ) : Prop where
  later : ∀ earlier ∈ past, earlier.now ≤ call.now
  fresh : ∀ key, call.newKey = some key → ∀ earlier ∈ past, earlier.newKey ≠ some key
  text : ∀ key value, call.operation = .create key value →
    ∃ record : SessionRecord, value = record.dumps

/-- The calls of the users of one store, in the order in which they are executed. -/
def History (calls : List (Call T κ)) : Prop :=
  AtEach (fun past call _ => Admissible past call) calls

omit [DecidableEq κ] in
theorem History.of_append {past rest : List (Call T κ)} (h : History (past ++ rest)) :
    History past :=
  AtEach.of_append h

theorem lookup_purge (now : T) (m : Table κ (Entry T)) (key : κ) :
    (purge now m).lookup key = (m.lookup key).filter (Entry.live now) :=
  Table.lookup_keep _ _ _

theorem Entry.live_of_le {now later : T} (hle : now ≤ later) {e : Entry T}
    (h : e.live later = true) : e.live now = true := by
  simp only [Entry.live, decide_eq_true_eq] at h ⊢
  exact lt_of_le_of_lt hle h

theorem filter_live_of_le {now later : T} (hle : now ≤ later) (o : Option (Entry T)) :
    (o.filter (Entry.live now)).filter (Entry.live later) = o.filter (Entry.live later) := by
  rw [Option.filter_filter]
  congr 1
  funext e
  by_cases hlater : e.live later = true
  · simp [hlater, Entry.live_of_le hle hlater]
  · simp [hlater]

/-- An entry is that of a record, and its key was brought in by a call. -/
structure Known (past : List (Call T κ)) (key : κ) (e : Entry T) : Prop where
  issued : ∃ call ∈ past, call.newKey = some key
  record : ∃ record : SessionRecord, e.value = record.dumps ∧ e.principal = record.principal

def AllKnown (past : List (Call T κ)) (m : Table κ (Entry T)) : Prop :=
  ∀ key e, m.lookup key = some e → Known past key e

variable {past : List (Call T κ)} {call : Call T κ} {m : Table κ (Entry T)}

omit [LinearOrder T] in
theorem allKnown_nil : AllKnown [] (∅ : Table κ (Entry T)) :=
  fun _ _ h => nomatch h

omit [LinearOrder T] [DecidableEq κ] in
theorem Known.append {key : κ} {e : Entry T} (h : Known past key e) :
    Known (past ++ [call]) key e := by
  obtain ⟨earlier, hmem, hkey⟩ := h.issued
  exact ⟨⟨earlier, List.mem_append_left _ hmem, hkey⟩, h.record⟩

theorem AllKnown.purge (h : AllKnown past m) (now : T) : AllKnown past (purge now m) := by
  intro key e he
  rw [lookup_purge, Option.filter_eq_some_iff] at he
  exact h key e he.1

/-- A new key has no entry. -/
theorem AllKnown.fresh (h : AllKnown past m) (hcall : Admissible past call) {key : κ}
    (hkey : call.newKey = some key) : m.lookup key = none := by
  apply Option.eq_none_iff_forall_ne_some.mpr
  intro e he
  obtain ⟨earlier, hmem, hsame⟩ := (h key e he).issued
  exact hcall.fresh key hkey earlier hmem hsame

variable [Add T]

/-- After a call each entry is an old one, or it came with the call. -/
theorem reference_lookup (c : Config T) {key : κ} {e : Entry T}
    (h : ((reference c call m).1).lookup key = some e) :
    (purge call.now m).lookup key = some e ∨ call.newKey = some key ∧
      ((∃ old, (purge call.now m).lookup old = some e) ∨
        call.operation = .create key e.value ∧ principalOf e.value = some e.principal) := by
  obtain ⟨operation, now⟩ := call
  cases operation with
  | create newKey value =>
    simp only [reference] at h
    split_ifs at h
    · exact Or.inl h
    · split at h
      case h_1 principal hprincipal =>
        by_cases hkey : key = newKey
        · subst hkey
          rw [AList.lookup_insert] at h
          obtain rfl := Option.some.inj h
          exact Or.inr ⟨rfl, Or.inr ⟨rfl, hprincipal⟩⟩
        · rw [AList.lookup_insert_ne hkey] at h
          exact Or.inl h
      case h_2 => exact Or.inl h
  | get oldKey => exact Or.inl h
  | destroy oldKey =>
    by_cases hkey : key = oldKey
    · subst hkey
      nomatch (AList.lookup_erase ..).symm.trans h
    · exact Or.inl ((AList.lookup_erase_ne hkey).symm.trans h)
  | rotate oldKey newKey =>
    simp only [reference] at h
    split at h
    case h_1 e' he' =>
      by_cases hkey : key = newKey
      · subst hkey
        rw [AList.lookup_insert] at h
        obtain rfl := Option.some.inj h
        exact Or.inr ⟨rfl, Or.inl ⟨oldKey, he'⟩⟩
      · rw [AList.lookup_insert_ne hkey] at h
        by_cases hkey' : key = oldKey
        · subst hkey'
          nomatch (AList.lookup_erase ..).symm.trans h
        · exact Or.inl ((AList.lookup_erase_ne hkey').symm.trans h)
    case h_2 => exact Or.inl h
  | revoke principal =>
    have hkept := (Table.lookup_keep _ _ _).symm.trans h
    exact Or.inl (Option.filter_eq_some_iff.mp hkept).1

theorem AllKnown.next (h : AllKnown past m) (hcall : Admissible past call) (c : Config T) :
    AllKnown (past ++ [call]) (reference c call m).1 := by
  intro key e he
  have hpurged := h.purge call.now
  obtain hold | ⟨hkey, hnew⟩ := reference_lookup c he
  · exact (hpurged key e hold).append
  · refine ⟨⟨call, by simp, hkey⟩, ?_⟩
    obtain ⟨old, hold⟩ | ⟨hcreate, hprincipal⟩ := hnew
    · exact (hpurged old e hold).record
    · obtain ⟨record, hrecord⟩ := hcall.text key e.value hcreate
      rw [hrecord, principalOf_dumps] at hprincipal
      exact ⟨record, hrecord, (Option.some.inj hprincipal).symm⟩

end
end WireRpc.SessionBackends
