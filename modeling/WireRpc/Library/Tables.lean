import Mathlib.Data.List.AList
import Mathlib.Tactic

/-!
# Tables

A table is a finite map, an association list with distinct keys. Two tables that answer every
lookup alike are the same to whoever uses them: what is kept of them answers alike, and they
have the same size.
-/
namespace WireRpc.Library

abbrev Table (κ α : Type*) := AList fun _ : κ => α

namespace Table

variable {κ α β : Type*}

/-- The entries that pass a test. -/
def keep (p : κ → α → Bool) (m : Table κ α) : Table κ α where
  entries := m.entries.filter fun e => p e.1 e.2
  nodupKeys := m.nodupKeys.sublist List.filter_sublist

def size (m : Table κ α) : ℕ := m.entries.length

/-- How many entries pass a test. -/
def count (p : κ → α → Bool) (m : Table κ α) : ℕ := size (keep p m)

theorem size_eq_keys (m : Table κ α) : size m = m.keys.length := (List.length_map _).symm

theorem size_keep_le (p : κ → α → Bool) (m : Table κ α) : size (keep p m) ≤ size m :=
  List.length_filter_le _ _

/-- Tables with the same keys have the same size. -/
theorem size_congr {m : Table κ α} {m' : Table κ β} (h : ∀ k, k ∈ m ↔ k ∈ m') :
    size m = size m' := by
  rw [size_eq_keys, size_eq_keys]
  exact ((List.perm_ext_iff_of_nodup m.keys_nodup m'.keys_nodup).mpr h).length_eq

theorem size_le {m : Table κ α} {m' : Table κ β} (h : ∀ k, k ∈ m → k ∈ m') :
    size m ≤ size m' := by
  rw [size_eq_keys, size_eq_keys]
  exact (List.subperm_of_subset m.keys_nodup h).length_le

/-- Tables whose keys correspond to each other have the same size. -/
theorem size_eq_of_name {κ' : Type*} {name : κ → κ'} (hname : Function.Injective name)
    {m : Table κ' α} {m' : Table κ β} (hsame : ∀ k, name k ∈ m ↔ k ∈ m')
    (hnamed : ∀ k' ∈ m, ∃ k, name k = k') : size m = size m' := by
  have hnodup : (m'.keys.map name).Nodup := m'.keys_nodup.map hname
  have hperm : m.keys.Perm (m'.keys.map name) := by
    apply (List.perm_ext_iff_of_nodup m.keys_nodup hnodup).mpr
    intro k'
    rw [List.mem_map]
    constructor
    · intro hk'
      obtain ⟨k, rfl⟩ := hnamed k' hk'
      exact ⟨k, (hsame k).mp hk', rfl⟩
    · rintro ⟨k, hk, rfl⟩
      exact (hsame k).mpr hk
  rw [size_eq_keys, size_eq_keys, hperm.length_eq, List.length_map]

variable [DecidableEq κ]

theorem lookup_keep (p : κ → α → Bool) (m : Table κ α) (k : κ) :
    (keep p m).lookup k = (m.lookup k).filter (p k) := by
  ext a
  rw [Option.filter_eq_some_iff]
  show a ∈ (keep p m).lookup k ↔ a ∈ m.lookup k ∧ p k a = true
  rw [AList.mem_lookup_iff, AList.mem_lookup_iff]
  exact List.mem_filter

theorem mem_of_lookup {m : Table κ α} {k : κ} {a : α} (h : m.lookup k = some a) : k ∈ m :=
  AList.lookup_isSome.mp (Option.isSome_of_eq_some h)

theorem mem_congr {m : Table κ α} {m' : Table κ β} {k : κ}
    (h : (m.lookup k).isSome = (m'.lookup k).isSome) : k ∈ m ↔ k ∈ m' := by
  rw [← AList.lookup_isSome, ← AList.lookup_isSome, h]

theorem count_congr {p : κ → α → Bool} {q : κ → β → Bool} {m : Table κ α} {m' : Table κ β}
    (h : ∀ k, ((m.lookup k).filter (p k)).isSome = ((m'.lookup k).filter (q k)).isSome) :
    count p m = count q m' := by
  apply size_congr
  intro k
  apply mem_congr
  rw [lookup_keep, lookup_keep, h]

theorem count_eq_of_name {κ' : Type*} [DecidableEq κ'] {name : κ → κ'}
    (hname : Function.Injective name) {p : κ' → α → Bool} {q : κ → β → Bool} {m : Table κ' α}
    {m' : Table κ β}
    (h : ∀ k, ((m.lookup (name k)).filter (p (name k))).isSome =
      ((m'.lookup k).filter (q k)).isSome)
    (hnamed : ∀ k' a, p k' a = true → ∃ k, name k = k') : count p m = count q m' := by
  apply size_eq_of_name hname
  · intro k
    rw [← AList.lookup_isSome, ← AList.lookup_isSome, lookup_keep, lookup_keep, h]
  · intro k' hk'
    obtain ⟨a, ha⟩ := Option.isSome_iff_exists.mp (AList.lookup_isSome.mpr hk')
    rw [lookup_keep, Option.filter_eq_some_iff] at ha
    exact hnamed k' a ha.2

theorem size_insert {m : Table κ α} {k : κ} (h : k ∉ m) (a : α) :
    size (m.insert k a) = size m + 1 := by
  unfold size
  rw [AList.entries_insert_of_notMem h, List.length_cons]

/-- An entry that moves to a new key leaves the size as it is. -/
theorem size_rename {m : Table κ α} {k k' : κ} (hk : k ∈ m) (hk' : k' ∉ m.erase k) (a : α) :
    size ((m.erase k).insert k' a) = size m := by
  have hlength : (m.keys.erase k).length = m.keys.length - 1 :=
    List.length_erase_of_mem (AList.mem_keys.mp hk)
  have hpos : 0 < m.keys.length := List.length_pos_of_mem (AList.mem_keys.mp hk)
  rw [size_insert hk', size_eq_keys, size_eq_keys, AList.keys_erase]
  omega

/-- The entries of `m'`, and those of `m` under other keys. -/
def update (m m' : Table κ α) : Table κ α := m' ∪ m

theorem lookup_update (m m' : Table κ α) (k : κ) :
    (update m m').lookup k = (m'.lookup k).or (m.lookup k) := by
  unfold update
  by_cases h : k ∈ m'
  · obtain ⟨a, ha⟩ := Option.isSome_iff_exists.mp (AList.lookup_isSome.mpr h)
    rw [AList.lookup_union_left h, ha, Option.some_or]
  · rw [AList.lookup_union_right h, AList.lookup_eq_none.mpr h, Option.none_or]

/-- Under each key of the list, and under no other, the table has one of the values listed. -/
def Lists (m : Table κ α) (l : List (κ × α)) : Prop :=
  ∀ k, match m.lookup k with
    | some a => (k, a) ∈ l
    | none => k ∉ l.map Prod.fst

namespace Lists

variable {m m' : Table κ α} {l l' : List (κ × α)}

theorem empty : Lists (∅ : Table κ α) [] := by
  intro k
  rw [AList.lookup_empty]
  exact List.not_mem_nil

theorem update (h : Lists m l) (h' : Lists m' l') : Lists (Table.update m m') (l ++ l') := by
  intro k
  have hm := h k
  have hm' := h' k
  rw [lookup_update]
  cases hk' : m'.lookup k with
  | some a =>
    rw [hk'] at hm'
    exact List.mem_append_right _ hm'
  | none =>
    rw [hk'] at hm'
    rw [Option.none_or]
    cases hk : m.lookup k with
    | some a =>
      rw [hk] at hm
      exact List.mem_append_left _ hm
    | none =>
      rw [hk] at hm
      rw [List.map_append, List.mem_append]
      exact not_or.mpr ⟨hm, hm'⟩

theorem insert (h : Lists m l) (k : κ) (a : α) : Lists (m.insert k a) (l ++ [(k, a)]) := by
  intro k'
  have hm := h k'
  by_cases hk : k' = k
  · subst hk
    rw [AList.lookup_insert]
    exact List.mem_append_right _ (List.mem_singleton_self _)
  · rw [AList.lookup_insert_ne hk]
    cases hlookup : m.lookup k' with
    | some a' =>
      rw [hlookup] at hm
      exact List.mem_append_left _ hm
    | none =>
      rw [hlookup] at hm
      rw [List.map_append, List.mem_append]
      exact not_or.mpr ⟨hm, by simpa using hk⟩

theorem mem_iff (h : Lists m l) (k : κ) : k ∈ m ↔ k ∈ l.map Prod.fst := by
  have hm := h k
  rw [← AList.lookup_isSome]
  cases hk : m.lookup k with
  | some a =>
    rw [hk] at hm
    exact iff_of_true rfl (List.mem_map_of_mem hm)
  | none =>
    rw [hk] at hm
    exact iff_of_false Bool.false_ne_true hm

/-- Where no key is listed twice, the table has the value that is listed. -/
theorem lookup_eq (h : Lists m l) (hnodup : (l.map Prod.fst).Nodup) {k : κ} {a : α}
    (hmem : (k, a) ∈ l) : m.lookup k = some a := by
  have hm := h k
  cases hk : m.lookup k with
  | some a' =>
    rw [hk] at hm
    obtain rfl : a' = a := congrArg Prod.snd (List.inj_on_of_nodup_map hnodup hm hmem rfl)
    rfl
  | none =>
    rw [hk] at hm
    exact absurd (List.mem_map_of_mem hmem) hm

end Lists

/-- The entries of some keys go. -/
def eraseAll (ks : List κ) (m : Table κ α) : Table κ α := ks.foldl (fun m k => m.erase k) m

theorem lookup_eraseAll (ks : List κ) (m : Table κ α) (k : κ) :
    (eraseAll ks m).lookup k = if k ∈ ks then none else m.lookup k := by
  induction ks generalizing m with
  | nil => simp [eraseAll]
  | cons k' ks ih =>
    show (eraseAll ks (m.erase k')).lookup k = _
    rw [ih]
    by_cases hk : k = k'
    · subst hk
      simp
    · simp [hk, AList.lookup_erase_ne hk]

theorem mem_keys_keep {p : κ → α → Bool} {m : Table κ α} {k : κ} :
    k ∈ (keep p m).keys ↔ ∃ a, m.lookup k = some a ∧ p k a = true := by
  rw [← AList.mem_keys, ← AList.lookup_isSome, lookup_keep, Option.isSome_iff_exists]
  simp only [Option.filter_eq_some_iff]

end Table
end WireRpc.Library
