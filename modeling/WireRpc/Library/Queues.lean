import Mathlib.Data.List.AList
import Mathlib.Tactic

/-!
# Counters and ledgers

A counter maps each element to how often it occurs, and has no entry for one that
does not. A ledger keeps every element that ever entered a queue in order of
admission, with what has become of it: an element leaves the queue at the front or is
discarded from anywhere.
-/
namespace WireRpc.Library

variable {α : Type*}

section Counter
variable [DecidableEq α]

abbrev Counter (α : Type*) := AList fun _ : α => ℤ

namespace Counter

/-- Reading a missing entry gives zero and makes none. -/
def get (c : Counter α) (a : α) : ℤ := (c.lookup a).getD 0

def increment (c : Counter α) (a : α) : Counter α := c.insert a (c.get a + 1)

/-- An entry that falls to zero is deleted. -/
def decrement (c : Counter α) (a : α) : Counter α :=
  if c.get a - 1 = 0 then (c.insert a (c.get a - 1)).erase a else c.insert a (c.get a - 1)

/-- The entry for an element that occurs `n` times. -/
def entry (n : ℕ) : Option ℤ := if n = 0 then none else some n

/-- The counter holds the multiplicities of the list. -/
def Exact [BEq α] (c : Counter α) (l : List α) : Prop := ∀ a, c.lookup a = entry (l.count a)

variable [BEq α]

theorem exact_empty : Exact (∅ : Counter α) [] := fun _ => rfl

section
variable {c : Counter α} {l : List α}

theorem Exact.get (h : Exact c l) (a : α) : c.get a = l.count a := by
  unfold Counter.get
  rw [h a, entry]
  split_ifs with hzero
  · simp [hzero]
  · rfl

/-- No entry of an exact counter is zero. -/
theorem Exact.lookup_ne (h : Exact c l) (a : α) : c.lookup a ≠ some 0 := by
  rw [h a, entry]
  split_ifs with hzero
  · nofun
  · intro hcount
    have := Option.some.inj hcount
    omega

variable [LawfulBEq α]

theorem Exact.increment (h : Exact c l) (a : α) : Exact (c.increment a) (l ++ [a]) := by
  intro b
  unfold Counter.increment
  rw [h.get a, List.count_append]
  by_cases hb : b = a
  · subst hb
    rw [AList.lookup_insert, List.count_singleton_self, entry, if_neg (by omega)]
    push_cast
    rfl
  · have habsent : b ∉ [a] := by simpa using hb
    rw [AList.lookup_insert_ne hb, h b, List.count_eq_zero_of_not_mem habsent]
    rfl

theorem Exact.decrement {a : α} (h : Exact c (a :: l)) : Exact (c.decrement a) l := by
  intro b
  have hget : c.get a - 1 = (l.count a : ℤ) := by
    rw [h.get a, List.count_cons_self]
    omega
  unfold Counter.decrement
  rw [hget]
  by_cases hb : b = a
  · subst hb
    split_ifs with hzero
    · rw [AList.lookup_erase, entry, if_pos (by exact_mod_cast hzero)]
    · rw [AList.lookup_insert, entry, if_neg (by exact_mod_cast hzero)]
  · have hrest : c.lookup b = entry (l.count b) := by
      rw [h b, List.count_cons_of_ne (Ne.symm hb)]
    split_ifs with hzero
    · rw [AList.lookup_erase_ne hb, AList.lookup_insert_ne hb, hrest]
    · rw [AList.lookup_insert_ne hb, hrest]

/-- Deleting an entry is dropping all occurrences of its element. -/
theorem Exact.erase (h : Exact c l) (a : α) : Exact (AList.erase a c) (l.filter (· ≠ a)) := by
  intro b
  by_cases hb : b = a
  · subst hb
    rw [AList.lookup_erase, List.count_eq_zero_of_not_mem (by simp), entry, if_pos rfl]
  · rw [AList.lookup_erase_ne hb, h b, List.count_filter (by simpa using hb)]

end

end Counter
end Counter

/-- What has become of an element that was admitted. -/
inductive Fate where
  | queued
  | taken
  | discarded
  deriving DecidableEq

/-- The elements in the order of their admission. -/
abbrev Ledger (α : Type*) := List (α × Fate)

namespace Ledger

/-- The elements that met one of the fates. -/
def having (p : Fate → Prop) [DecidablePred p] (l : Ledger α) : List α :=
  (l.filter fun e => p e.2).map Prod.fst

def queued (l : Ledger α) : List α := having (· = .queued) l

def taken (l : Ledger α) : List α := having (· = .taken) l

/-- The admitted elements minus the discarded ones. -/
def kept (l : Ledger α) : List α := having (· ≠ .discarded) l

def enter (l : Ledger α) (a : α) : Ledger α := l ++ [(a, .queued)]

/-- The oldest queued element is taken. -/
def take : Ledger α → Ledger α
  | [] => []
  | (a, .queued) :: l => (a, .taken) :: l
  | e :: l => e :: take l

/-- All queued elements with the property are discarded. -/
def discard (p : α → Prop) [DecidablePred p] (l : Ledger α) : Ledger α :=
  l.map fun e => if e.2 = .queued ∧ p e.1 then (e.1, .discarded) else e

/-- Nothing was taken that was admitted after something still queued. -/
def InOrder (l : Ledger α) : Prop :=
  l.Pairwise fun e f => e.2 = .queued → f.2 ≠ .taken

section
variable {l : Ledger α} {a : α}

theorem having_cons_of {p : Fate → Prop} [DecidablePred p] {f : Fate} (hf : p f) (a : α)
    (l : Ledger α) : having p ((a, f) :: l) = a :: having p l := by
  unfold having
  rw [List.filter_cons_of_pos (by simpa using hf), List.map_cons]

theorem having_cons_of_not {p : Fate → Prop} [DecidablePred p] {f : Fate} (hf : ¬ p f) (a : α)
    (l : Ledger α) : having p ((a, f) :: l) = having p l := by
  unfold having
  rw [List.filter_cons_of_neg (by simpa using hf)]

@[simp] theorem queued_cons_queued (a : α) (l : Ledger α) :
    queued ((a, .queued) :: l) = a :: queued l := having_cons_of (p := (· = .queued)) rfl a l

@[simp] theorem queued_cons_taken (a : α) (l : Ledger α) :
    queued ((a, .taken) :: l) = queued l := having_cons_of_not nofun a l

@[simp] theorem queued_cons_discarded (a : α) (l : Ledger α) :
    queued ((a, .discarded) :: l) = queued l := having_cons_of_not nofun a l

@[simp] theorem taken_cons_queued (a : α) (l : Ledger α) :
    taken ((a, .queued) :: l) = taken l := having_cons_of_not nofun a l

@[simp] theorem taken_cons_taken (a : α) (l : Ledger α) :
    taken ((a, .taken) :: l) = a :: taken l := having_cons_of (p := (· = .taken)) rfl a l

@[simp] theorem taken_cons_discarded (a : α) (l : Ledger α) :
    taken ((a, .discarded) :: l) = taken l := having_cons_of_not nofun a l

theorem having_enter (p : Fate → Prop) [DecidablePred p] (l : Ledger α) (a : α) :
    having p (enter l a) = having p l ++ if p .queued then [a] else [] := by
  unfold having enter
  rw [List.filter_append, List.map_append]
  congr 1
  by_cases hp : p .queued <;> simp [hp]

@[simp] theorem queued_enter (l : Ledger α) (a : α) : queued (enter l a) = queued l ++ [a] :=
  having_enter _ l a

@[simp] theorem taken_enter (l : Ledger α) (a : α) : taken (enter l a) = taken l := by
  unfold taken
  rw [having_enter, if_neg (by decide), List.append_nil]

theorem InOrder.enter (h : InOrder l) (a : α) : InOrder (l.enter a) := by
  apply List.pairwise_append.mpr
  refine ⟨h, List.pairwise_singleton _ _, fun e _ f hf _ => ?_⟩
  obtain rfl := List.mem_singleton.mp hf
  nofun

theorem taken_eq_nil (h : ∀ f ∈ l, f.2 ≠ .taken) : taken l = [] := by
  unfold taken having
  rw [List.filter_eq_nil_iff.mpr (by simpa using h), List.map_nil]

/-- Taking from an ordered ledger takes the oldest queued element, and that one goes
behind all that were taken before. -/
theorem InOrder.taken_take {q : List α} (h : InOrder l) (hq : queued l = a :: q) :
    queued (take l) = q ∧ taken (take l) = taken l ++ [a] := by
  induction l with
  | nil => nomatch hq
  | cons e l ih =>
    obtain ⟨b, f⟩ := e
    obtain ⟨hhead, hrest⟩ := List.pairwise_cons.mp h
    cases f with
    | queued =>
      obtain ⟨rfl, rfl⟩ := List.cons.inj ((queued_cons_queued b l).symm.trans hq)
      have hnone : taken l = [] := taken_eq_nil fun f hf => hhead f hf rfl
      simp [Ledger.take, hnone]
    | taken =>
      obtain ⟨hqueued, htaken⟩ := ih hrest ((queued_cons_taken b l).symm.trans hq)
      simp [Ledger.take, hqueued, htaken]
    | discarded =>
      obtain ⟨hqueued, htaken⟩ := ih hrest ((queued_cons_discarded b l).symm.trans hq)
      simp [Ledger.take, hqueued, htaken]

theorem InOrder.take (h : InOrder l) : InOrder (take l) := by
  induction l with
  | nil => exact h
  | cons e l ih =>
    obtain ⟨b, f⟩ := e
    obtain ⟨hhead, hrest⟩ := List.pairwise_cons.mp h
    cases f with
    | queued => exact List.pairwise_cons.mpr ⟨nofun, hrest⟩
    | taken | discarded => exact List.pairwise_cons.mpr ⟨nofun, ih hrest⟩

end

section
variable (p : α → Prop) [DecidablePred p] {l : Ledger α}

@[simp] theorem queued_discard (l : Ledger α) :
    queued (discard p l) = (queued l).filter (¬ p ·) := by
  induction l with
  | nil => rfl
  | cons e l ih =>
    obtain ⟨a, f⟩ := e
    cases f <;> by_cases hp : p a <;> simp_all [discard]

@[simp] theorem taken_discard (l : Ledger α) : taken (discard p l) = taken l := by
  induction l with
  | nil => rfl
  | cons e l ih =>
    obtain ⟨a, f⟩ := e
    cases f <;> by_cases hp : p a <;> simp_all [discard]

theorem InOrder.discard (h : InOrder l) : InOrder (l.discard p) := by
  apply List.Pairwise.map _ _ h
  intro e f hef
  split_ifs with he hf hf
  · nofun
  · nofun
  · intro _
    nofun
  · exact hef

end

/-- In an ordered ledger the kept elements are those taken and then those queued. -/
theorem InOrder.kept_eq {l : Ledger α} (h : InOrder l) : kept l = taken l ++ queued l := by
  induction l with
  | nil => rfl
  | cons e l ih =>
    obtain ⟨a, f⟩ := e
    obtain ⟨hhead, hrest⟩ := List.pairwise_cons.mp h
    have ih := ih hrest
    cases f with
    | queued =>
      have hnone : taken l = [] := taken_eq_nil fun f hf => hhead f hf rfl
      rw [hnone, List.nil_append] at ih
      rw [queued_cons_queued, taken_cons_queued, hnone, List.nil_append, ← ih]
      exact having_cons_of nofun a l
    | taken =>
      rw [queued_cons_taken, taken_cons_taken, List.cons_append, ← ih]
      exact having_cons_of nofun a l
    | discarded =>
      rw [queued_cons_discarded, taken_cons_discarded, ← ih]
      exact having_cons_of_not (fun h => h rfl) a l

end Ledger
end WireRpc.Library
