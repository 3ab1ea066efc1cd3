import Mathlib.Tactic

/-!
# Lists

`mapM` over `Option` succeeds with exactly the list of the single results. A list may be cut
behind the first element that passes a test. It is grouped when its equal elements stand next to
each other. What holds at each place of a list relates an element to what stands before and
after it.
-/
namespace WireRpc.Library

variable {α β : Type*}

theorem mapM_eq_some_iff {f : α → Option β} {xs : List α} {ys : List β} :
    xs.mapM f = some ys ↔ List.Forall₂ (fun x y => f x = some y) xs ys := by
  induction xs generalizing ys with
  | nil => simp [eq_comm]
  | cons x xs ih =>
    simp only [List.mapM_cons, Option.bind_eq_bind, Option.bind_eq_some_iff, Option.pure_def,
      Option.some.injEq, ih, List.forall₂_cons_left_iff]
    constructor
    · rintro ⟨y, hy, ys, hys, rfl⟩
      exact ⟨y, ys, hy, hys, rfl⟩
    · rintro ⟨y, ys, hy, hys, rfl⟩
      exact ⟨y, hy, ys, hys, rfl⟩

/-- `mapM` succeeds when every single call does. -/
theorem exists_mapM_eq_some {f : α → Option β} {xs : List α} (h : ∀ x ∈ xs, (f x).isSome) :
    ∃ ys, xs.mapM f = some ys := by
  induction xs with
  | nil => exact ⟨[], rfl⟩
  | cons x xs ih =>
    obtain ⟨y, hy⟩ := Option.isSome_iff_exists.mp (h x (by simp))
    obtain ⟨ys, hys⟩ := ih fun z hz => h z (List.mem_cons_of_mem _ hz)
    exact ⟨y :: ys, by simp [hy, hys]⟩

theorem forall₂_exists_left {R : α → β → Prop} {xs : List α} {ys : List β}
    (h : List.Forall₂ R xs ys) {y : β} (hy : y ∈ ys) : ∃ x ∈ xs, R x y := by
  induction h with
  | nil => cases hy
  | @cons x z xs ys hz _ ih =>
    obtain rfl | hy := List.mem_cons.mp hy
    · exact ⟨x, by simp, hz⟩
    · obtain ⟨x', hx', hr⟩ := ih hy
      exact ⟨x', List.mem_cons_of_mem _ hx', hr⟩

theorem forall₂_exists_right {R : α → β → Prop} {xs : List α} {ys : List β}
    (h : List.Forall₂ R xs ys) {x : α} (hx : x ∈ xs) : ∃ y ∈ ys, R x y :=
  forall₂_exists_left h.flip hx

theorem nodup_eraseDups [DecidableEq α] (l : List α) : l.eraseDups.Nodup := by
  induction hn : l.length using Nat.strong_induction_on generalizing l with
  | _ n ih =>
    cases l with
    | nil => exact List.nodup_nil
    | cons a l =>
      rw [List.eraseDups_cons, List.nodup_cons]
      constructor
      · rw [List.mem_eraseDups]
        simp
      · apply ih _ _ _ rfl
        have hle := List.length_filter_le (fun b => !b == a) l
        rw [List.length_cons] at hn
        omega

/-- The elements up to the first that passes the test, which is the last of them. -/
def throughFirst (stop : α → Bool) : List α → List α
  | [] => []
  | a :: l => if stop a then [a] else a :: throughFirst stop l

theorem throughFirst_starts (stop : α → Bool) (l : List α) : throughFirst stop l <+: l := by
  induction l with
  | nil => exact List.prefix_refl []
  | cons a l ih =>
    unfold throughFirst
    split_ifs
    · exact List.cons_prefix_cons.mpr ⟨rfl, List.nil_prefix⟩
    · exact List.cons_prefix_cons.mpr ⟨rfl, ih⟩

/-- Nothing is left out exactly when no element but the last passes the test. -/
theorem throughFirst_eq_self {stop : α → Bool} {l : List α} :
    throughFirst stop l = l ↔ ∀ a ∈ l.dropLast, stop a = false := by
  induction l with
  | nil => simp [throughFirst]
  | cons a l ih =>
    cases l with
    | nil => simp [throughFirst]
    | cons b l =>
      rw [throughFirst, List.dropLast_cons_cons, List.forall_mem_cons, ← ih]
      cases hstop : stop a with
      | true => simp
      | false => simp

theorem filter_throughFirst (stop : α → Bool) (l : List α) :
    (throughFirst stop l).filter (fun a => !stop a) = l.takeWhile fun a => !stop a := by
  induction l with
  | nil => rfl
  | cons a l ih =>
    cases hstop : stop a with
    | true => simp [throughFirst, hstop]
    | false => simp [throughFirst, hstop, ih]

/-- Between two equal elements there is no other one. -/
def Grouped (l : List α) : Prop :=
  ∀ (i j k : ℕ) (a : α), i ≤ j → j ≤ k → l[i]? = some a → l[k]? = some a → l[j]? = some a

/-- From its first place on the list holds nothing but `a`. -/
def EndsWith (l : List α) (a : α) : Prop :=
  ∀ (i j : ℕ) (b : α), i ≤ j → l[i]? = some a → l[j]? = some b → b = a

theorem grouped_nil : Grouped ([] : List α) := by
  intro i j k a _ _ hi _
  simp at hi

theorem endsWith_of_notMem {l : List α} {a : α} (h : a ∉ l) : EndsWith l a :=
  fun _ _ _ _ hi _ => absurd (List.mem_of_getElem? hi) h

theorem EndsWith.concat {l : List α} {a : α} (h : EndsWith l a) : EndsWith (l ++ [a]) a := by
  intro i j b hij hi hj
  rw [List.getElem?_append] at hj
  split_ifs at hj with hlt
  · rw [List.getElem?_append_left (Nat.lt_of_le_of_lt hij hlt)] at hi
    exact h i j b hij hi hj
  · exact List.mem_singleton.mp (List.mem_of_getElem? hj)

/-- An element may be added behind its own group. -/
theorem Grouped.concat {l : List α} {a : α} (h : Grouped l) (ha : EndsWith l a) :
    Grouped (l ++ [a]) := by
  intro i j k b hij hjk hi hk
  rw [List.getElem?_append] at hk
  split_ifs at hk with hlt
  · have hj := Nat.lt_of_le_of_lt hjk hlt
    rw [List.getElem?_append_left (Nat.lt_of_le_of_lt hij hj)] at hi
    rw [List.getElem?_append_left hj]
    exact h i j k b hij hjk hi hk
  · obtain rfl := List.mem_singleton.mp (List.mem_of_getElem? hk)
    have hlen : k < (l ++ [b]).length := by
      have := (List.getElem?_eq_some_iff.mp hk).1
      simp only [List.length_append, List.length_singleton] at this ⊢
      omega
    have hj : j < (l ++ [b]).length := Nat.lt_of_le_of_lt hjk hlen
    rw [List.getElem?_eq_getElem hj]
    exact congrArg some (ha.concat i j _ hij hi (List.getElem?_eq_getElem hj))

/-- At each place the element stands in the relation to what is before and after it. -/
def AtEach (P : List α → α → List α → Prop) (l : List α) : Prop :=
  ∀ before a after, l = before ++ a :: after → P before a after

theorem atEach_nil (P : List α → α → List α → Prop) : AtEach P [] := by
  intro before a after h
  exact absurd h.symm (by simp)

theorem atEach_cons {P : List α → α → List α → Prop} {a : α} {l : List α} :
    AtEach P (a :: l) ↔ P [] a l ∧ AtEach (fun before => P (a :: before)) l := by
  constructor
  · intro h
    refine ⟨h [] a l rfl, fun before b after hl => ?_⟩
    exact h (a :: before) b after (by rw [hl, List.cons_append])
  · rintro ⟨hfirst, hrest⟩ before b after hl
    cases before with
    | nil =>
      obtain ⟨rfl, rfl⟩ := List.cons.inj hl
      exact hfirst
    | cons c before =>
      obtain ⟨rfl, rfl⟩ := List.cons.inj hl
      exact hrest before b after rfl

theorem AtEach.mono {P Q : List α → α → List α → Prop} {l : List α} (h : AtEach P l)
    (himp : ∀ before a after, P before a after → Q before a after) : AtEach Q l :=
  fun before a after hl => himp before a after (h before a after hl)

/-- What is not asked about the elements that come after holds of a list's beginning. -/
theorem AtEach.of_append {P : List α → α → Prop} {l l' : List α}
    (h : AtEach (fun before a _ => P before a) (l ++ l')) :
    AtEach (fun before a _ => P before a) l := by
  intro before a after hl
  apply h before a (after ++ l')
  rw [hl, List.append_assoc, List.cons_append]

/-- A place of a list with one more element at its end is an old one or the last. -/
theorem AtEach.concat {P : List α → α → List α → Prop} {l : List α} {a : α} (h : AtEach P l)
    (hgrows : ∀ before b after, l = before ++ b :: after → P before b after →
      P before b (after ++ [a]))
    (hlast : P l a []) : AtEach P (l ++ [a]) := by
  intro before b after hl
  obtain rfl | ⟨after, c, rfl⟩ := after.eq_nil_or_concat'
  · obtain ⟨rfl, hb⟩ := List.append_inj' hl rfl
    obtain rfl := List.singleton_inj.mp hb
    exact hlast
  · rw [← List.cons_append, ← List.append_assoc] at hl
    obtain ⟨rfl, hc⟩ := List.append_inj' hl rfl
    obtain rfl := List.singleton_inj.mp hc
    exact hgrows before b after rfl (h before b after rfl)

end WireRpc.Library
