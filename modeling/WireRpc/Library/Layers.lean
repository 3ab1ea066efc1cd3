import Mathlib.Tactic

/-!
# Layers around a core

A layer is called with the next layer at hand. It may call it any number of times, with any
argument, and look at each answer before it goes on. What a call of the outermost layer
activates is a tree: below each activation stand those that its own calls of the next layer
caused, in their order.
-/
namespace WireRpc.Library

/-- What is left of a layer that has been called: it ends, or it calls the next one. -/
inductive Rest (W Q A : Type) where
  | ends (w : W) (answer : A)
  | calls (w : W) (argument : Q) (resume : W → A → Rest W Q A)

abbrev Layer (W Q A : Type) := Q → W → Rest W Q A

inductive Activation (ι : Type) where
  | node (label : ι) (inner : List (Activation ι))

namespace Activation

variable {ι : Type}

def label : Activation ι → ι
  | node label _ => label

def inner : Activation ι → List (Activation ι)
  | node _ inner => inner

/-- The activations that stand `d` calls below the root. -/
def level : ℕ → Activation ι → List (Activation ι)
  | 0, t => [t]
  | d + 1, t => t.inner.flatMap (level d)

mutual

/-- The labels in the order in which the activations began. -/
def order : Activation ι → List ι
  | node label inner => label :: orders inner

def orders : List (Activation ι) → List ι
  | [] => []
  | t :: ts => order t ++ orders ts

end

/-- Every path down the tree passes the layers from the outermost on, and ends in the core if
it gets that far. -/
def Follows (core : ι) : List ι → Activation ι → Prop
  | [], t => t = node core []
  | i :: is, t => t.label = i ∧ ∀ u ∈ t.inner, Follows core is u

/-- Each activated layer has called the next one once. -/
def EachOnce (layers : List ι) (t : Activation ι) : Prop :=
  ∀ d < layers.length, ∀ u ∈ t.level d, u.inner.length = 1

/-- The activations at a depth belong to the layer of that depth. -/
theorem Follows.label_level {core : ι} {layers : List ι} {t : Activation ι}
    (h : Follows core layers t) :
    ∀ d, ∀ u ∈ t.level d, (layers ++ [core])[d]? = some u.label := by
  induction layers generalizing t with
  | nil =>
    obtain rfl : t = node core [] := h
    intro d u hu
    cases d with
    | zero =>
      obtain rfl := List.mem_singleton.mp hu
      rfl
    | succ d => simp [level, Activation.inner] at hu
  | cons i is ih =>
    intro d u hu
    cases d with
    | zero =>
      obtain rfl := List.mem_singleton.mp hu
      exact congrArg some h.1.symm
    | succ d =>
      obtain ⟨v, hv, hu⟩ := List.mem_flatMap.mp hu
      exact ih (h.2 v hv) d u hu

theorem order_eq {core : ι} {layers : List ι} {t : Activation ι} (h : Follows core layers t)
    (honce : EachOnce layers t) : t.order = layers ++ [core] := by
  induction layers generalizing t with
  | nil =>
    obtain rfl : t = node core [] := h
    rfl
  | cons i is ih =>
    obtain ⟨label, inner⟩ := t
    obtain ⟨hlabel, hinner⟩ := h
    obtain ⟨u, hu⟩ := List.length_eq_one_iff.mp
      (honce 0 (Nat.zero_lt_succ _) _ (List.mem_singleton_self _))
    obtain rfl : label = i := hlabel
    obtain rfl : inner = [u] := hu
    have hbelow : u.order = is ++ [core] := by
      apply ih (hinner u (List.mem_singleton_self u))
      intro d hd v hv
      apply honce (d + 1) (Nat.succ_lt_succ hd) v
      simpa [level, Activation.inner] using hv
    simp [order, orders, hbelow]

/-- Below activations that have called nothing there is nothing. -/
theorem level_of_silent {d e : ℕ} {t : Activation ι} (h : ∀ u ∈ t.level d, u.inner = [])
    (hlt : d < e) : t.level e = [] := by
  induction d generalizing e t with
  | zero =>
    obtain ⟨e, rfl⟩ := Nat.exists_eq_add_of_lt hlt
    have hinner : t.inner = [] := h t (List.mem_singleton_self t)
    simp [level, hinner]
  | succ d ih =>
    obtain ⟨e, rfl⟩ := Nat.exists_eq_succ_of_ne_zero (Nat.ne_zero_of_lt hlt)
    show t.inner.flatMap (level e) = []
    rw [List.flatMap_eq_nil_iff]
    intro u hu
    apply ih _ (Nat.lt_of_succ_lt_succ hlt)
    intro v hv
    exact h v (List.mem_flatMap.mpr ⟨u, hu, hv⟩)

end Activation

/-- What a call came to, and what it activated. -/
structure Ran (ι W A : Type) where
  world : W
  answer : A
  activation : Activation ι

abbrev Callee (ι W Q A : Type) := Q → W → Ran ι W A

variable {ι W Q A : Type}

/-- The calls of a layer, with the activations they cause. -/
def Rest.play (next : Callee ι W Q A) : Rest W Q A → (W × A) × List (Activation ι)
  | ends w answer => ((w, answer), [])
  | calls w argument resume =>
    let ran := next argument w
    let rest := play next (resume ran.world ran.answer)
    (rest.1, ran.activation :: rest.2)

/-- A layer with what it is to call. -/
def around (label : ι) (layer : Layer W Q A) (next : Callee ι W Q A) : Callee ι W Q A :=
  fun argument w =>
    let played := (layer argument w).play next
    ⟨played.1.1, played.1.2, .node label played.2⟩

/-- The innermost call. -/
def atCore (label : ι) (core : Q → W → W × A) : Callee ι W Q A := fun argument w =>
  ⟨(core argument w).1, (core argument w).2, .node label []⟩

/-- The layers around the core, the first one outermost. -/
def layered (layers : List (ι × Layer W Q A)) (core : Callee ι W Q A) : Callee ι W Q A :=
  layers.foldr (fun layer next => around layer.1 layer.2 next) core

/-- Whatever holds of every activation of the next layer holds of those a layer causes. -/
theorem Rest.play_activations {next : Callee ι W Q A} {P : Activation ι → Prop}
    (h : ∀ argument w, P (next argument w).activation) (rest : Rest W Q A) :
    ∀ u ∈ (rest.play next).2, P u := by
  induction rest with
  | ends w answer => simp [play]
  | calls w argument resume ih =>
    intro u hu
    cases hu with
    | head => exact h argument w
    | tail _ hu => exact ih _ _ u hu

theorem layered_follows (layers : List (ι × Layer W Q A)) (label : ι) (core : Q → W → W × A)
    (argument : Q) (w : W) :
    (layered layers (atCore label core) argument w).activation.Follows label
      (layers.map Prod.fst) := by
  induction layers generalizing argument w with
  | nil => rfl
  | cons layer layers ih =>
    constructor
    · rfl
    · exact Rest.play_activations ih _

/-- A chain that is built from its end, each layer put around what is there already. -/
theorem foldl_reverse_around (layers : List (ι × Layer W Q A)) (core : Callee ι W Q A) :
    layers.reverse.foldl (fun next layer => around layer.1 layer.2 next) core =
      layered layers core := by
  rw [List.foldl_reverse]
  rfl

/-- A call of a layer ends with `P` if the answers it gets from the next one are as `R` says. -/
inductive Rest.Keeps (R : Q → A → Prop) (P : A → Prop) : Rest W Q A → Prop
  | ends {w : W} {answer : A} (h : P answer) : Keeps R P (.ends w answer)
  | calls {w : W} {argument : Q} {resume : W → A → Rest W Q A}
      (h : ∀ w answer, R argument answer → Keeps R P (resume w answer)) :
      Keeps R P (.calls w argument resume)

/-- The layer answers each argument as `R` says, if the next one does. -/
def Layer.Keeps (R : Q → A → Prop) (layer : Layer W Q A) : Prop :=
  ∀ argument w, (layer argument w).Keeps R (R argument)

theorem Rest.Keeps.play {R : Q → A → Prop} {P : A → Prop} {rest : Rest W Q A}
    (h : rest.Keeps R P) {next : Callee ι W Q A}
    (hnext : ∀ argument w, R argument (next argument w).answer) : P (rest.play next).1.2 := by
  induction h with
  | ends h => exact h
  | calls h ih => exact ih _ _ (hnext _ _)

/-- What the core and every layer keep, the layers around the core keep. -/
theorem layered_keeps {R : Q → A → Prop} {layers : List (ι × Layer W Q A)}
    {core : Callee ι W Q A} (hlayers : ∀ layer ∈ layers, Layer.Keeps R layer.2)
    (hcore : ∀ argument w, R argument (core argument w).answer) (argument : Q) (w : W) :
    R argument (layered layers core argument w).answer := by
  induction layers generalizing argument w with
  | nil => exact hcore argument w
  | cons layer layers ih =>
    obtain ⟨hlayer, hrest⟩ := List.forall_mem_cons.mp hlayers
    exact (hlayer argument w).play (ih hrest)

theorem layered_append (outer inner : List (ι × Layer W Q A)) (core : Callee ι W Q A) :
    layered outer (layered inner core) = layered (outer ++ inner) core := by
  unfold layered
  rw [List.foldr_append]

end WireRpc.Library
