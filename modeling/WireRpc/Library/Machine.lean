import Mathlib.Tactic

/-!
# Runs of a partial step function

A machine is a step function that refuses the events a state does not allow.
An event carries every choice its environment makes, so a run is a list of
events, and quantifying over runs quantifies over all interleavings. What one
step preserves, a whole run preserves.
-/
namespace WireRpc.Library.Machine

variable {σ ε : Type*} {step : σ → ε → Option σ}

/-- The state after the events, or `none` when one of them is refused. -/
def run (step : σ → ε → Option σ) : σ → List ε → Option σ
  | s, [] => some s
  | s, e :: es => (step s e).bind fun s' => run step s' es

@[simp] theorem run_nil (s : σ) : run step s [] = some s := rfl

@[simp] theorem run_cons (s : σ) (e : ε) (es : List ε) :
    run step s (e :: es) = (step s e).bind fun s' => run step s' es := rfl

theorem run_append (s : σ) (es fs : List ε) :
    run step s (es ++ fs) = (run step s es).bind fun s' => run step s' fs := by
  induction es generalizing s with
  | nil => rfl
  | cons e es ih =>
    simp only [List.cons_append, run_cons, Option.bind_assoc]
    exact congrArg _ (funext ih)

/-- A run from its first step on. -/
theorem run_cons_of {s t : σ} {e : ε} {es : List ε} (h : step s e = some t) :
    run step s (e :: es) = run step t es := by
  rw [run_cons, h, Option.bind_some]

theorem exists_run_cons {s t : σ} {e : ε} {es : List ε} {P : σ → Prop} (h : step s e = some t)
    (hrest : ∃ s', run step t es = some s' ∧ P s') :
    ∃ s', run step s (e :: es) = some s' ∧ P s' := by
  rwa [run_cons_of h]

/-- Every step of the run from `s` meets the condition, which reads the state
before the step and the event. -/
def Meets (step : σ → ε → Option σ) (C : σ → ε → Prop) : σ → List ε → Prop
  | _, [] => True
  | s, e :: es => C s e ∧ ∀ s', step s e = some s' → Meets step C s' es

theorem meets_cons {C : σ → ε → Prop} {s : σ} {e : ε} {es : List ε} :
    Meets step C s (e :: es) ↔ C s e ∧ ∀ s', step s e = some s' → Meets step C s' es := Iff.rfl

theorem meets_cons_of {C : σ → ε → Prop} {s t : σ} {e : ε} {es : List ε} (hc : C s e)
    (h : step s e = some t) (hrest : Meets step C t es) : Meets step C s (e :: es) := by
  refine ⟨hc, fun u hu => ?_⟩
  obtain rfl := Option.some.inj (h.symm.trans hu)
  exact hrest

theorem meets_congr {C D : σ → ε → Prop} (h : ∀ s e, C s e ↔ D s e) (s : σ) (es : List ε) :
    Meets step C s es ↔ Meets step D s es := by
  induction es generalizing s with
  | nil => exact Iff.rfl
  | cons e es ih => exact and_congr (h s e) (forall₂_congr fun s' _ => ih s')

theorem Meets.mono {C D : σ → ε → Prop} (h : ∀ s e, C s e → D s e) {s : σ} {es : List ε}
    (hc : Meets step C s es) : Meets step D s es := by
  induction es generalizing s with
  | nil => trivial
  | cons e es ih => exact ⟨h s e hc.1, fun s' hs' => ih (hc.2 s' hs')⟩

/-- A condition on the events alone. -/
theorem meets_of_forall {C : σ → ε → Prop} {es : List ε} (h : ∀ e ∈ es, ∀ s, C s e) (s : σ) :
    Meets step C s es := by
  induction es generalizing s with
  | nil => trivial
  | cons e es ih =>
    obtain ⟨he, hes⟩ := List.forall_mem_cons.mp h
    exact ⟨he s, fun s' _ => ih hes s'⟩

theorem Meets.append {C : σ → ε → Prop} {s : σ} {es fs : List ε} (hc : Meets step C s es)
    (hrest : ∀ s', run step s es = some s' → Meets step C s' fs) :
    Meets step C s (es ++ fs) := by
  induction es generalizing s with
  | nil => exact hrest s rfl
  | cons e es ih =>
    refine ⟨hc.1, fun t ht => ih (hc.2 t ht) fun s' hs' => hrest s' ?_⟩
    rw [run_cons_of ht, hs']

/-- The steps of a run that goes on meet what all of its steps meet. -/
theorem Meets.left {C : σ → ε → Prop} {s : σ} {es fs : List ε} (h : Meets step C s (es ++ fs)) :
    Meets step C s es := by
  induction es generalizing s with
  | nil => trivial
  | cons e es ih => exact ⟨h.1, fun t ht => ih (h.2 t ht)⟩

theorem Meets.right {C : σ → ε → Prop} {s s' : σ} {es fs : List ε}
    (h : Meets step C s (es ++ fs)) (hrun : run step s es = some s') : Meets step C s' fs := by
  induction es generalizing s with
  | nil => exact Option.some.inj hrun ▸ h
  | cons e es ih =>
    obtain ⟨t, ht, hrest⟩ := Option.bind_eq_some_iff.mp hrun
    exact ih (h.2 t ht) hrest

/-- Whether a run meets a condition can be tried out. -/
instance decidableMeets {C : σ → ε → Prop} [∀ s e, Decidable (C s e)] :
    ∀ (s : σ) (es : List ε), Decidable (Meets step C s es)
  | _, [] => isTrue trivial
  | s, e :: es =>
    match h : step s e with
    | none => decidable_of_iff (C s e) (by simp [meets_cons, h])
    | some t =>
      haveI := decidableMeets (C := C) t es
      decidable_of_iff (C s e ∧ Meets step C t es) (by simp [meets_cons, h])

/-- An invariant that steps meeting a condition preserve holds after every run
of such steps. -/
theorem invariant_of_meets {P : σ → Prop} {C : σ → ε → Prop}
    (hstep : ∀ s e s', P s → C s e → step s e = some s' → P s') {s s' : σ} {es : List ε}
    (hs : P s) (hc : Meets step C s es) (h : run step s es = some s') : P s' := by
  induction es generalizing s with
  | nil => exact Option.some.inj h ▸ hs
  | cons e es ih =>
    obtain ⟨t, ht, hrun⟩ := Option.bind_eq_some_iff.mp h
    exact ih (hstep s e t hs hc.1 ht) (hc.2 t ht) hrun

theorem meets_true (s : σ) (es : List ε) : Meets step (fun _ _ => True) s es := by
  induction es generalizing s with
  | nil => trivial
  | cons e es ih => exact ⟨trivial, fun s' _ => ih s'⟩

/-- An invariant that every step preserves holds after every run. -/
theorem invariant {P : σ → Prop} (hstep : ∀ s e s', P s → step s e = some s' → P s')
    {s s' : σ} {es : List ε} (hs : P s) (h : run step s es = some s') : P s' :=
  invariant_of_meets (fun s e s' hp _ => hstep s e s' hp) hs (meets_true s es) h

/-- Conditions that agree in every state the invariant allows. -/
theorem meets_congr_of_invariant {I : σ → Prop} {C D : σ → ε → Prop}
    (hinv : ∀ s e s', I s → step s e = some s' → I s') (h : ∀ s e, I s → (C s e ↔ D s e)) {s : σ}
    {es : List ε} (hs : I s) : Meets step C s es ↔ Meets step D s es := by
  induction es generalizing s with
  | nil => exact Iff.rfl
  | cons e es ih =>
    exact and_congr (h s e hs) (forall₂_congr fun s' hs' => ih (hinv s e s' hs hs'))

/-- The property holds in every state of the run. -/
def Throughout (step : σ → ε → Option σ) (P : σ → Prop) : σ → List ε → Prop
  | s, [] => P s
  | s, e :: es => P s ∧ ∀ s', step s e = some s' → Throughout step P s' es

theorem Throughout.head {P : σ → Prop} {s : σ} {es : List ε} (h : Throughout step P s es) :
    P s := by
  cases es with
  | nil => exact h
  | cons e es => exact h.1

/-- An invariant that steps meeting a condition preserve holds throughout a run of such
steps. -/
theorem throughout_of_meets {P Q : σ → Prop} {C : σ → ε → Prop}
    (hstep : ∀ s e s', P s → C s e → step s e = some s' → P s') (hQ : ∀ s, P s → Q s) {s : σ}
    {es : List ε} (hs : P s) (hc : Meets step C s es) : Throughout step Q s es := by
  induction es generalizing s with
  | nil => exact hQ s hs
  | cons e es ih => exact ⟨hQ s hs, fun s' hs' => ih (hstep s e s' hs hc.1 hs') (hc.2 s' hs')⟩

/-- When a step keeps the property exactly if it meets the condition, then the property
holds throughout a run exactly if all of its steps meet the condition. -/
theorem throughout_iff_meets {I P : σ → Prop} {C : σ → ε → Prop}
    (hinv : ∀ s e s', I s → step s e = some s' → I s')
    (hstep : ∀ s e s', I s → P s → step s e = some s' → (P s' ↔ C s e)) {s s' : σ} {es : List ε}
    (hI : I s) (hP : P s) (h : run step s es = some s') :
    Throughout step P s es ↔ Meets step C s es := by
  induction es generalizing s with
  | nil => exact iff_of_true hP trivial
  | cons e es ih =>
    obtain ⟨t, ht, hrun⟩ := Option.bind_eq_some_iff.mp h
    have hIt := hinv s e t hI ht
    have hkeeps := hstep s e t hI hP ht
    constructor
    · intro hall
      have hrest := hall.2 t ht
      refine ⟨hkeeps.mp hrest.head, fun u hu => ?_⟩
      obtain rfl := Option.some.inj (ht.symm.trans hu)
      exact (ih hIt hrest.head hrun).mp hrest
    · intro hmeets
      have hPt := hkeeps.mpr hmeets.1
      refine ⟨hP, fun u hu => ?_⟩
      obtain rfl := Option.some.inj (ht.symm.trans hu)
      exact (ih hIt hPt hrun).mpr (hmeets.2 t ht)

end WireRpc.Library.Machine
