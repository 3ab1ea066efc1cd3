import WireRpc.Library.Lists

/-!
# Machines that answer alike

A machine answers every event, and its state is hidden. Two machines answer alike if they are
related, give related states the same answer and stay related. The events of the first one
may be those of several parties: what the others do has to leave the relation as it is.
-/
namespace WireRpc.Library

abbrev Answering (σ ε ω : Type*) := ε → σ → σ × ω

namespace Answering

variable {σ τ ε δ ω : Type*} (f : Answering σ ε ω) (own : ε → Option δ)

/-- The state after the events. -/
def finish : σ → List ε → σ
  | s, [] => s
  | s, e :: es => finish (f e s).1 es

/-- The answers to the events that are the party's own. -/
def answers : σ → List ε → List ω
  | _, [] => []
  | s, e :: es =>
    match own e with
    | some _ => (f e s).2 :: answers (f e s).1 es
    | none => answers (f e s).1 es

/-- The events with their answers. -/
def transcript : σ → List ε → List (ε × ω)
  | _, [] => []
  | s, e :: es => (e, (f e s).2) :: transcript (f e s).1 es

/-- The second machine sees the party's own events only. A relation may look at those that
have been. -/
structure Simulates (g : Answering τ δ ω) (R : List δ → σ → τ → Prop)
    (Ok : List δ → δ → Prop) : Prop where
  answer : ∀ past s t e d, own e = some d → R past s t → Ok past d → (f e s).2 = (g d t).2
  next : ∀ past s t e d, own e = some d → R past s t → Ok past d →
    R (past ++ [d]) (f e s).1 (g d t).1
  other : ∀ past s t e, own e = none → R past s t → R past (f e s).1 t

variable {f own} {g : Answering τ δ ω} {R : List δ → σ → τ → Prop} {Ok : List δ → δ → Prop}

theorem Simulates.run_from (h : Simulates f own g R Ok) {past : List δ} {s : σ} {t : τ}
    {es : List ε} (hR : R past s t)
    (hOk : AtEach (fun before d _ => Ok (past ++ before) d) (es.filterMap own)) :
    answers f own s es = answers g some t (es.filterMap own) ∧
      R (past ++ es.filterMap own) (finish f s es) (finish g t (es.filterMap own)) := by
  induction es generalizing past s t with
  | nil =>
    refine ⟨rfl, ?_⟩
    rw [List.filterMap_nil, List.append_nil]
    exact hR
  | cons e es ih =>
    cases he : own e with
    | none =>
      rw [List.filterMap_cons_none he] at hOk ⊢
      obtain ⟨hanswers, hrelated⟩ := ih (h.other past s t e he hR) hOk
      refine ⟨?_, hrelated⟩
      simpa only [answers, he] using hanswers
    | some d =>
      rw [List.filterMap_cons_some he] at hOk ⊢
      have hd : Ok past d := by
        have hfirst : Ok (past ++ []) d := hOk [] d (es.filterMap own) rfl
        rwa [List.append_nil] at hfirst
      have hrest : AtEach (fun before d' _ => Ok (past ++ [d] ++ before) d')
          (es.filterMap own) := by
        intro before d' after hes
        have hplace : Ok (past ++ d :: before) d' :=
          hOk (d :: before) d' after (by rw [hes, List.cons_append])
        rwa [List.append_cons] at hplace
      obtain ⟨hanswers, hrelated⟩ := ih (h.next past s t e d he hR hd) hrest
      constructor
      · simp only [answers, he, h.answer past s t e d he hR hd, hanswers]
      · rw [List.append_cons]
        exact hrelated

/-- Machines that are related before a run answer alike all along, and are related after
it. -/
theorem Simulates.run (h : Simulates f own g R Ok) {s : σ} {t : τ} {es : List ε} (hR : R [] s t)
    (hOk : AtEach (fun before d _ => Ok before d) (es.filterMap own)) :
    answers f own s es = answers g some t (es.filterMap own) ∧
      R (es.filterMap own) (finish f s es) (finish g t (es.filterMap own)) :=
  h.run_from hR hOk

theorem transcript_eq_zip (f : Answering σ ε ω) (s : σ) (es : List ε) :
    transcript f s es = es.zip (answers f some s es) := by
  induction es generalizing s with
  | nil => rfl
  | cons e es ih => rw [transcript, ih, answers, List.zip_cons_cons]

theorem transcript_events (f : Answering σ ε ω) (s : σ) (es : List ε) :
    (transcript f s es).map Prod.fst = es := by
  induction es generalizing s with
  | nil => rfl
  | cons e es ih => rw [transcript, List.map_cons, ih]

/-- What holds of the state and of all that was answered so far. -/
theorem invariant_from {P : List (ε × ω) → σ → Prop} {Ok : List ε → ε → Prop}
    (hnext : ∀ past s e, P past s → Ok (past.map Prod.fst) e →
      P (past ++ [(e, (f e s).2)]) (f e s).1)
    {past : List (ε × ω)} {s : σ} {es : List ε} (h : P past s)
    (hOk : AtEach (fun before e _ => Ok (past.map Prod.fst ++ before) e) es) :
    P (past ++ transcript f s es) (finish f s es) := by
  induction es generalizing past s with
  | nil => rwa [transcript, List.append_nil]
  | cons e es ih =>
    obtain ⟨hfirst, hrest⟩ := atEach_cons.mp hOk
    rw [List.append_nil] at hfirst
    rw [transcript, List.append_cons]
    refine ih (hnext past s e h hfirst) (hrest.mono fun before e' _ hok => ?_)
    rwa [List.map_append, List.append_assoc]

theorem invariant {P : List (ε × ω) → σ → Prop} {Ok : List ε → ε → Prop}
    (hnext : ∀ past s e, P past s → Ok (past.map Prod.fst) e →
      P (past ++ [(e, (f e s).2)]) (f e s).1)
    {s : σ} {es : List ε} (h : P [] s) (hOk : AtEach (fun before e _ => Ok before e) es) :
    P (transcript f s es) (finish f s es) :=
  invariant_from hnext h hOk

end Answering
end WireRpc.Library
