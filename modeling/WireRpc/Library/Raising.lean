import Mathlib.Tactic

/-!
# Code that changes a state and may raise

What holds when such code ends, one assertion for a returned value and one for an exception.
The state that an exception leaves behind is the one it was raised in.
-/
namespace WireRpc.Library

variable {ε σ α β : Type}

/-- From `s`, the code returns a value and a state with `Returns`, or it raises and leaves a
state with `Raises`. -/
def Ends (x : EStateM ε σ α) (s : σ) (Returns : α → σ → Prop) (Raises : ε → σ → Prop) : Prop :=
  match x.run s with
  | .ok a t => Returns a t
  | .error e t => Raises e t

namespace Ends

variable {x : EStateM ε σ α} {f : α → EStateM ε σ β} {s t : σ} {P : α → σ → Prop}
  {Q : β → σ → Prop} {E E' : ε → σ → Prop}

theorem returned {a : α} (h : Ends x s P E) (hx : x.run s = .ok a t) : P a t := by
  unfold Ends at h
  rwa [hx] at h

theorem raised {e : ε} (h : Ends x s P E) (hx : x.run s = .error e t) : E e t := by
  unfold Ends at h
  rwa [hx] at h

/-- Code that goes on with the value, or stops at the exception. -/
theorem bind (h : Ends x s P E) (hnext : ∀ a t, P a t → Ends (f a) t Q E) :
    Ends (x >>= f) s Q E := by
  unfold Ends
  rw [EStateM.run_bind]
  cases hx : x.run s with
  | ok a t => exact hnext a t (h.returned hx)
  | error e t => exact h.raised hx

theorem mono {P' : α → σ → Prop} (h : Ends x s P E) (hreturns : ∀ a t, P a t → P' a t)
    (hraises : ∀ e t, E e t → E' e t) : Ends x s P' E' := by
  unfold Ends
  cases hx : x.run s with
  | ok a t => exact hreturns a t (h.returned hx)
  | error e t => exact hraises e t (h.raised hx)

theorem pure {a : α} (h : P a s) : Ends (Pure.pure a) s P E := h

theorem throw {e : ε} (h : E e s) : Ends (MonadExcept.throw e : EStateM ε σ α) s P E := h

end Ends
end WireRpc.Library
