import Mathlib.Tactic

/-!
# Coroutines under a timer

A coroutine runs on a world until it ends or suspends, and the event loop wakes it again. A
timer that is due when its scope is entered cancels the task at its next suspension, and
nowhere else: a task that does not suspend runs to its end.
-/
namespace WireRpc.Library

/-- What wakes a suspended task: what it waits for, the timer of its scope, or a cancellation
from outside. -/
inductive Wake where
  | continues
  | timeout
  | cancelled
  deriving DecidableEq, Repr

/-- The task sees both kinds of cancellation alike. -/
def Wake.cancels : Wake → Bool
  | continues => false
  | timeout => true
  | cancelled => true

/-- The timer of a scope. It is `due` when its time had come before the scope was entered. -/
structure Timer where
  due : Bool
  expired : Bool := false
  interrupted : Bool := false
  deriving DecidableEq, Repr

def Timer.wake (timer : Timer) : Wake → Timer
  | .continues => timer
  | .timeout => { timer with expired := true }
  | .cancelled => { timer with interrupted := true }

/-- A timer that is due is delivered at the first suspension. -/
structure EventLoop (W : Type) where
  clock : W → ℕ
  wake : Timer → W → Wake × W
  due_cancels : ∀ timer w, timer.due = true → timer.expired = false →
    (wake timer w).1 ≠ .continues

/-- A task that ends, does something that is seen from outside, or suspends until it is woken,
possibly by a cancellation. -/
inductive Coroutine (W E α : Type) where
  | ends (w : W) (result : α)
  | emits (e : E) (next : Coroutine W E α)
  | suspends (w : W) (resume : Bool → W → Coroutine W E α)

/-- What a task leaves behind. -/
structure Finish (W E α : Type) where
  world : W
  timer : Timer
  events : List E
  result : α

namespace Coroutine

variable {W E α β : Type}

def bind : Coroutine W E α → (W → α → Coroutine W E β) → Coroutine W E β
  | ends w result, next => next w result
  | emits e task, next => emits e (task.bind next)
  | suspends w resume, next => suspends w fun cancelled w => (resume cancelled w).bind next

variable (loop : EventLoop W)

def run : Coroutine W E α → Timer → Finish W E α
  | ends w result, timer => ⟨w, timer, [], result⟩
  | emits e task, timer =>
    let finish := run task timer
    { finish with events := e :: finish.events }
  | suspends w resume, timer =>
    let woken := loop.wake timer w
    run (resume woken.1.cancels woken.2) (timer.wake woken.1)

/-- As `run`, but the first suspension ends with a cancellation. -/
def cut : Coroutine W E α → Timer → Finish W E α
  | ends w result, timer => ⟨w, timer, [], result⟩
  | emits e task, timer =>
    let finish := cut task timer
    { finish with events := e :: finish.events }
  | suspends w resume, timer =>
    let woken := loop.wake timer w
    run loop (resume true woken.2) (timer.wake woken.1)

/-- One task after the other. -/
theorem run_bind (task : Coroutine W E α) (next : W → α → Coroutine W E β) (timer : Timer) :
    run loop (task.bind next) timer =
      let first := run loop task timer
      let second := run loop (next first.world first.result) first.timer
      { second with events := first.events ++ second.events } := by
  induction task generalizing timer with
  | ends w result => rfl
  | emits e task ih => simp [bind, run, ih]
  | suspends w resume ih => simp [bind, run, ih]

/-- Under a timer that is due the first suspension is cancelled. -/
theorem run_of_due (task : Coroutine W E α) {timer : Timer} (hdue : timer.due = true)
    (hexpired : timer.expired = false) : run loop task timer = cut loop task timer := by
  induction task with
  | ends w result => rfl
  | emits e task ih => simp only [run, cut, ih]
  | suspends w resume ih =>
    have hcancels : (loop.wake timer w).1.cancels = true := by
      cases hwake : (loop.wake timer w).1 with
      | continues => exact absurd hwake (loop.due_cancels timer w hdue hexpired)
      | timeout => rfl
      | cancelled => rfl
    simp only [run, cut, hcancels]

end Coroutine

end WireRpc.Library
