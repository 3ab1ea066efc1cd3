import WireRpc.Library.Machine

/-!
# Dialogues over byte streams

Two programs read from and write to each other over two streams. What is on its way arrives
in segments of any size. If one order of the steps brings both programs to their end, then
every order does, with the same results.
-/
namespace WireRpc.Library

/-- A program that ends, fails, waits for a number of bytes, writes, or tells something to
the outside. -/
inductive Dialogue (β E F α : Type) where
  | done (a : α)
  | fails (fault : F)
  | reads (n : ℕ) (next : List β → Dialogue β E F α)
  | writes (data : List β) (next : Dialogue β E F α)
  | tells (e : E) (next : Dialogue β E F α)

namespace Dialogue

variable {β E F G α γ δ : Type}

/-- Go on with the result, or with the fault. -/
def handle : Dialogue β E F α → (α → Dialogue β E G γ) → (F → Dialogue β E G γ) →
    Dialogue β E G γ
  | done a, next, _ => next a
  | fails fault, _, catches => catches fault
  | reads n resume, next, catches => reads n fun data => (resume data).handle next catches
  | writes data rest, next, catches => writes data (rest.handle next catches)
  | tells e rest, next, catches => tells e (rest.handle next catches)

instance : Monad (Dialogue β E F) where
  pure := done
  bind x next := x.handle next fails

/-- What is handled inside a body is handled with the body. -/
theorem handle_bind (x : Dialogue β E F α) (next : α → Dialogue β E F γ)
    (after : γ → Dialogue β E G δ) (catches : F → Dialogue β E G δ) :
    (x >>= next).handle after catches =
      x.handle (fun a => (next a).handle after catches) catches := by
  show (x.handle next fails).handle after catches = _
  induction x with
  | done a => rfl
  | fails fault => rfl
  | reads n resume ih => simp only [handle, ih]
  | writes data rest ih => simp only [handle, ih]
  | tells e rest ih => simp only [handle, ih]

def isDone : Dialogue β E F α → Bool
  | done _ => true
  | _ => false

theorem isDone_iff {x : Dialogue β E F α} : x.isDone = true ↔ ∃ a, x = done a := by
  cases x <;> simp [isDone]

/-- One step of a program with these bytes at hand: the program after it, the bytes that are
left, those written and what is told. -/
def step : Dialogue β E F α → List β → Option (Dialogue β E F α × List β × List β × List E)
  | done _, _ => none
  | fails _, _ => none
  | reads n next, buffer =>
    if n ≤ buffer.length then some (next (buffer.take n), buffer.drop n, [], []) else none
  | writes data next, buffer => some (next, buffer, data, [])
  | tells e next, buffer => some (next, buffer, [], [e])

/-- More bytes at hand change nothing for a step that is possible without them. -/
theorem step_append {x x' : Dialogue β E F α} {buffer buffer' out : List β} {told : List E}
    (h : x.step buffer = some (x', buffer', out, told)) (more : List β) :
    x.step (buffer ++ more) = some (x', buffer' ++ more, out, told) := by
  cases x with
  | done a => nomatch h
  | fails fault => nomatch h
  | reads n next =>
    simp only [step, Option.ite_none_right_eq_some, Option.some.injEq, Prod.mk.injEq] at h
    obtain ⟨hn, rfl, rfl, rfl, rfl⟩ := h
    have hlong : n ≤ (buffer ++ more).length := by
      rw [List.length_append]
      omega
    rw [step, if_pos hlong, List.take_append_of_le_length hn, List.drop_append_of_le_length hn]
  | writes data rest =>
    simp only [step, Option.some.injEq, Prod.mk.injEq] at h
    obtain ⟨rfl, rfl, rfl, rfl⟩ := h
    rfl
  | tells e rest =>
    simp only [step, Option.some.injEq, Prod.mk.injEq] at h
    obtain ⟨rfl, rfl, rfl, rfl⟩ := h
    rfl

/-- A step that takes no more than the bytes in front could be taken with these alone. -/
theorem step_of_unread {x x' : Dialogue β E F α} {buffer buffer' way front sent out : List β}
    {told : List E} (hunread : buffer ++ way = front ++ sent)
    (hfront : ∀ n next, x = .reads n next → n ≤ buffer.length → n ≤ front.length)
    (h : x.step buffer = some (x', buffer', out, told)) :
    ∃ front', x.step front = some (x', front', out, told) ∧ buffer' ++ way = front' ++ sent := by
  cases x with
  | done a => nomatch h
  | fails fault => nomatch h
  | reads n next =>
    simp only [step, Option.ite_none_right_eq_some, Option.some.injEq, Prod.mk.injEq] at h
    obtain ⟨hn, rfl, rfl, rfl, rfl⟩ := h
    have hn' : n ≤ front.length := hfront n next rfl hn
    have htake : front.take n = buffer.take n := by
      rw [← List.take_append_of_le_length hn, hunread, List.take_append_of_le_length hn']
    refine ⟨front.drop n, ?_, ?_⟩
    · rw [step, if_pos hn', htake]
    · rw [← List.drop_append_of_le_length hn, hunread, List.drop_append_of_le_length hn']
  | writes data rest =>
    simp only [step, Option.some.injEq, Prod.mk.injEq] at h
    obtain ⟨rfl, rfl, rfl, rfl⟩ := h
    exact ⟨front, rfl, hunread⟩
  | tells e rest =>
    simp only [step, Option.some.injEq, Prod.mk.injEq] at h
    obtain ⟨rfl, rfl, rfl, rfl⟩ := h
    exact ⟨front, rfl, hunread⟩

/-- What becomes of a dialogue on all the bytes that it is ever sent: its result and what it
leaves unread, or the fault, which is `short` if it waits for more than there is. -/
def feed (short : F) : Dialogue β E F α → List β → Except F (α × List β)
  | done a, input => .ok (a, input)
  | fails fault, _ => .error fault
  | reads n next, input =>
    if input.length < n then .error short else (next (input.take n)).feed short (input.drop n)
  | writes _ next, input => next.feed short input
  | tells _ next, input => next.feed short input

theorem feed_bind (short : F) (x : Dialogue β E F α) (next : α → Dialogue β E F γ)
    (input : List β) :
    (x >>= next).feed short input =
      (x.feed short input).bind fun (a, rest) => (next a).feed short rest := by
  show (x.handle next fails).feed short input = _
  induction x generalizing input with
  | done a => rfl
  | fails fault => rfl
  | reads n resume ih =>
    simp only [handle, feed]
    split_ifs
    · rfl
    · exact ih _ _
  | writes data rest ih => exact ih input
  | tells e rest ih => exact ih input

/-- A step takes from the input what it reads, and no more. -/
theorem feed_step (short : F) {x x' : Dialogue β E F α} {buffer buffer' out : List β}
    {told : List E} (h : x.step buffer = some (x', buffer', out, told)) (more : List β) :
    x.feed short (buffer ++ more) = x'.feed short (buffer' ++ more) := by
  cases x with
  | done a => nomatch h
  | fails fault => nomatch h
  | reads n next =>
    simp only [step, Option.ite_none_right_eq_some, Option.some.injEq, Prod.mk.injEq] at h
    obtain ⟨hn, rfl, rfl, rfl, rfl⟩ := h
    have hlong : ¬ (buffer ++ more).length < n := by
      rw [List.length_append]
      omega
    rw [feed, if_neg hlong, List.take_append_of_le_length hn, List.drop_append_of_le_length hn]
  | writes data rest =>
    simp only [step, Option.some.injEq, Prod.mk.injEq] at h
    obtain ⟨rfl, rfl, rfl, rfl⟩ := h
    rfl
  | tells e rest =>
    simp only [step, Option.some.injEq, Prod.mk.injEq] at h
    obtain ⟨rfl, rfl, rfl, rfl⟩ := h
    rfl

/-- A dialogue that stands still and comes to a result on these bytes has come to it. -/
theorem done_of_feed {short : F} {x : Dialogue β E F α} {input rest : List β} {a : α}
    (h : x.feed short input = .ok (a, rest)) (hstep : x.step input = none) : x = done a := by
  cases x with
  | done b => rw [(Prod.mk.inj (Except.ok.inj h)).1]
  | fails fault => nomatch h
  | reads n next =>
    have hshort : input.length < n := by
      by_contra hlong
      simp [step, Nat.not_lt.mp hlong] at hstep
    rw [feed, if_pos hshort] at h
    nomatch h
  | writes data rest => nomatch hstep
  | tells e rest => nomatch hstep

/-- No step is possible once a dialogue has ended. -/
theorem not_isDone_of_step {x x' : Dialogue β E F α} {buffer buffer' out : List β} {told : List E}
    (h : x.step buffer = some (x', buffer', out, told)) : x.isDone = false := by
  cases x with
  | done a => nomatch h
  | _ => rfl

end Dialogue

section
variable {β E F α γ : Type}

/-- With these bytes on their way up to the second dialogue and down to the first, some order
of the steps leads the dialogues to `final` and `final'`, which cannot go on with what is then
left on the way. `work` counts the steps and the bytes still to be written; each list is what
a dialogue is going to tell. -/
inductive Leads (final : Dialogue β E F α) (final' : Dialogue β E F γ) (leftUp leftDown : List β) :
    ℕ → Dialogue β E F α → Dialogue β E F γ → List β → List β → List E → List E → Prop
  | stop (h : final.step leftDown = none) (h' : final'.step leftUp = none) :
      Leads final final' leftUp leftDown 0 final final' leftUp leftDown [] []
  | firstReads {work n : ℕ} {next : List β → Dialogue β E F α} {second : Dialogue β E F γ}
      {up down : List β} {tells tells' : List E} (hn : n ≤ down.length)
      (h : Leads final final' leftUp leftDown work (next (down.take n)) second up (down.drop n)
        tells tells') :
      Leads final final' leftUp leftDown (work + 1) (.reads n next) second up down tells tells'
  | firstWrites {work : ℕ} {data : List β} {first : Dialogue β E F α} {second : Dialogue β E F γ}
      {up down : List β} {tells tells' : List E}
      (h : Leads final final' leftUp leftDown work first second (up ++ data) down tells tells') :
      Leads final final' leftUp leftDown (work + 1 + data.length) (.writes data first) second up
        down tells tells'
  | firstTells {work : ℕ} {e : E} {first : Dialogue β E F α} {second : Dialogue β E F γ}
      {up down : List β} {tells tells' : List E}
      (h : Leads final final' leftUp leftDown work first second up down tells tells') :
      Leads final final' leftUp leftDown (work + 1) (.tells e first) second up down (e :: tells)
        tells'
  | secondReads {work n : ℕ} {first : Dialogue β E F α} {next : List β → Dialogue β E F γ}
      {up down : List β} {tells tells' : List E} (hn : n ≤ up.length)
      (h : Leads final final' leftUp leftDown work first (next (up.take n)) (up.drop n) down tells
        tells') :
      Leads final final' leftUp leftDown (work + 1) first (.reads n next) up down tells tells'
  | secondWrites {work : ℕ} {data : List β} {first : Dialogue β E F α}
      {second : Dialogue β E F γ} {up down : List β} {tells tells' : List E}
      (h : Leads final final' leftUp leftDown work first second up (down ++ data) tells tells') :
      Leads final final' leftUp leftDown (work + 1 + data.length) first (.writes data second) up
        down tells tells'
  | secondTells {work : ℕ} {e : E} {first : Dialogue β E F α} {second : Dialogue β E F γ}
      {up down : List β} {tells tells' : List E}
      (h : Leads final final' leftUp leftDown work first second up down tells tells') :
      Leads final final' leftUp leftDown (work + 1) first (.tells e second) up down tells
        (e :: tells')

namespace Leads

variable {final : Dialogue β E F α} {final' : Dialogue β E F γ} {leftUp leftDown : List β}
  {work : ℕ} {first : Dialogue β E F α} {second : Dialogue β E F γ} {up down : List β}
  {tells tells' : List E}

theorem swap (h : Leads final final' leftUp leftDown work first second up down tells tells') :
    Leads final' final leftDown leftUp work second first down up tells' tells := by
  induction h with
  | stop h h' => exact .stop h' h
  | firstReads hn _ ih => exact .secondReads hn ih
  | firstWrites _ ih => exact .secondWrites ih
  | firstTells _ ih => exact .secondTells ih
  | secondReads hn _ ih => exact .firstReads hn ih
  | secondWrites _ ih => exact .firstWrites ih
  | secondTells _ ih => exact .firstTells ih

/-- Whatever step the first dialogue takes, the two can go on to the same standstill. -/
theorem step_first (h : Leads final final' leftUp leftDown work first second up down tells tells')
    {first' : Dialogue β E F α} {down' out : List β} {told : List E}
    (hstep : first.step down = some (first', down', out, told)) :
    ∃ work' rest,
      Leads final final' leftUp leftDown work' first' second (up ++ out) down' rest tells' ∧
        work = work' + 1 + out.length ∧ tells = told ++ rest := by
  induction h generalizing first' down' out told with
  | stop h _ => nomatch h.symm.trans hstep
  | @firstReads work n next second up down tells tells' hn h _ =>
    simp only [Dialogue.step, if_pos hn, Option.some.injEq, Prod.mk.injEq] at hstep
    obtain ⟨rfl, rfl, rfl, rfl⟩ := hstep
    exact ⟨work, tells, by rwa [List.append_nil], rfl, rfl⟩
  | @firstWrites work data first second up down tells tells' h _ =>
    simp only [Dialogue.step, Option.some.injEq, Prod.mk.injEq] at hstep
    obtain ⟨rfl, rfl, rfl, rfl⟩ := hstep
    exact ⟨work, tells, h, rfl, rfl⟩
  | @firstTells work e first second up down tells tells' h _ =>
    simp only [Dialogue.step, Option.some.injEq, Prod.mk.injEq] at hstep
    obtain ⟨rfl, rfl, rfl, rfl⟩ := hstep
    exact ⟨work, tells, by rwa [List.append_nil], rfl, rfl⟩
  | @secondReads work n first next up down tells tells' hn _ ih =>
    obtain ⟨work', rest, hrest, rfl, htells⟩ := ih hstep
    refine ⟨work' + 1, rest, .secondReads ?_ ?_, by omega, htells⟩
    · rw [List.length_append]
      omega
    · rwa [List.take_append_of_le_length hn, List.drop_append_of_le_length hn]
  | @secondWrites work data first second up down tells tells' _ ih =>
    obtain ⟨work', rest, hrest, rfl, htells⟩ := ih (Dialogue.step_append hstep data)
    exact ⟨work' + 1 + data.length, rest, .secondWrites hrest, by omega, htells⟩
  | @secondTells work e first second up down tells tells' _ ih =>
    obtain ⟨work', rest, hrest, rfl, htells⟩ := ih hstep
    exact ⟨work' + 1, rest, .secondTells hrest, by omega, htells⟩

/-- As long as the dialogues do not stand still, one of them can take a step. -/
theorem progress (h : Leads final final' leftUp leftDown work first second up down tells tells') :
    (first = final ∧ second = final' ∧ up = leftUp ∧ down = leftDown ∧ tells = [] ∧ tells' = []) ∨
      (first.step down).isSome ∨ (second.step up).isSome := by
  cases h with
  | stop => exact .inl ⟨rfl, rfl, rfl, rfl, rfl, rfl⟩
  | firstReads hn => exact .inr (.inl (by simp [Dialogue.step, hn]))
  | firstWrites => exact .inr (.inl rfl)
  | firstTells => exact .inr (.inl rfl)
  | secondReads hn => exact .inr (.inr (by simp [Dialogue.step, hn]))
  | secondWrites => exact .inr (.inr rfl)
  | secondTells => exact .inr (.inr rfl)

end Leads

end

section
variable {β E F α γ : Type}

/-- With these bytes on their way up to the second dialogue and down to the first, some order
of the steps ends the dialogues with `a` and `b` and leaves nothing on the way. `work` counts
the steps and the bytes still to be written; each list is what a dialogue is going to tell. -/
inductive Settles (a : α) (b : γ) : ℕ → Dialogue β E F α → Dialogue β E F γ →
    List β → List β → List E → List E → Prop
  | done : Settles a b 0 (.done a) (.done b) [] [] [] []
  | firstReads {work n : ℕ} {next : List β → Dialogue β E F α} {second : Dialogue β E F γ}
      {up down : List β} {tells tells' : List E} (hn : n ≤ down.length)
      (h : Settles a b work (next (down.take n)) second up (down.drop n) tells tells') :
      Settles a b (work + 1) (.reads n next) second up down tells tells'
  | firstWrites {work : ℕ} {data : List β} {first : Dialogue β E F α} {second : Dialogue β E F γ}
      {up down : List β} {tells tells' : List E}
      (h : Settles a b work first second (up ++ data) down tells tells') :
      Settles a b (work + 1 + data.length) (.writes data first) second up down tells tells'
  | firstTells {work : ℕ} {e : E} {first : Dialogue β E F α} {second : Dialogue β E F γ}
      {up down : List β} {tells tells' : List E}
      (h : Settles a b work first second up down tells tells') :
      Settles a b (work + 1) (.tells e first) second up down (e :: tells) tells'
  | secondReads {work n : ℕ} {first : Dialogue β E F α} {next : List β → Dialogue β E F γ}
      {up down : List β} {tells tells' : List E} (hn : n ≤ up.length)
      (h : Settles a b work first (next (up.take n)) (up.drop n) down tells tells') :
      Settles a b (work + 1) first (.reads n next) up down tells tells'
  | secondWrites {work : ℕ} {data : List β} {first : Dialogue β E F α}
      {second : Dialogue β E F γ} {up down : List β} {tells tells' : List E}
      (h : Settles a b work first second up (down ++ data) tells tells') :
      Settles a b (work + 1 + data.length) first (.writes data second) up down tells tells'
  | secondTells {work : ℕ} {e : E} {first : Dialogue β E F α} {second : Dialogue β E F γ}
      {up down : List β} {tells tells' : List E}
      (h : Settles a b work first second up down tells tells') :
      Settles a b (work + 1) first (.tells e second) up down tells (e :: tells')

namespace Settles

variable {a : α} {b : γ} {work : ℕ} {first : Dialogue β E F α} {second : Dialogue β E F γ}
  {up down : List β} {tells tells' : List E}

/-- Dialogues that come to their end come to a standstill there. -/
theorem iff_leads : Settles a b work first second up down tells tells' ↔
    Leads (.done a) (.done b) [] [] work first second up down tells tells' := by
  constructor
  · intro h
    induction h with
    | done => exact .stop rfl rfl
    | firstReads hn _ ih => exact .firstReads hn ih
    | firstWrites _ ih => exact .firstWrites ih
    | firstTells _ ih => exact .firstTells ih
    | secondReads hn _ ih => exact .secondReads hn ih
    | secondWrites _ ih => exact .secondWrites ih
    | secondTells _ ih => exact .secondTells ih
  · intro h
    induction h with
    | stop => exact .done
    | firstReads hn _ ih => exact .firstReads hn ih
    | firstWrites _ ih => exact .firstWrites ih
    | firstTells _ ih => exact .firstTells ih
    | secondReads hn _ ih => exact .secondReads hn ih
    | secondWrites _ ih => exact .secondWrites ih
    | secondTells _ ih => exact .secondTells ih

theorem swap (h : Settles a b work first second up down tells tells') :
    Settles b a work second first down up tells' tells :=
  iff_leads.mpr (iff_leads.mp h).swap

/-- Whatever step the first dialogue takes, the two can go on to the same end. -/
theorem step_first (h : Settles a b work first second up down tells tells')
    {first' : Dialogue β E F α} {down' out : List β} {told : List E}
    (hstep : first.step down = some (first', down', out, told)) :
    ∃ work' rest, Settles a b work' first' second (up ++ out) down' rest tells' ∧
      work = work' + 1 + out.length ∧ tells = told ++ rest := by
  obtain ⟨work', rest, hleads, hwork, htells⟩ := (iff_leads.mp h).step_first hstep
  exact ⟨work', rest, iff_leads.mpr hleads, hwork, htells⟩

theorem first_ne_fails (h : Settles a b work first second up down tells tells') (fault : F) :
    first ≠ .fails fault := by
  induction h with
  | secondReads _ _ ih => exact ih
  | secondWrites _ ih => exact ih
  | secondTells _ ih => exact ih
  | _ => nofun

theorem first_done (h : Settles a b work first second up down tells tells') {a' : α}
    (hdone : first = .done a') : a' = a := by
  induction h with
  | done => exact (Dialogue.done.inj hdone).symm
  | secondReads _ _ ih => exact ih hdone
  | secondWrites _ ih => exact ih hdone
  | secondTells _ ih => exact ih hdone
  | _ => nomatch hdone

/-- A dialogue that has ended has read all that is ever written to it, and told all. -/
theorem of_first_done (h : Settles a b work first second up down tells tells') {a' : α}
    (hdone : first = .done a') : down = [] ∧ tells = [] := by
  induction h with
  | done => exact ⟨rfl, rfl⟩
  | secondReads _ _ ih => exact ih hdone
  | secondWrites _ ih =>
    obtain ⟨hdown, htells⟩ := ih hdone
    exact ⟨(List.append_eq_nil_iff.mp hdown).1, htells⟩
  | secondTells _ ih => exact ih hdone
  | _ => nomatch hdone

/-- What is on the way suffices for whatever is read after the other dialogue has ended. -/
theorem le_of_second_done {n : ℕ} {next : List β → Dialogue β E F α} {b' : γ}
    (h : Settles a b work (.reads n next) (.done b') up down tells tells') :
    n ≤ down.length := by
  cases h with
  | firstReads hn => exact hn

/-- As long as not both have ended, one of them can take a step. -/
theorem progress (h : Settles a b work first second up down tells tells') :
    (first = .done a ∧ second = .done b) ∨ (first.step down).isSome ∨
      (second.step up).isSome := by
  obtain ⟨hfirst, hsecond, -⟩ | hsteps := (iff_leads.mp h).progress
  · exact .inl ⟨hfirst, hsecond⟩
  · exact .inr hsteps

end Settles

end

/-- A dialogue with the bytes that have arrived and were not read, what it has told, and what
its party has sent after it. -/
structure Party (β E F α : Type) where
  dialogue : Dialogue β E F α
  buffer : List β := []
  told : List E := []
  sent : List β := []

namespace Party

variable {β E F α : Type} (party : Party β E F α)

def step : Option (Party β E F α × List β) :=
  (party.dialogue.step party.buffer).map fun (dialogue, buffer, out, told) =>
    ({ party with
        dialogue := dialogue
        buffer := buffer
        told := party.told ++ told }, out)

/-- Once its dialogue has ended a party sends what it likes. -/
def sends (data : List β) : Option (Party β E F α) :=
  if party.dialogue.isDone then some { party with sent := party.sent ++ data } else none

/-- The first bytes on the way arrive, at least one and as many as the network likes. -/
def receives (n : ℕ) (way : List β) : Option (Party β E F α × List β) :=
  if 0 < n ∧ n ≤ way.length then
    some ({ party with buffer := party.buffer ++ way.take n }, way.drop n)
  else none

end Party

/-- `up` is on its way from the first party to the second, `down` on its way back. -/
structure Link (β E F α γ : Type) where
  first : Party β E F α
  second : Party β E F γ
  up : List β
  down : List β

inductive Move (β : Type) where
  | firstSteps
  | secondSteps
  | arrivesUp (n : ℕ)
  | arrivesDown (n : ℕ)
  | firstSends (data : List β)
  | secondSends (data : List β)

def Move.swap {β : Type} : Move β → Move β
  | firstSteps => secondSteps
  | secondSteps => firstSteps
  | arrivesUp n => arrivesDown n
  | arrivesDown n => arrivesUp n
  | firstSends data => secondSends data
  | secondSends data => firstSends data

/-- What the parties send after their dialogues is up to them. -/
def Move.sends {β : Type} : Move β → Bool
  | firstSends _ => true
  | secondSends _ => true
  | _ => false

namespace Link

variable {β E F α γ : Type}

def start (first : Dialogue β E F α) (second : Dialogue β E F γ) : Link β E F α γ :=
  ⟨{ dialogue := first }, { dialogue := second }, [], []⟩

def swap (link : Link β E F α γ) : Link β E F γ α :=
  ⟨link.second, link.first, link.down, link.up⟩

def step (link : Link β E F α γ) : Move β → Option (Link β E F α γ)
  | .firstSteps => link.first.step.map fun (party, out) =>
      { link with first := party, up := link.up ++ out }
  | .secondSteps => link.second.step.map fun (party, out) =>
      { link with second := party, down := link.down ++ out }
  | .arrivesUp n => (link.second.receives n link.up).map fun (party, up) =>
      { link with second := party, up := up }
  | .arrivesDown n => (link.first.receives n link.down).map fun (party, down) =>
      { link with first := party, down := down }
  | .firstSends data => (link.first.sends data).map fun party =>
      { link with first := party, up := link.up ++ data }
  | .secondSends data => (link.second.sends data).map fun party =>
      { link with second := party, down := link.down ++ data }

theorem step_swap (link : Link β E F α γ) (move : Move β) :
    link.swap.step move.swap = (link.step move).map swap := by
  cases move <;> simp only [step, swap, Move.swap, Option.map_map] <;> rfl

/-- The bytes that the first party puts on the way with a move. -/
def puts (link : Link β E F α γ) : Move β → List β
  | .firstSteps => (link.first.step.map Prod.snd).getD []
  | .firstSends data => data
  | _ => []

/-- The bytes that the first party puts on the way in a run. -/
def written (link : Link β E F α γ) : List (Move β) → List β
  | [] => []
  | move :: moves =>
    match link.step move with
    | some next => link.puts move ++ next.written moves
    | none => []

/-- Nothing is on the way to the second party, and it has nothing to do. -/
def still (link : Link β E F α γ) : Bool := link.up.isEmpty && link.second.step.isNone

theorem still_iff {link : Link β E F α γ} :
    link.still = true ↔ link.up = [] ∧ link.second.step = none := by
  rw [still, Bool.and_eq_true, List.isEmpty_iff, Option.isNone_iff_eq_none]

/-- What the parties have sent after their dialogues. -/
def sent (link : Link β E F α γ) : ℕ := link.first.sent.length + link.second.sent.length

/-- The steps still to be taken and the bytes that have to arrive. -/
def spare (work : ℕ) (link : Link β E F α γ) : ℕ := work + link.up.length + link.down.length

/-- The bytes that a party has not read are those of the other party's dialogue, with what is
sent after it behind them. -/
structure SoundWith (a : α) (b : γ) (told told' : List E) (work : ℕ) (link : Link β E F α γ)
    (up down : List β) (rest rest' : List E) : Prop where
  settles : Settles a b work link.first.dialogue link.second.dialogue up down rest rest'
  unread_second : link.second.buffer ++ link.up = up ++ link.first.sent
  unread_first : link.first.buffer ++ link.down = down ++ link.second.sent
  sent_first : link.first.sent = [] ∨ link.first.dialogue.isDone = true
  sent_second : link.second.sent = [] ∨ link.second.dialogue.isDone = true
  told_first : link.first.told ++ rest = told
  told_second : link.second.told ++ rest' = told'

def Sound (a : α) (b : γ) (told told' : List E) (work : ℕ) (link : Link β E F α γ) : Prop :=
  ∃ up down rest rest', SoundWith a b told told' work link up down rest rest'

variable {a : α} {b : γ} {told told' : List E} {work : ℕ} {link link' : Link β E F α γ}

/-- Whatever moves, the second dialogue is on its way to the same end. -/
theorem feed_step (short : F) {move : Move β} (hstep : link.step move = some link')
    (more : List β) :
    link.second.dialogue.feed short (link.second.buffer ++ (link.up ++ (link.puts move ++ more))) =
      link'.second.dialogue.feed short (link'.second.buffer ++ (link'.up ++ more)) := by
  cases move with
  | firstSteps =>
    obtain ⟨⟨party, out⟩, hparty, rfl⟩ := Option.map_eq_some_iff.mp hstep
    simp [puts, hparty]
  | secondSteps =>
    obtain ⟨⟨party, out⟩, hparty, rfl⟩ := Option.map_eq_some_iff.mp hstep
    obtain ⟨⟨dialogue, buffer, out', told⟩, hdialogue, heq⟩ := Option.map_eq_some_iff.mp hparty
    obtain ⟨rfl, rfl⟩ := Prod.mk.inj heq
    exact Dialogue.feed_step short hdialogue _
  | arrivesUp n =>
    obtain ⟨⟨party, up⟩, hparty, rfl⟩ := Option.map_eq_some_iff.mp hstep
    obtain ⟨-, heq⟩ := Option.ite_none_right_eq_some.mp hparty
    obtain ⟨rfl, rfl⟩ := Prod.mk.inj (Option.some.inj heq)
    simp only [puts, List.nil_append, List.append_assoc]
    rw [← List.append_assoc (List.take n link.up), List.take_append_drop]
  | arrivesDown n =>
    obtain ⟨⟨party, down⟩, -, rfl⟩ := Option.map_eq_some_iff.mp hstep
    rfl
  | firstSends data =>
    obtain ⟨party, -, rfl⟩ := Option.map_eq_some_iff.mp hstep
    simp [puts]
  | secondSends data =>
    obtain ⟨party, hparty, rfl⟩ := Option.map_eq_some_iff.mp hstep
    obtain ⟨-, heq⟩ := Option.ite_none_right_eq_some.mp hparty
    obtain rfl := Option.some.inj heq
    rfl

/-- In every run the second dialogue is on its way to where all that the first party has
written leads it. -/
theorem feed_run (short : F) {moves : List (Move β)}
    (hrun : Machine.run step link moves = some link') :
    link.second.dialogue.feed short (link.second.buffer ++ (link.up ++ link.written moves)) =
      link'.second.dialogue.feed short (link'.second.buffer ++ link'.up) := by
  induction moves generalizing link with
  | nil =>
    obtain rfl := Option.some.inj hrun
    rw [written, List.append_nil]
  | cons move moves ih =>
    obtain ⟨next, hstep, hrest⟩ := Option.bind_eq_some_iff.mp hrun
    rw [written, hstep, feed_step short hstep]
    exact ih hrest

/-- A dialogue that has ended came to its result on what the first party has written, without
what it has not read. -/
theorem feed_of_done (short : F) {first : Dialogue β E F α} {second : Dialogue β E F γ}
    {moves : List (Move β)} (hrun : Machine.run step (start first second) moves = some link)
    (hdone : link.second.dialogue = .done b) :
    second.feed short ((start first second).written moves) =
      .ok (b, link.second.buffer ++ link.up) := by
  have hfeed := feed_run short hrun
  rw [hdone] at hfeed
  exact hfeed

/-- A dialogue that stands still has come to the result that it has on what the first party has
written. -/
theorem done_of_feed {short : F} {first : Dialogue β E F α} {second : Dialogue β E F γ}
    {moves : List (Move β)} {rest : List β}
    (hrun : Machine.run step (start first second) moves = some link)
    (hfeed : second.feed short ((start first second).written moves) = .ok (b, rest))
    (hstill : link.still = true) : link.second.dialogue = .done b := by
  obtain ⟨hup, hstep⟩ := still_iff.mp hstill
  have hend := (feed_run short hrun).symm.trans hfeed
  rw [hup, List.append_nil] at hend
  exact Dialogue.done_of_feed hend (Option.map_eq_none_iff.mp hstep)

theorem Sound.swap (h : Sound a b told told' work link) :
    Sound b a told' told work link.swap := by
  obtain ⟨up, down, rest, rest', h⟩ := h
  refine ⟨down, up, rest', rest, ?_⟩
  exact {
    settles := h.settles.swap
    unread_second := h.unread_first
    unread_first := h.unread_second
    sent_first := h.sent_second
    sent_second := h.sent_first
    told_first := h.told_second
    told_second := h.told_first }

variable (a b told told') in
/-- The state after a move is sound, and a move that is not a sending uses up spare work. -/
def Advances (work : ℕ) (link : Link β E F α γ) (move : Move β) (link' : Link β E F α γ) : Prop :=
  ∃ work', Sound a b told told' work' link' ∧
    (if move.sends then 0 else 1) + link'.spare work' + link.sent ≤ link.spare work + link'.sent

theorem Advances.swap {move : Move β} (h : Advances b a told' told work link.swap move.swap
    link'.swap) : Advances a b told told' work link move link' := by
  obtain ⟨work', hsound, hle⟩ := h
  refine ⟨work', hsound.swap, ?_⟩
  have hsends : move.swap.sends = move.sends := by cases move <;> rfl
  rw [hsends] at hle
  simp only [spare, sent, Link.swap] at hle ⊢
  omega

theorem sound_firstSteps (h : Sound a b told told' work link)
    (hstep : link.step .firstSteps = some link') :
    Advances a b told told' work link .firstSteps link' := by
  obtain ⟨up, down, rest, rest', h⟩ := h
  simp only [step, Party.step, Option.map_eq_some_iff] at hstep
  obtain ⟨-, ⟨⟨dialogue, buffer, out, news⟩, hdialogue, rfl⟩, rfl⟩ := hstep
  have hrunning : link.first.dialogue.isDone = false := Dialogue.not_isDone_of_step hdialogue
  have hquiet : link.first.sent = [] := by
    obtain hquiet | hdone := h.sent_first
    · exact hquiet
    · nomatch hrunning.symm.trans hdone
  have hreads : ∀ n next, link.first.dialogue = .reads n next → n ≤ link.first.buffer.length →
      n ≤ down.length := by
    intro n next hreads hn
    obtain hsilent | hdone := h.sent_second
    · have hlength := congrArg List.length h.unread_first
      rw [hsilent, List.append_nil, List.length_append] at hlength
      omega
    · obtain ⟨b', hb⟩ := Dialogue.isDone_iff.mp hdone
      have hsettles := h.settles
      rw [hreads, hb] at hsettles
      exact hsettles.le_of_second_done
  obtain ⟨down', hdown, hunread⟩ :=
    Dialogue.step_of_unread h.unread_first hreads hdialogue
  obtain ⟨work', rest₁, hsettles, hwork, hrest⟩ := h.settles.step_first hdown
  refine ⟨work', ⟨up ++ out, down', rest₁, rest', ?_⟩, ?_⟩
  · constructor
    · exact hsettles
    · show link.second.buffer ++ (link.up ++ out) = up ++ out ++ link.first.sent
      rw [← List.append_assoc, h.unread_second, hquiet, List.append_nil, List.append_nil]
    · exact hunread
    · exact .inl hquiet
    · exact h.sent_second
    · rw [List.append_assoc, ← hrest]
      exact h.told_first
    · exact h.told_second
  · simp only [spare, sent, Move.sends, List.length_append]
    simp only [Bool.false_eq_true, if_false]
    omega

theorem sound_arrivesUp (h : Sound a b told told' work link) {n : ℕ}
    (hstep : link.step (.arrivesUp n) = some link') :
    Advances a b told told' work link (.arrivesUp n) link' := by
  obtain ⟨up, down, rest, rest', h⟩ := h
  simp only [step, Party.receives, Option.map_eq_some_iff, Option.ite_none_right_eq_some,
    Option.some.injEq] at hstep
  obtain ⟨-, ⟨⟨hpos, hn⟩, rfl⟩, rfl⟩ := hstep
  refine ⟨work, ⟨up, down, rest, rest', ?_⟩, ?_⟩
  · constructor
    · exact h.settles
    · show link.second.buffer ++ link.up.take n ++ link.up.drop n = up ++ link.first.sent
      rw [List.append_assoc, List.take_append_drop, h.unread_second]
    · exact h.unread_first
    · exact h.sent_first
    · exact h.sent_second
    · exact h.told_first
    · exact h.told_second
  · simp only [spare, sent, Move.sends, List.length_drop, Bool.false_eq_true, if_false]
    omega

theorem sound_firstSends (h : Sound a b told told' work link) {data : List β}
    (hstep : link.step (.firstSends data) = some link') :
    Advances a b told told' work link (.firstSends data) link' := by
  obtain ⟨up, down, rest, rest', h⟩ := h
  simp only [step, Party.sends, Option.map_eq_some_iff, Option.ite_none_right_eq_some,
    Option.some.injEq] at hstep
  obtain ⟨-, ⟨hdone, rfl⟩, rfl⟩ := hstep
  refine ⟨work, ⟨up, down, rest, rest', ?_⟩, ?_⟩
  · constructor
    · exact h.settles
    · show link.second.buffer ++ (link.up ++ data) = up ++ (link.first.sent ++ data)
      rw [← List.append_assoc, h.unread_second, List.append_assoc]
    · exact h.unread_first
    · exact .inr hdone
    · exact h.sent_second
    · exact h.told_first
    · exact h.told_second
  · simp only [spare, sent, Move.sends, List.length_append, if_true]
    omega

theorem sound_step (h : Sound a b told told' work link) {move : Move β}
    (hstep : link.step move = some link') : Advances a b told told' work link move link' := by
  have hswap : link.swap.step move.swap = some link'.swap := by
    rw [step_swap, hstep, Option.map_some]
  cases move with
  | firstSteps => exact sound_firstSteps h hstep
  | secondSteps => exact (sound_firstSteps h.swap hswap).swap
  | arrivesUp n => exact sound_arrivesUp h hstep
  | arrivesDown n => exact (sound_arrivesUp h.swap hswap).swap
  | firstSends data => exact sound_firstSends h hstep
  | secondSends data => exact (sound_firstSends h.swap hswap).swap

theorem sound_start {first : Dialogue β E F α} {second : Dialogue β E F γ}
    (h : Settles a b work first second [] [] told told') :
    Sound a b told told' work (start first second) := by
  refine ⟨[], [], told, told', ?_⟩
  constructor
  · exact h
  · rfl
  · rfl
  · exact .inl rfl
  · exact .inl rfl
  · rfl
  · rfl

/-- What one step does, a run does. -/
theorem sound_run (h : Sound a b told told' work link) {moves : List (Move β)}
    (hrun : Machine.run step link moves = some link') :
    ∃ work', Sound a b told told' work' link' ∧
      moves.countP (fun move => !move.sends) + link'.spare work' + link.sent ≤
        link.spare work + link'.sent := by
  induction moves generalizing work link with
  | nil =>
    obtain rfl := Option.some.inj hrun
    exact ⟨work, h, by simp⟩
  | cons move moves ih =>
    obtain ⟨link₁, hstep, hrest⟩ := Option.bind_eq_some_iff.mp hrun
    obtain ⟨work₁, hsound, hle⟩ := sound_step h hstep
    obtain ⟨work', hsound', hle'⟩ := ih hsound hrest
    refine ⟨work', hsound', ?_⟩
    cases hsends : move.sends with
    | true =>
      simp only [hsends, if_true] at hle
      rw [List.countP_cons_of_neg (by simp [hsends])]
      omega
    | false =>
      simp only [hsends, Bool.false_eq_true, if_false] at hle
      rw [List.countP_cons_of_pos (by simp [hsends])]
      omega

/-- A dialogue that could go on with what is not yet read does so, or some of it arrives. -/
theorem moves_of_step {party : Party β E F α} {way front sent : List β}
    (hunread : party.buffer ++ way = front ++ sent) (h : (party.dialogue.step front).isSome) :
    party.step.isSome ∨ (party.receives way.length way).isSome := by
  simp only [Party.step, Option.isSome_map]
  cases hdialogue : party.dialogue with
  | done a => simp [hdialogue, Dialogue.step] at h
  | fails fault => simp [hdialogue, Dialogue.step] at h
  | writes data rest => exact .inl rfl
  | tells e rest => exact .inl rfl
  | reads n next =>
    have hn : n ≤ front.length := by
      by_contra hn
      simp [hdialogue, Dialogue.step, hn] at h
    by_cases hready : n ≤ party.buffer.length
    · exact .inl (by simp [Dialogue.step, hready])
    · right
      have hlength := congrArg List.length hunread
      rw [List.length_append, List.length_append] at hlength
      have hpos : 0 < way.length := by omega
      simp [Party.receives, hpos]

theorem Sound.progress (h : Sound a b told told' work link) :
    (link.first.dialogue = .done a ∧ link.second.dialogue = .done b) ∨
      ∃ move, move.sends = false ∧ (link.step move).isSome := by
  obtain ⟨up, down, rest, rest', h⟩ := h
  obtain hdone | hfirst | hsecond := h.settles.progress
  · exact .inl hdone
  · right
    obtain hstep | harrives := moves_of_step h.unread_first hfirst
    · exact ⟨.firstSteps, rfl, by simpa [step] using hstep⟩
    · exact ⟨.arrivesDown link.down.length, rfl, by simpa [step] using harrives⟩
  · right
    obtain hstep | harrives := moves_of_step h.unread_second hsecond
    · exact ⟨.secondSteps, rfl, by simpa [step] using hstep⟩
    · exact ⟨.arrivesUp link.up.length, rfl, by simpa [step] using harrives⟩

/-- No dialogue fails. One that has ended has its result, has told all it was to tell, and
leaves to be read exactly what the other party sends. As long as one has not ended, something
moves by itself, and it does so only so many times. -/
structure HandsOver (a : α) (b : γ) (told told' : List E) (work : ℕ) (moves : List (Move β))
    (link : Link β E F α γ) : Prop where
  unfailing : ∀ fault, link.first.dialogue ≠ .fails fault ∧ link.second.dialogue ≠ .fails fault
  first_ends : ∀ result, link.first.dialogue = .done result → result = a ∧
    link.first.told = told ∧ link.first.buffer ++ link.down = link.second.sent
  second_ends : ∀ result, link.second.dialogue = .done result → result = b ∧
    link.second.told = told' ∧ link.second.buffer ++ link.up = link.first.sent
  progress : (link.first.dialogue = .done a ∧ link.second.dialogue = .done b) ∨
    ∃ move, move.sends = false ∧ (link.step move).isSome
  bounded : moves.countP (fun move => !move.sends) ≤ work + link.sent

theorem Sound.first_ends (h : Sound a b told told' work link) {result : α}
    (hdone : link.first.dialogue = .done result) :
    result = a ∧ link.first.told = told ∧ link.first.buffer ++ link.down = link.second.sent := by
  obtain ⟨up, down, rest, rest', h⟩ := h
  obtain ⟨rfl, rfl⟩ := h.settles.of_first_done hdone
  refine ⟨h.settles.first_done hdone, ?_, h.unread_first⟩
  rw [← h.told_first, List.append_nil]

/-- If one order of the steps ends the dialogues, every run hands the streams over. -/
theorem handsOver {first : Dialogue β E F α} {second : Dialogue β E F γ}
    (h : Settles a b work first second [] [] told told') {moves : List (Move β)}
    (hrun : Machine.run step (start first second) moves = some link) :
    HandsOver a b told told' work moves link := by
  obtain ⟨work', hsound, hle⟩ := sound_run (sound_start h) hrun
  constructor
  · intro fault
    obtain ⟨up, down, rest, rest', hwith⟩ := hsound
    exact ⟨hwith.settles.first_ne_fails fault, hwith.settles.swap.first_ne_fails fault⟩
  · exact fun result hdone => hsound.first_ends hdone
  · exact fun result hdone => hsound.swap.first_ends hdone
  · exact hsound.progress
  · simp only [spare, sent, start, List.length_nil] at hle ⊢
    omega

end Link

end WireRpc.Library
