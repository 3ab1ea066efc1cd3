import WireRpc.Codec
import WireRpc.Library.Framing
import WireRpc.Library.Machine

/-!
# Reading stdin

`_StdinPump`: a daemon thread reads from the descriptor and posts what it gets to the event
loop, which feeds it to a `StreamReader`. The reader pauses the thread when its buffer is full
and resumes it when a read needs more. `recv` of `StdIoServerTransport` reads frames from it,
one call at a time. An event is a stretch of the thread, a posted callback, or a stretch of
the task that reads.
-/
namespace WireRpc.StdinPump
open Library Framing

/-- An `OSError`, by its number. -/
abbrev OSError := ℕ

/-- What the thread posts: `feed_data`, `feed_eof` or `set_exception`. -/
inductive Item where
  | data (chunk : Bytes)
  | eof
  | failed (error : OSError)
  deriving DecidableEq

def Item.bytes : Item → Bytes
  | data chunk => chunk
  | _ => []

/-- The thread ends after it has posted this. -/
def Item.isLast : Item → Bool
  | data _ => false
  | _ => true

/-- The daemon thread waits for `_resume`, where `set` may have woken it, is in `os.read`, has
something to post, or has returned. -/
inductive Thread where
  | waiting (woken : Bool)
  | reading
  | posting (item : Item)
  | ended
  deriving DecidableEq

def Thread.items : Thread → List Item
  | posting item => [item]
  | _ => []

/-- The thread gets to `os.read` though it is not resumed. -/
def Thread.goesOn : Thread → Bool
  | waiting woken => woken
  | reading => true
  | _ => false

def Thread.wake : Thread → Thread
  | waiting _ => waiting true
  | thread => thread

/-- The two calls of `readexactly` in `_read_frame`. -/
inductive Asking where
  | header
  | payload (header : Bytes)
  deriving DecidableEq

def Asking.size : Asking → ℕ
  | header => 4
  | payload bytes => fromBytes bytes

/-- What the task has read of the frame. -/
def Asking.held : Asking → Bytes
  | header => []
  | payload bytes => bytes

/-- The task that reads waits for data, or has been woken, possibly with an exception. -/
inductive Reader where
  | idle
  | waiting (asking : Asking)
  | woken (asking : Asking) (error : Option OSError)
  deriving DecidableEq

/-- The constructor refuses a limit that does not fit the length of a frame. -/
structure Config where
  limit : ℕ
  maxFrameSize : ℕ
  fits : maxFrameSize ≤ 0xFFFFFFFF

/-- `resume` and `closed` belong to the pump, `buffer`, `paused`, `eof` and `exception` to the
`StreamReader`. `writerClosing` is the writer that a failed read closes. The rest is the
history: the bytes that `os.read` returned, those taken from the buffer, the payloads returned,
whether something was dropped, and how many chunks were read since the last pause. -/
structure State where
  resume : Bool := true
  closed : Bool := false
  loopClosed : Bool := false
  thread : Thread := .waiting false
  callbacks : List Item := []
  buffer : Bytes := []
  paused : Bool := false
  eof : Bool := false
  exception : Option OSError := none
  reader : Reader := .idle
  writerClosing : Bool := false
  taken : Bytes := []
  consumed : Bytes := []
  returned : List Bytes := []
  dropped : Bool := false
  sincePause : ℕ := 0

/-- `cancel` is a cancellation or the timeout of a read, `closeWriter` what a failed `send`
does. -/
inductive Event where
  | proceed
  | osRead (chunk : Bytes)
  | osEof
  | osError (error : OSError)
  | post
  | callback
  | recv
  | resume
  | cancel
  | closeWriter
  | close
  | closeLoop
  deriving DecidableEq

section
variable (s : State)

/-- `_resume.set()`, which wakes a thread that waits. -/
def setResume : State := { s with resume := true, thread := s.thread.wake }

def pauseReading : State := { s with resume := false, sincePause := 0 }

def close : State := setResume { s with closed := true }

/-- What the thread does after it has posted an item, or could not. -/
def Item.next (item : Item) : Thread := if item.isLast then .ended else .waiting false

def post (item : Item) : State :=
  if s.closed then { s with thread := item.next, dropped := true }
  else if s.loopClosed then { s with thread := item.next, dropped := true, closed := true }
  else { s with thread := item.next, callbacks := s.callbacks ++ [item] }

/-- `_wakeup_waiter`, and what `set_exception` does in its place. -/
def wakeup (error : Option OSError) : State :=
  match s.reader with
  | .waiting asking => { s with reader := .woken asking error }
  | _ => s

/-- `feed_data` after it has woken the reader. -/
def pauseIfFull (limit : ℕ) : State :=
  if s.paused = false ∧ 2 * limit < s.buffer.length then pauseReading { s with paused := true }
  else s

def callback (limit : ℕ) : Item → State
  | .data chunk => pauseIfFull (wakeup { s with buffer := s.buffer ++ chunk } none) limit
  | .eof => wakeup { s with eof := true } none
  | .failed error => wakeup { s with exception := some error } (some error)

/-- `_read_frame` raises, and closes the writer. -/
def fail : State := { s with reader := .idle, writerClosing := true }

/-- The reader resumes the thread if it had paused it. -/
def unpause : State := if s.paused then setResume { s with paused := false } else s

def take (n : ℕ) : State :=
  { s with buffer := s.buffer.drop n, consumed := s.consumed ++ s.buffer.take n }

/-- `_maybe_resume_transport`. -/
def maybeResume (limit : ℕ) : State := if s.buffer.length ≤ limit then unpause s else s

/-- The loop of `readexactly` when the buffer is too short. -/
def await (asking : Asking) : State :=
  if s.eof then fail (take s s.buffer.length) else { unpause s with reader := .waiting asking }

/-- The loop of the `readexactly` that asks for the payload, and what follows it. -/
def readRest (c : Config) (header : Bytes) : State :=
  if s.buffer.length < fromBytes header then await s (.payload header)
  else
    { maybeResume (take s (fromBytes header)) c.limit with
      reader := .idle
      returned := s.returned ++ [s.buffer.take (fromBytes header)] }

/-- `_read_frame` once it has the header. `readexactly` looks for an exception first. -/
def readPayload (c : Config) (header : Bytes) : State :=
  if fromBytes header = 0 ∨ c.maxFrameSize < fromBytes header then fail s
  else if s.exception.isSome then fail s
  else readRest s c header

/-- The loop of the `readexactly` that asks for the header, and what follows it. -/
def readHeader (c : Config) : State :=
  if s.buffer.length < 4 then await s .header
  else readPayload (maybeResume (take s 4) c.limit) c (s.buffer.take 4)

def recv (c : Config) : State :=
  if s.writerClosing then s else if s.exception.isSome then fail s else readHeader s c

/-- The reader goes on after it was woken. -/
def resume (c : Config) : Asking → State
  | .header => readHeader s c
  | .payload header => readRest s c header

end

def step (c : Config) (s : State) : Event → Option State
  | .proceed =>
    match s.thread with
    | .waiting woken =>
      if s.resume || woken then some { s with thread := if s.closed then .ended else .reading }
      else none
    | _ => none
  | .osRead chunk =>
    if s.thread = .reading ∧ chunk ≠ [] ∧ chunk.length ≤ 65536 then
      some {
        s with
        thread := .posting (.data chunk)
        taken := s.taken ++ chunk
        sincePause := s.sincePause + 1 }
    else none
  | .osEof => if s.thread = .reading then some { s with thread := .posting .eof } else none
  | .osError error =>
    if s.thread = .reading then some { s with thread := .posting (.failed error) } else none
  | .post =>
    match s.thread with
    | .posting item => some (post s item)
    | _ => none
  | .callback =>
    match s.callbacks with
    | [] => none
    | item :: rest =>
      if s.loopClosed then none else some (callback { s with callbacks := rest } c.limit item)
  | .recv => if s.reader = .idle then some (recv s c) else none
  | .resume =>
    match s.reader with
    | .woken asking error =>
      some (if error.isSome then fail s else resume s c asking)
    | _ => none
  | .cancel =>
    match s.reader with
    | .idle => none
    | _ => some (fail s)
  | .closeWriter => some { s with writerClosing := true }
  | .close => some (close s)
  | .closeLoop => some { s with loopClosed := true }

/-- What is on its way to the reader. -/
def line (s : State) : List Item := s.callbacks ++ s.thread.items

/-- What the thread has read is what was taken from the buffer, what is in it and what is on
its way to it, unless something was dropped. The end of file and the failure of a read come
last, and after them the thread returns. -/
structure Flow (s : State) : Prop where
  stream : ∃ rest, s.taken = s.consumed ++ s.buffer ++ (line s).flatMap Item.bytes ++ rest ∧
    (s.dropped = false → rest = [])
  dropped : s.dropped = true → s.closed = true ∧ s.thread.items = [] ∧ s.thread ≠ .reading
  last : ∀ items item, line s = items ++ [item] → ∀ earlier ∈ items, earlier.isLast = false
  exhausted : s.eof = true ∨ s.exception.isSome = true → line s = [] ∧ s.thread = .ended
  returns : ∀ item ∈ s.callbacks, item.isLast = true → s.thread = .ended
  ended : s.thread = .ended → s.closed = false →
    (∃ item ∈ s.callbacks, item.isLast = true) ∨ s.eof = true ∨ s.exception.isSome = true

/-- The thread is resumed exactly when the reader has not paused it. While it is not, it reads
one chunk more at most. -/
structure Throttled (s : State) : Prop where
  resume : s.closed = false → s.resume = !s.paused
  atMostOne : s.resume = false → s.sincePause + (if s.thread.goesOn then 1 else 0) ≤ 1

/-- What a stretch of the task that reads leaves as it was. -/
structure Reads (s s' : State) : Prop where
  taken : s'.taken = s.taken
  dropped : s'.dropped = s.dropped
  closed : s'.closed = s.closed
  callbacks : s'.callbacks = s.callbacks
  eof : s'.eof = s.eof
  exception : s'.exception = s.exception
  sincePause : s'.sincePause = s.sincePause
  stream : s'.consumed ++ s'.buffer = s.consumed ++ s.buffer
  pause : (s'.resume = s.resume ∧ s'.paused = s.paused ∧ s'.thread = s.thread) ∨
    (s'.resume = true ∧ s'.paused = false ∧ s'.thread = s.thread.wake)

section
variable {c : Config} {s s' t : State} {e : Event}

@[simp] theorem Thread.wake_items (thread : Thread) : thread.wake.items = thread.items := by
  cases thread <;> rfl

@[simp] theorem Thread.wake_wake (thread : Thread) : thread.wake.wake = thread.wake := by
  cases thread <;> rfl

theorem Thread.wake_eq_ended {thread : Thread} : thread.wake = ended ↔ thread = ended := by
  cases thread <;> simp [wake]

theorem Thread.wake_eq_reading {thread : Thread} : thread.wake = reading ↔ thread = reading := by
  cases thread <;> simp [wake]

theorem Reads.refl (s : State) : Reads s s :=
  ⟨rfl, rfl, rfl, rfl, rfl, rfl, rfl, rfl, .inl ⟨rfl, rfl, rfl⟩⟩

theorem Reads.trans (h : Reads s s') (h' : Reads s' t) : Reads s t where
  taken := h'.taken.trans h.taken
  dropped := h'.dropped.trans h.dropped
  closed := h'.closed.trans h.closed
  callbacks := h'.callbacks.trans h.callbacks
  eof := h'.eof.trans h.eof
  exception := h'.exception.trans h.exception
  sincePause := h'.sincePause.trans h.sincePause
  stream := h'.stream.trans h.stream
  pause := by
    obtain ⟨hresume, hpaused, hthread⟩ | ⟨hresume, hpaused, hthread⟩ := h'.pause
    · rw [hresume, hpaused, hthread]
      exact h.pause
    · refine Or.inr ⟨hresume, hpaused, ?_⟩
      obtain ⟨-, -, hbefore⟩ | ⟨-, -, hbefore⟩ := h.pause
      · rw [hthread, hbefore]
      · rw [hthread, hbefore, Thread.wake_wake]

theorem reads_fail (s : State) : Reads s (fail s) := { Reads.refl s with }

theorem reads_take (s : State) (n : ℕ) : Reads s (take s n) := {
  Reads.refl s with
  stream := by
    show s.consumed ++ s.buffer.take n ++ s.buffer.drop n = s.consumed ++ s.buffer
    rw [List.append_assoc, List.take_append_drop] }

theorem reads_unpause (s : State) : Reads s (unpause s) := by
  unfold unpause
  split_ifs
  · exact { Reads.refl s with pause := Or.inr ⟨rfl, rfl, rfl⟩ }
  · exact .refl s

theorem reads_maybeResume (s : State) (limit : ℕ) : Reads s (maybeResume s limit) := by
  unfold maybeResume
  split_ifs
  · exact reads_unpause s
  · exact .refl s

theorem reads_await (s : State) (asking : Asking) : Reads s (await s asking) := by
  unfold await
  split_ifs
  · exact (reads_take s _).trans (reads_fail _)
  · exact (reads_unpause s).trans { Reads.refl _ with }

/-- The end of `readexactly`, before what the caller does with the bytes. -/
theorem reads_complete (s : State) (n limit : ℕ) : Reads s (maybeResume (take s n) limit) :=
  (reads_take s n).trans (reads_maybeResume _ limit)

theorem reads_readRest (s : State) (c : Config) (header : Bytes) :
    Reads s (readRest s c header) := by
  unfold readRest
  split_ifs
  · exact reads_await s _
  · exact (reads_complete s _ _).trans { Reads.refl _ with }

theorem reads_readPayload (s : State) (c : Config) (header : Bytes) :
    Reads s (readPayload s c header) := by
  unfold readPayload
  split_ifs
  · exact reads_fail s
  · exact reads_fail s
  · exact reads_readRest s c header

theorem reads_readHeader (s : State) (c : Config) : Reads s (readHeader s c) := by
  unfold readHeader
  split_ifs
  · exact reads_await s _
  · exact (reads_complete s _ _).trans (reads_readPayload _ c _)

theorem reads_resume (s : State) (c : Config) (asking : Asking) : Reads s (resume s c asking) := by
  cases asking with
  | header => exact reads_readHeader s c
  | payload header => exact reads_readRest s c header

theorem reads_recv (s : State) (c : Config) : Reads s (recv s c) := by
  unfold recv
  split_ifs
  · exact .refl s
  · exact reads_fail s
  · exact reads_readHeader s c

theorem Reads.items (h : Reads s s') : s'.thread.items = s.thread.items := by
  obtain ⟨-, -, hthread⟩ | ⟨-, -, hthread⟩ := h.pause <;> simp [hthread]

theorem Reads.ended (h : Reads s s') : s'.thread = .ended ↔ s.thread = .ended := by
  obtain ⟨-, -, hthread⟩ | ⟨-, -, hthread⟩ := h.pause <;> simp [hthread, Thread.wake_eq_ended]

theorem Reads.reading (h : Reads s s') : s'.thread = .reading ↔ s.thread = .reading := by
  obtain ⟨-, -, hthread⟩ | ⟨-, -, hthread⟩ := h.pause <;> simp [hthread, Thread.wake_eq_reading]

theorem Reads.line (h : Reads s s') : line s' = line s := by
  rw [StdinPump.line, StdinPump.line, h.callbacks, h.items]

theorem Flow.reads (hf : Flow s) (h : Reads s s') : Flow s' where
  stream := by
    obtain ⟨rest, hrest, hdropped⟩ := hf.stream
    refine ⟨rest, ?_, ?_⟩
    · rw [h.taken, h.line, h.stream, hrest]
    · rwa [h.dropped]
  dropped := by
    rw [h.dropped, h.closed, h.items, Ne, h.reading]
    exact hf.dropped
  last := by
    rw [h.line]
    exact hf.last
  exhausted := by
    rw [h.eof, h.exception, h.line, h.ended]
    exact hf.exhausted
  returns := by
    rw [h.callbacks, h.ended]
    exact hf.returns
  ended := by
    rw [h.callbacks, h.eof, h.exception, h.closed, h.ended]
    exact hf.ended

theorem Throttled.reads (hp : Throttled s) (h : Reads s s') : Throttled s' := by
  obtain ⟨hresume, hpaused, hthread⟩ | ⟨hresume, hpaused, -⟩ := h.pause
  · constructor
    · rw [h.closed, hresume, hpaused]
      exact hp.resume
    · rw [h.sincePause, hresume, hthread]
      exact hp.atMostOne
  · constructor
    · rw [hresume, hpaused]
      exact fun _ => rfl
    · rw [hresume]
      nofun

theorem Flow.none_last (h : Flow s) (hthread : s.thread ≠ .ended) :
    ∀ item ∈ s.callbacks, item.isLast = false := by
  intro item hitem
  by_contra hlast
  exact hthread (h.returns item hitem (by simpa using hlast))

theorem Flow.fresh (h : Flow s) (hthread : s.thread ≠ .ended) :
    s.eof = false ∧ s.exception.isSome = false := by
  by_contra hne
  refine hthread (h.exhausted ?_).2
  by_contra hnone
  exact hne (by simpa using hnone)

theorem Flow.proceed {woken : Bool} (h : Flow s) (hthread : s.thread = .waiting woken) :
    Flow { s with thread := if s.closed then .ended else .reading } where
  stream := by
    have hline : line { s with thread := if s.closed then .ended else .reading } = line s := by
      rw [line, line, hthread]
      show s.callbacks ++ Thread.items (if s.closed then .ended else .reading) = s.callbacks ++ []
      split_ifs <;> rfl
    rw [hline]
    exact h.stream
  dropped hdropped := by
    have hclosed := (h.dropped hdropped).1
    simp [hclosed, Thread.items]
  last items item hitems earlier hearlier := by
    have hmem : earlier ∈ s.callbacks := by
      have hline : s.callbacks = items ++ [item] := by
        have hnone : Thread.items (if s.closed then .ended else .reading) = [] := by
          split_ifs <;> rfl
        simpa [line, hnone] using hitems
      rw [hline]
      exact List.mem_append_left _ hearlier
    exact h.none_last (by simp [hthread]) earlier hmem
  exhausted hex := by
    have hended := (h.exhausted hex).2
    rw [hthread] at hended
    cases hended
  returns item hitem hlast := by
    have hended := h.returns item hitem hlast
    rw [hthread] at hended
    cases hended
  ended hended hopen := by
    change s.closed = false at hopen
    simp [hopen] at hended

/-- `os.read` has returned or raised. -/
theorem Flow.read {item : Item} (h : Flow s) (hthread : s.thread = .reading) (n : ℕ) :
    Flow { s with thread := .posting item, taken := s.taken ++ item.bytes, sincePause := n } where
  stream := by
    obtain ⟨rest, hrest, hdropped⟩ := h.stream
    have hkept : s.dropped = false := by
      by_contra hd
      exact (h.dropped (by simpa using hd)).2.2 hthread
    refine ⟨[], ?_, fun _ => rfl⟩
    rw [hdropped hkept, List.append_nil] at hrest
    show s.taken ++ item.bytes =
      s.consumed ++ s.buffer ++ (s.callbacks ++ [item]).flatMap Item.bytes ++ []
    rw [hrest, line, hthread]
    simp [Thread.items]
  dropped hdropped := absurd hthread (h.dropped hdropped).2.2
  last items last hitems earlier hearlier := by
    have hsplit : s.callbacks ++ [item] = items ++ [last] := hitems
    obtain ⟨hcallbacks, -⟩ := List.append_inj' hsplit rfl
    exact h.none_last (by simp [hthread]) earlier (hcallbacks ▸ hearlier)
  exhausted hex := by
    have hended := (h.exhausted hex).2
    rw [hthread] at hended
    cases hended
  returns item hitem hlast := by
    have hended := h.returns item hitem hlast
    rw [hthread] at hended
    cases hended
  ended hended := absurd hended nofun

theorem Item.next_items (item : Item) : item.next.items = [] := by
  unfold Item.next
  split_ifs <;> rfl

theorem Item.next_eq_ended {item : Item} : item.next = .ended ↔ item.isLast = true := by
  unfold Item.next
  split_ifs with h <;> simp [h]

theorem Item.next_ne_reading (item : Item) : item.next ≠ .reading := by
  unfold Item.next
  split_ifs <;> nofun

/-- The item is not posted, since the pump or the loop is closed. -/
theorem Flow.drop {item : Item} {closed : Bool} (h : Flow s)
    (hthread : s.thread = .posting item) (hclosed : closed = true) :
    Flow { s with thread := item.next, dropped := true, closed := closed } where
  stream := by
    obtain ⟨rest, hrest, -⟩ := h.stream
    refine ⟨item.bytes ++ rest, ?_, nofun⟩
    rw [line, hthread] at hrest
    show s.taken = s.consumed ++ s.buffer ++
      (s.callbacks ++ item.next.items).flatMap Item.bytes ++ (item.bytes ++ rest)
    rw [hrest, item.next_items]
    simp [Thread.items]
  dropped _ := ⟨hclosed, item.next_items, item.next_ne_reading⟩
  last items last hitems earlier hearlier := by
    have hline : s.callbacks = items ++ [last] := by
      change s.callbacks ++ item.next.items = _ at hitems
      rwa [item.next_items, List.append_nil] at hitems
    refine h.none_last (by simp [hthread]) earlier ?_
    rw [hline]
    exact List.mem_append_left _ hearlier
  exhausted hex := by
    have hended := (h.exhausted hex).2
    rw [hthread] at hended
    cases hended
  returns item hitem hlast := by
    have hended := h.returns item hitem hlast
    rw [hthread] at hended
    cases hended
  ended _ hopen := absurd (hopen.symm.trans hclosed) nofun

theorem Flow.post {item : Item} (h : Flow s) (hthread : s.thread = .posting item) :
    Flow (post s item) := by
  unfold StdinPump.post
  split_ifs with hclosed
  · exact h.drop hthread hclosed
  · exact h.drop hthread rfl
  · have hline : line { s with thread := item.next, callbacks := s.callbacks ++ [item] } =
        line s := by
      rw [line, line, hthread]
      show s.callbacks ++ [item] ++ item.next.items = s.callbacks ++ [item]
      rw [item.next_items, List.append_nil]
    exact {
      stream := by
        rw [hline]
        exact h.stream
      dropped := fun hdropped => absurd (h.dropped hdropped).1 hclosed
      last := by
        rw [hline]
        exact h.last
      exhausted := by
        intro hex
        have hended := (h.exhausted hex).2
        rw [hthread] at hended
        cases hended
      returns := by
        intro other hother hlast
        obtain hold | hnew := List.mem_append.mp hother
        · rw [h.none_last (by simp [hthread]) other hold] at hlast
          cases hlast
        · obtain rfl := List.mem_singleton.mp hnew
          exact Item.next_eq_ended.mpr hlast
      ended := fun hended _ =>
        Or.inl ⟨item, by simp, Item.next_eq_ended.mp hended⟩ }

theorem wakeup_cases (s : State) (error : Option OSError) :
    wakeup s error = s ∨ ∃ asking, s.reader = .waiting asking ∧
      wakeup s error = { s with reader := .woken asking error } := by
  unfold wakeup
  split
  next asking h => exact Or.inr ⟨asking, h, rfl⟩
  next => exact Or.inl rfl

theorem reads_wakeup (s : State) (error : Option OSError) : Reads s (wakeup s error) := by
  obtain h | ⟨asking, -, h⟩ := wakeup_cases s error
  · rw [h]
    exact .refl s
  · rw [h]
    exact { Reads.refl s with }

theorem Flow.pauseIfFull (h : Flow s) (limit : ℕ) : Flow (pauseIfFull s limit) := by
  unfold StdinPump.pauseIfFull
  split_ifs
  · exact { h with }
  · exact h

theorem Throttled.pauseIfFull (h : Throttled s) (limit : ℕ) : Throttled (pauseIfFull s limit) := by
  unfold StdinPump.pauseIfFull
  split_ifs
  · constructor
    · exact fun _ => rfl
    · intro _
      show 0 + (if s.thread.goesOn then 1 else 0) ≤ 1
      split_ifs <;> omega
  · exact h

/-- A posted callback has run: the data is in the buffer, or the end is known. -/
theorem Flow.callback {item : Item} {rest : List Item} (h : Flow s)
    (hcallbacks : s.callbacks = item :: rest) (limit : ℕ) :
    Flow (callback { s with callbacks := rest } limit item) := by
  obtain ⟨lost, hlost, hdropped⟩ := h.stream
  rw [line, hcallbacks, List.cons_append, List.flatMap_cons] at hlost
  have hsuffix : ∀ items last, rest ++ s.thread.items = items ++ [last] →
      ∀ earlier ∈ items, earlier.isLast = false := by
    intro items last hitems earlier hearlier
    refine h.last (item :: items) last ?_ earlier (List.mem_cons_of_mem _ hearlier)
    rw [line, hcallbacks, List.cons_append, hitems, List.cons_append]
  have hreturns : ∀ other ∈ rest, other.isLast = true → s.thread = .ended := by
    intro other hother
    exact h.returns other (hcallbacks ▸ List.mem_cons_of_mem _ hother)
  -- an end in front of the line is all of it
  have hend : item.isLast = true → rest ++ s.thread.items = [] ∧ s.thread = .ended := by
    intro hlast
    have hended := h.returns item (hcallbacks ▸ List.mem_cons_self) hlast
    refine ⟨?_, hended⟩
    rw [hended]
    show rest ++ [] = []
    rw [List.append_nil]
    by_contra hne
    obtain ⟨items, last, hitems⟩ := (List.eq_nil_or_concat rest).resolve_left hne
    have hfirst := h.last (item :: items) last
      (by simp [line, hcallbacks, hended, Thread.items, hitems]) item List.mem_cons_self
    rw [hlast] at hfirst
    cases hfirst
  have hexhausted : s.eof = true ∨ s.exception.isSome = true → False := by
    intro hex
    have hnil := (h.exhausted hex).1
    rw [line, hcallbacks] at hnil
    cases hnil
  cases item with
  | data chunk =>
    refine Flow.pauseIfFull (Flow.reads ?_ (reads_wakeup _ none)) limit
    exact {
      stream := by
        refine ⟨lost, ?_, hdropped⟩
        show s.taken = s.consumed ++ (s.buffer ++ chunk) ++
          (rest ++ s.thread.items).flatMap Item.bytes ++ lost
        rw [hlost]
        simp [Item.bytes]
      dropped := h.dropped
      last := hsuffix
      exhausted := fun hex => (hexhausted hex).elim
      returns := hreturns
      ended := by
        intro hended hopen
        obtain ⟨other, hother, hlast⟩ | hex := h.ended hended hopen
        · rw [hcallbacks] at hother
          obtain rfl | hother := List.mem_cons.mp hother
          · cases hlast
          · exact Or.inl ⟨other, hother, hlast⟩
        · exact (hexhausted hex).elim }
  | eof =>
    refine Flow.reads ?_ (reads_wakeup _ none)
    exact {
      stream := ⟨lost, hlost, hdropped⟩
      dropped := h.dropped
      last := hsuffix
      exhausted := fun _ => hend rfl
      returns := hreturns
      ended := fun _ _ => Or.inr (Or.inl rfl) }
  | failed error =>
    refine Flow.reads ?_ (reads_wakeup _ (some error))
    exact {
      stream := ⟨lost, hlost, hdropped⟩
      dropped := h.dropped
      last := hsuffix
      exhausted := fun _ => hend rfl
      returns := hreturns
      ended := fun _ _ => Or.inr (Or.inr rfl) }

theorem Throttled.callback (h : Throttled s) (rest : List Item) (limit : ℕ) (item : Item) :
    Throttled (callback { s with callbacks := rest } limit item) := by
  cases item with
  | data chunk =>
    refine Throttled.pauseIfFull (Throttled.reads ?_ (reads_wakeup _ none)) limit
    exact { h with }
  | eof =>
    have hnext : Throttled { s with callbacks := rest, eof := true } := { h with }
    exact hnext.reads (reads_wakeup _ none)
  | failed error =>
    have hnext : Throttled { s with callbacks := rest, exception := some error } := { h with }
    exact hnext.reads (reads_wakeup _ (some error))

end
end WireRpc.StdinPump
