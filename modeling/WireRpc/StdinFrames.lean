import WireRpc.StdinPump

/-!
# The frames that come from stdin

What the task that reads takes from the `StreamReader` is whole frames and the header of the
one it is at. With what the thread keeps, the payloads it returns are those that a peer wrote.
-/
namespace WireRpc.StdinPump
open Library Framing

section
variable {c : Config} {s s' t : State} {e : Event}

/-- The frame that is being read is one that is accepted. -/
def Asking.Valid (c : Config) : Asking → Prop
  | header => True
  | payload bytes =>
    bytes.length = 4 ∧ fromBytes bytes ≠ 0 ∧ fromBytes bytes ≤ c.maxFrameSize

/-- What was taken from the buffer is the frames of the payloads returned, and `held`. -/
structure Frames (c : Config) (s : State) (held : Bytes) : Prop where
  consumed : s.consumed = s.returned.flatMap (frame 4) ++ held
  valid : ∀ payload ∈ s.returned, 0 < payload.length ∧ payload.length ≤ c.maxFrameSize

/-- What the phase of the reader says: what it holds, and why it waits. -/
def Reader.Agrees (c : Config) (s : State) (held : Bytes) : Reader → Prop
  | idle => s.writerClosing = false → held = []
  | waiting asking =>
    held = asking.held ∧ asking.Valid c ∧ s.buffer.length < asking.size ∧ s.eof = false ∧
      s.paused = false
  | woken asking _ => held = asking.held ∧ asking.Valid c

/-- What the task that reads keeps. -/
def Reading (c : Config) (s : State) : Prop := ∃ held, Frames c s held ∧ s.reader.Agrees c s held

theorem Frames.take {held : Bytes} (h : Frames c s held) (n : ℕ) :
    Frames c (take s n) (held ++ s.buffer.take n) where
  consumed := by
    show s.consumed ++ s.buffer.take n = _
    rw [h.consumed, List.append_assoc]
    rfl
  valid := h.valid

@[simp] theorem unpause_consumed (s : State) : (unpause s).consumed = s.consumed := by
  unfold unpause
  split_ifs <;> rfl

@[simp] theorem unpause_returned (s : State) : (unpause s).returned = s.returned := by
  unfold unpause
  split_ifs <;> rfl

theorem unpause_paused (s : State) : (unpause s).paused = false := by
  unfold unpause
  split_ifs with h
  · rfl
  · exact Bool.not_eq_true _ ▸ h

theorem Frames.unpause {held : Bytes} (h : Frames c s held) : Frames c (unpause s) held where
  consumed := by
    rw [unpause_consumed, unpause_returned]
    exact h.consumed
  valid := by
    rw [unpause_returned]
    exact h.valid

theorem Frames.maybeResume {held : Bytes} (h : Frames c s held) (limit : ℕ) :
    Frames c (maybeResume s limit) held := by
  unfold StdinPump.maybeResume
  split_ifs
  · exact h.unpause
  · exact h

theorem reading_fail {held : Bytes} (h : Frames c s held) : Reading c (fail s) :=
  ⟨held, { h with }, nofun⟩

theorem reading_await {asking : Asking} (h : Frames c s asking.held) (hvalid : asking.Valid c)
    (hshort : s.buffer.length < asking.size) : Reading c (await s asking) := by
  unfold await
  split_ifs with heof
  · exact reading_fail (h.take _)
  · have hunpaused := h.unpause
    refine ⟨asking.held, { hunpaused with }, rfl, hvalid, ?_, ?_, unpause_paused s⟩
    · have hreads := reads_unpause s
      have hbuffer : (unpause s).buffer = s.buffer := by
        unfold unpause
        split_ifs <;> rfl
      show (unpause s).buffer.length < asking.size
      rwa [hbuffer]
    · exact (reads_unpause s).eof.trans (Bool.not_eq_true _ ▸ heof)

theorem reading_readRest {header : Bytes} (h : Frames c s header)
    (hvalid : (Asking.payload header).Valid c) : Reading c (readRest s c header) := by
  unfold readRest
  split_ifs with hshort
  · exact reading_await h hvalid hshort
  · obtain ⟨hheader, hpositive, hle⟩ := hvalid
    have hpayload : (s.buffer.take (fromBytes header)).length = fromBytes header :=
      List.length_take_of_le (not_lt.mp hshort)
    have hcomplete := (h.take (fromBytes header)).maybeResume c.limit
    refine ⟨[], ⟨?_, ?_⟩, fun _ => rfl⟩
    · have hreturned : (maybeResume (take s (fromBytes header)) c.limit).returned = s.returned := by
        unfold maybeResume
        split_ifs
        · exact unpause_returned _
        · rfl
      have hconsumed := hcomplete.consumed
      rw [hreturned] at hconsumed
      show (maybeResume (take s (fromBytes header)) c.limit).consumed =
        (s.returned ++ [s.buffer.take (fromBytes header)]).flatMap (frame 4) ++ []
      rw [hconsumed, List.flatMap_append, List.flatMap_singleton, frame_of_header hheader hpayload,
        List.append_nil]
    · intro payload hmem
      obtain hold | hnew := List.mem_append.mp hmem
      · exact h.valid payload hold
      · obtain rfl := List.mem_singleton.mp hnew
        rw [hpayload]
        exact ⟨Nat.pos_of_ne_zero hpositive, hle⟩

theorem reading_readPayload {header : Bytes} (h : Frames c s header) (hheader : header.length = 4) :
    Reading c (readPayload s c header) := by
  unfold readPayload
  split_ifs with hinvalid
  · exact reading_fail h
  · exact reading_fail h
  · obtain ⟨hpositive, hle⟩ := not_or.mp hinvalid
    exact reading_readRest h ⟨hheader, hpositive, not_lt.mp hle⟩

theorem reading_readHeader (h : Frames c s []) : Reading c (readHeader s c) := by
  unfold readHeader
  split_ifs with hshort
  · exact reading_await h trivial hshort
  · exact reading_readPayload ((h.take 4).maybeResume c.limit)
      (List.length_take_of_le (not_lt.mp hshort))

theorem Reading.resume {asking : Asking} {error : Option OSError} (h : Reading c s)
    (hreader : s.reader = .woken asking error) : Reading c (resume s c asking) := by
  obtain ⟨held, hframes, hagrees⟩ := h
  rw [hreader] at hagrees
  obtain ⟨rfl, hvalid⟩ := hagrees
  cases asking with
  | header => exact reading_readHeader hframes
  | payload header => exact reading_readRest hframes hvalid

theorem Reading.recv (h : Reading c s) (hreader : s.reader = .idle) : Reading c (recv s c) := by
  obtain ⟨held, hframes, hagrees⟩ := h
  rw [hreader] at hagrees
  unfold StdinPump.recv
  split_ifs with hclosing
  · exact ⟨held, hframes, hreader ▸ hagrees⟩
  · exact reading_fail hframes
  · obtain rfl := hagrees (Bool.not_eq_true _ ▸ hclosing)
    exact reading_readHeader hframes

theorem Reading.fail (h : Reading c s) : Reading c (fail s) := by
  obtain ⟨held, hframes, -⟩ := h
  exact reading_fail hframes

/-- A reader that waits is woken, and any other one is left alone. -/
theorem Reading.wakeup (h : Reading c s) (error : Option OSError)
    (hs : t.consumed = s.consumed ∧ t.returned = s.returned ∧ t.reader = s.reader ∧
      t.writerClosing = s.writerClosing) : Reading c (wakeup t error) := by
  obtain ⟨held, hframes, hagrees⟩ := h
  obtain ⟨hconsumed, hreturned, hreader, hclosing⟩ := hs
  have hframes' : Frames c t held := by
    constructor
    · rw [hconsumed, hreturned]
      exact hframes.consumed
    · rw [hreturned]
      exact hframes.valid
  rw [← hreader] at hagrees
  unfold StdinPump.wakeup
  split
  next asking hwaiting =>
    rw [hwaiting] at hagrees
    exact ⟨held, { hframes' with }, hagrees.1, hagrees.2.1⟩
  next hnot =>
    refine ⟨held, hframes', ?_⟩
    cases hphase : t.reader with
    | idle =>
      rw [hphase] at hagrees
      intro hopen
      exact hagrees (hclosing ▸ hopen)
    | waiting asking => exact absurd hphase (hnot asking)
    | woken asking error =>
      rw [hphase] at hagrees
      exact hagrees

theorem Reading.callback (h : Reading c s) (rest : List Item) (item : Item) :
    Reading c (callback { s with callbacks := rest } c.limit item) := by
  cases item with
  | data chunk =>
    have hwoken := h.wakeup (t := { s with callbacks := rest, buffer := s.buffer ++ chunk }) none
      ⟨rfl, rfl, rfl, rfl⟩
    show Reading c (pauseIfFull _ c.limit)
    unfold pauseIfFull
    split_ifs
    · obtain ⟨held, hframes, hagrees⟩ := hwoken
      refine ⟨held, { hframes with }, ?_⟩
      have hnot : ∀ asking, (StdinPump.wakeup
          { s with callbacks := rest, buffer := s.buffer ++ chunk } none).reader ≠
          .waiting asking := by
        intro asking hwaiting
        unfold StdinPump.wakeup at hwaiting
        split at hwaiting
        next => cases hwaiting
        next hnone => exact hnone asking hwaiting
      show Reader.Agrees c _ held (StdinPump.wakeup _ none).reader
      cases hphase : (StdinPump.wakeup
          { s with callbacks := rest, buffer := s.buffer ++ chunk } none).reader with
      | idle =>
        rw [hphase] at hagrees
        exact hagrees
      | waiting asking => exact absurd hphase (hnot asking)
      | woken asking error =>
        rw [hphase] at hagrees
        exact hagrees
    · exact hwoken
  | eof => exact h.wakeup none ⟨rfl, rfl, rfl, rfl⟩
  | failed error => exact h.wakeup (some error) ⟨rfl, rfl, rfl, rfl⟩

/-- What every reachable state keeps. -/
structure Inv (c : Config) (s : State) : Prop where
  flow : Flow s
  throttled : Throttled s
  reading : Reading c s

theorem inv_start : Inv c {} where
  flow := {
    stream := ⟨[], rfl, fun _ => rfl⟩
    dropped := nofun
    last := fun items item hitems => by simp [line, Thread.items] at hitems
    exhausted := by simp
    returns := by simp
    ended := by simp }
  throttled := ⟨fun _ => rfl, nofun⟩
  reading := ⟨[], ⟨rfl, by simp⟩, fun _ => rfl⟩

/-- A step that leaves the reader and its buffer alone. -/
theorem Reading.thread (h : Reading c s) (hs : s' = { s with
    resume := s'.resume, closed := s'.closed, loopClosed := s'.loopClosed, thread := s'.thread,
    callbacks := s'.callbacks, taken := s'.taken, dropped := s'.dropped,
    sincePause := s'.sincePause }) : Reading c s' := by
  rw [hs]
  obtain ⟨held, hframes, hagrees⟩ := h
  refine ⟨held, { hframes with }, ?_⟩
  show Reader.Agrees c _ held s.reader
  cases hphase : s.reader with
  | idle | waiting asking | woken asking error =>
    rw [hphase] at hagrees
    exact hagrees

theorem Inv.proceed {woken : Bool} (h : Inv c s) (hthread : s.thread = .waiting woken)
    (hresumed : (s.resume || woken) = true) :
    Inv c { s with thread := if s.closed then .ended else .reading } where
  flow := h.flow.proceed hthread
  throttled := by
    refine ⟨h.throttled.resume, fun hresume => ?_⟩
    have hbound := h.throttled.atMostOne hresume
    have hwoken : woken = true := by
      change s.resume = false at hresume
      simpa [hresume] using hresumed
    rw [hthread, Thread.goesOn, if_pos hwoken] at hbound
    show s.sincePause + _ ≤ 1
    split_ifs <;> omega
  reading := h.reading.thread rfl

theorem Inv.read {item : Item} {taken : Bytes} {n : ℕ} (h : Inv c s)
    (hthread : s.thread = .reading) (htaken : taken = s.taken ++ item.bytes)
    (hn : n ≤ s.sincePause + 1) :
    Inv c { s with thread := .posting item, taken := taken, sincePause := n } where
  flow := htaken ▸ h.flow.read hthread n
  throttled := by
    refine ⟨h.throttled.resume, fun hresume => ?_⟩
    have hbound := h.throttled.atMostOne hresume
    rw [hthread, Thread.goesOn, if_pos rfl] at hbound
    show n + 0 ≤ 1
    omega
  reading := h.reading.thread rfl

theorem Item.next_goesOn (item : Item) : item.next.goesOn = false := by
  unfold Item.next
  split_ifs <;> rfl

theorem Inv.post {item : Item} (h : Inv c s) (hthread : s.thread = .posting item) :
    Inv c (post s item) where
  flow := h.flow.post hthread
  throttled := by
    have hbound : s.resume = false → s.sincePause + (if item.next.goesOn then 1 else 0) ≤ 1 := by
      intro hresume
      have hbefore := h.throttled.atMostOne hresume
      rw [hthread] at hbefore
      rw [item.next_goesOn]
      exact hbefore
    unfold StdinPump.post
    split_ifs with hclosed
    · exact ⟨h.throttled.resume, hbound⟩
    · exact ⟨nofun, hbound⟩
    · exact ⟨h.throttled.resume, hbound⟩
  reading := by
    unfold StdinPump.post
    split_ifs <;> exact h.reading.thread rfl

theorem Inv.reads (h : Inv c s) (hreads : Reads s s') (hreading : Reading c s') : Inv c s' :=
  ⟨h.flow.reads hreads, h.throttled.reads hreads, hreading⟩

theorem Inv.close (h : Inv c s) : Inv c (close s) where
  flow := {
    stream := by
      have hline : line (StdinPump.close s) = line s :=
        congrArg (s.callbacks ++ ·) (Thread.wake_items s.thread)
      rw [hline]
      exact h.flow.stream
    dropped := fun hdropped => by
      obtain ⟨-, hitems, hreading⟩ := h.flow.dropped hdropped
      exact ⟨rfl, (Thread.wake_items _).trans hitems, fun hwake =>
        hreading (Thread.wake_eq_reading.mp hwake)⟩
    last := by
      have hline : line (StdinPump.close s) = line s :=
        congrArg (s.callbacks ++ ·) (Thread.wake_items s.thread)
      rw [hline]
      exact h.flow.last
    exhausted := fun hex => by
      obtain ⟨hline, hended⟩ := h.flow.exhausted hex
      exact ⟨(congrArg (s.callbacks ++ ·) (Thread.wake_items s.thread)).trans hline,
        Thread.wake_eq_ended.mpr hended⟩
    returns := fun item hitem hlast =>
      Thread.wake_eq_ended.mpr (h.flow.returns item hitem hlast)
    ended := nofun }
  throttled := ⟨nofun, nofun⟩
  reading := h.reading.thread rfl

theorem Inv.step (h : Inv c s) (hs : step c s e = some s') : Inv c s' := by
  cases e with
  | proceed =>
    simp only [StdinPump.step] at hs
    split at hs
    case h_1 woken hthread =>
      obtain ⟨hresumed, hs⟩ := Option.ite_none_right_eq_some.mp hs
      exact Option.some.inj hs ▸ h.proceed hthread hresumed
    case h_2 => cases hs
  | osRead chunk =>
    obtain ⟨⟨hthread, -, -⟩, hs⟩ := Option.ite_none_right_eq_some.mp hs
    have hread : s.taken ++ chunk = s.taken ++ (Item.data chunk).bytes := rfl
    exact Option.some.inj hs ▸ h.read hthread hread le_rfl
  | osEof =>
    obtain ⟨hthread, hs⟩ := Option.ite_none_right_eq_some.mp hs
    exact Option.some.inj hs ▸ h.read hthread (List.append_nil _).symm (Nat.le_succ _)
  | osError error =>
    obtain ⟨hthread, hs⟩ := Option.ite_none_right_eq_some.mp hs
    exact Option.some.inj hs ▸ h.read hthread (List.append_nil _).symm (Nat.le_succ _)
  | post =>
    simp only [StdinPump.step] at hs
    split at hs
    case h_1 item hthread => exact Option.some.inj hs ▸ h.post hthread
    case h_2 => cases hs
  | callback =>
    simp only [StdinPump.step] at hs
    split at hs
    case h_1 => cases hs
    case h_2 item rest hcallbacks =>
      split_ifs at hs
      obtain rfl := Option.some.inj hs
      exact ⟨h.flow.callback hcallbacks c.limit, h.throttled.callback rest c.limit item,
        h.reading.callback rest item⟩
  | recv =>
    obtain ⟨hreader, hs⟩ := Option.ite_none_right_eq_some.mp hs
    exact Option.some.inj hs ▸ h.reads (reads_recv s c) (h.reading.recv hreader)
  | resume =>
    simp only [StdinPump.step] at hs
    split at hs
    case h_1 asking error hreader =>
      obtain rfl := Option.some.inj hs
      split_ifs
      · exact h.reads (reads_fail s) h.reading.fail
      · exact h.reads (reads_resume s c asking) (h.reading.resume hreader)
    case h_2 => cases hs
  | cancel =>
    simp only [StdinPump.step] at hs
    split at hs
    case h_1 => cases hs
    case h_2 => exact Option.some.inj hs ▸ h.reads (reads_fail s) h.reading.fail
  | closeWriter =>
    obtain rfl := Option.some.inj hs
    obtain ⟨held, hframes, hagrees⟩ := h.reading
    refine h.reads { Reads.refl s with } ⟨held, { hframes with }, ?_⟩
    show Reader.Agrees c _ held s.reader
    cases hphase : s.reader with
    | idle => exact nofun
    | waiting asking | woken asking error =>
      rw [hphase] at hagrees
      exact hagrees
  | close => exact Option.some.inj hs ▸ h.close
  | closeLoop =>
    obtain rfl := Option.some.inj hs
    exact h.reads { Reads.refl s with } (h.reading.thread rfl)

theorem Inv.run {es : List Event} (h : Inv c s)
    (hrun : Machine.run (StdinPump.step c) s es = some s') : Inv c s' :=
  Machine.invariant (fun _ _ _ hs hstep => hs.step hstep) h hrun

/-- A step of the thread or of the loop is due. -/
def Due (c : Config) (s : State) : Prop :=
  ∃ e ∈ [Event.proceed, .post, .callback], (StdinPump.step c s e).isSome = true

/-- While the pump is open, a reader waits only for `os.read`, for a step that is due, or after
stdin has failed. -/
theorem Inv.due {asking : Asking} (h : Inv c s) (hreader : s.reader = .waiting asking)
    (hopen : s.closed = false) (hloop : s.loopClosed = false) :
    s.thread = .reading ∨ Due c s ∨ s.exception.isSome = true := by
  obtain ⟨held, -, hagrees⟩ := h.reading
  rw [hreader] at hagrees
  obtain ⟨-, -, -, heof, hpaused⟩ := hagrees
  cases hthread : s.thread with
  | waiting woken =>
    have hresume : s.resume = true := by
      rw [h.throttled.resume hopen, hpaused]
      rfl
    exact Or.inr (Or.inl ⟨.proceed, by simp, by simp [StdinPump.step, hthread, hresume]⟩)
  | reading => exact Or.inl rfl
  | posting item => exact Or.inr (Or.inl ⟨.post, by simp, by simp [StdinPump.step, hthread]⟩)
  | ended =>
    obtain ⟨item, hitem, -⟩ | hend | hfailed := h.flow.ended hthread hopen
    · refine Or.inr (Or.inl ⟨.callback, by simp, ?_⟩)
      cases hcallbacks : s.callbacks with
      | nil => simp [hcallbacks] at hitem
      | cons first rest => simp [StdinPump.step, hcallbacks, hloop]
    · rw [heof] at hend
      cases hend
    · exact Or.inr (Or.inr hfailed)

end

/-- The payloads that `recv` has returned are, in order, the first frames of what the thread
has read from stdin, so where a peer has written frames they are the first it wrote. While the
pump is open nothing is lost on the way, and after the end of file there is nothing more on the
way. While the reader has paused the thread, it reads one chunk at most. A call of `recv` that
waits does so for `os.read`, or for a step that is due, or since stdin has failed. -/
theorem stdin_fed (c : Config) (es : List Event) (s : State)
    (h : Machine.run (step c) {} es = some s) :
    s.returned.flatMap (frame 4) <+: s.taken ∧
      (∀ payload ∈ s.returned, 0 < payload.length ∧ payload.length ≤ c.maxFrameSize) ∧
      (∀ written : List Bytes, (∀ payload ∈ written, payload.length ≤ 0xFFFFFFFF) →
        s.taken <+: written.flatMap (frame 4) → s.returned <+: written) ∧
      (s.closed = false →
        s.taken = s.consumed ++ s.buffer ++ (line s).flatMap Item.bytes) ∧
      (s.eof = true → line s = [] ∧ s.thread = .ended) ∧
      (s.resume = false → s.sincePause ≤ 1) ∧
      (∀ asking, s.reader = .waiting asking → s.closed = false → s.loopClosed = false →
        s.thread = .reading ∨ Due c s ∨ s.exception.isSome = true) := by
  have hinv : Inv c s := inv_start.run h
  obtain ⟨rest, hstream, hdropped⟩ := hinv.flow.stream
  obtain ⟨held, hframes, -⟩ := hinv.reading
  have hreturned : s.returned.flatMap (frame 4) <+: s.taken := by
    rw [hstream, hframes.consumed]
    simp only [List.append_assoc]
    exact List.prefix_append ..
  refine ⟨hreturned, hframes.valid, ?_, ?_, ?_, ?_, fun asking hreader => hinv.due hreader⟩
  · intro written hwritten htaken
    have hlt : ∀ n, n ≤ 0xFFFFFFFF → n < 256 ^ 4 := fun n hn => by omega
    have hfree : PrefixFree (frame 4) fun payload => payload.length < 256 ^ 4 := frame_prefixFree
    have hread : s.returned.flatMap (frame 4) <+: written.flatMap (frame 4) ++ [] := by
      rw [List.append_nil]
      exact hreturned.trans htaken
    refine hfree.prefix_of_stream ?_ ?_ ?_ hread
    · exact fun payload hp => hlt _ ((hframes.valid payload hp).2.trans c.fits)
    · exact fun payload hp => hlt _ (hwritten payload hp)
    · intro payload _ hnil
      have hle := hnil.length_le
      rw [length_frame, List.length_nil] at hle
      omega
  · intro hopen
    have hkept : s.dropped = false := by
      by_contra hlost
      exact absurd (hinv.flow.dropped (by simpa using hlost)).1 (by simp [hopen])
    rw [hdropped hkept, List.append_nil] at hstream
    exact hstream
  · exact fun heof => hinv.flow.exhausted (Or.inl heof)
  · exact fun hresume => le_trans (Nat.le_add_right _ _) (hinv.throttled.atMostOne hresume)

/-- A call of `recv` waits, then a frame arrives in two chunks. -/
def chunkedRun : List Event :=
  [.recv, .proceed, .osRead [0, 0, 0, 2, 7], .post, .callback, .resume, .proceed, .osRead [8],
    .post, .callback, .resume]

def smallConfig : Config := ⟨65536, 1024, Nat.le_add_left 1024 4294966271⟩

theorem stdin_fed_chunked : ∃ s, Machine.run (step smallConfig) {} chunkedRun = some s ∧
    s.returned = [[7, 8]] ∧ s.returned <+: [[7, 8], [9]] := by
  refine ⟨_, rfl, rfl, ?_⟩
  exact (stdin_fed smallConfig chunkedRun _ rfl).2.2.1 [[7, 8], [9]] (by decide) (by decide)

end WireRpc.StdinPump
