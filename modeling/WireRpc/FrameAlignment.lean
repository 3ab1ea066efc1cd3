import WireRpc.FrameChannel
import WireRpc.Library.Machine

/-!
# Frame alignment

What one end returns is a prefix of what the other end wrote. A writer hands over
whole frames until it closes; a reader that gives up inside a frame closes the
connection before it gives the lock back.
-/
namespace WireRpc.FrameChannel
open Library Framing

/-- All bytes of one direction: the frames of the written payloads; or these and a
piece of one more, with the writer closed; or a refused length after some of them. -/
inductive Traffic (c : Config) (x : Side) (closing : Bool) : List Bytes → Bytes → Prop
  | frames (written : List Bytes) : Traffic c x closing written (written.flatMap (frame 4))
  | torn (written : List Bytes) (data : Bytes) (n : ℕ) (hclosing : closing = true)
      (hn : n < (frame 4 data).length) (hdata : data.length < 256 ^ 4) :
      Traffic c x closing written (written.flatMap (frame 4) ++ (frame 4 data).take n)
  | malformed (front back : List Bytes) (header rest : Bytes) (hheader : header.length = 4)
      (hinvalid : c.Invalid x.other (fromBytes header)) :
      Traffic c x closing (front ++ back) (front.flatMap (frame 4) ++ (header ++ rest))

section
variable {c : Config} {x : Side} {closing : Bool} {written : List Bytes} {sent : Bytes}

theorem Config.lt_of_le (c : Config) {x : Side} {n : ℕ} (h : n ≤ c.maxFrameSize x) :
    n < 256 ^ 4 := by
  have hfits := c.fits x
  norm_num
  omega

theorem Traffic.close (h : Traffic c x closing written sent) : Traffic c x true written sent := by
  cases h with
  | frames => exact .frames _
  | torn _ data n hclosing hn hdata => exact .torn _ data n rfl hn hdata
  | malformed front back header rest hheader hinvalid => exact .malformed _ _ _ _ hheader hinvalid

theorem Traffic.write (h : Traffic c x false written sent) (data : Bytes) :
    Traffic c x closing (written ++ [data]) (sent ++ frame 4 data) := by
  cases h with
  | frames =>
    have hframes : Traffic c x closing (written ++ [data]) _ := .frames _
    rwa [List.flatMap_append, List.flatMap_singleton] at hframes
  | torn _ data n hclosing => cases hclosing
  | malformed front back header rest hheader hinvalid =>
    rw [List.append_assoc, List.append_assoc, List.append_assoc]
    exact .malformed _ _ _ _ hheader hinvalid

theorem Traffic.tear (h : Traffic c x false written sent) {data : Bytes} {n : ℕ}
    (hn : n < (frame 4 data).length) (hdata : data.length < 256 ^ 4) :
    Traffic c x true written (sent ++ (frame 4 data).take n) := by
  cases h with
  | frames => exact .torn _ data n rfl hn hdata
  | torn _ data n hclosing => cases hclosing
  | malformed front back header rest hheader hinvalid =>
    rw [List.append_assoc, List.append_assoc]
    exact .malformed _ _ _ _ hheader hinvalid

theorem Traffic.corrupt (h : Traffic c x false written sent) {header : Bytes} (rest : Bytes)
    (hheader : header.length = 4) (hinvalid : c.Invalid x.other (fromBytes header)) :
    Traffic c x closing written (sent ++ (header ++ rest)) := by
  cases h with
  | frames =>
    have hmalformed : Traffic c x closing (written ++ []) _ :=
      .malformed written [] header rest hheader hinvalid
    rwa [List.append_nil] at hmalformed
  | torn _ data n hclosing => cases hclosing
  | malformed front back first rest' hfirst hinvalid' =>
    rw [List.append_assoc, List.append_assoc]
    exact .malformed _ _ _ _ hfirst hinvalid'

/-- Frames that the other end may read from the stream are frames that were written. -/
theorem Traffic.prefix_written (h : Traffic c x closing written sent) {read : List Bytes}
    (hwritten : ∀ p ∈ written, p.length ≤ c.maxFrameSize x)
    (hread : ∀ p ∈ read, ¬ c.Invalid x.other p.length)
    (hpre : read.flatMap (frame 4) <+: sent) : read <+: written := by
  have hlt : ∀ p ∈ read, p.length < 256 ^ 4 := by
    intro p hp
    apply c.lt_of_le (x := x.other)
    exact Nat.le_of_not_lt fun hlong => hread p hp (.inr hlong)
  have hfits : ∀ p ∈ written, p.length < 256 ^ 4 := fun p hp => c.lt_of_le (hwritten p hp)
  cases h with
  | frames =>
    refine frame_prefixFree.prefix_of_stream hlt hfits (fun p hp hnil => ?_)
      (by rwa [List.append_nil])
    have hlen := hnil.length_le
    rw [length_frame, List.length_nil] at hlen
    omega
  | torn _ data n hclosing hn hdata =>
    exact frame_prefixFree.prefix_of_stream hlt hfits
      (fun p hp => not_frame_prefix_take (hlt p hp) hdata hn) hpre
  | malformed front back header rest hheader hinvalid =>
    have hfront : read <+: front := by
      refine frame_prefixFree.prefix_of_stream hlt
        (fun p hp => hfits p (List.mem_append_left _ hp)) (fun p hp => ?_) hpre
      apply not_frame_prefix_of_header (hlt p hp) hheader
      intro hlength
      exact hread p hp (hlength ▸ hinvalid)
    exact hfront.trans (List.prefix_append _ _)

end

/-- A reader that has the lock stands where its frame began, plus what it holds. -/
structure Receives (c : Config) (x : Side) (e : Endpoint) (peer : Bytes) : Prop where
  valid : ∀ p ∈ e.returned, ¬ c.Invalid x p.length
  arrived_le : e.arrived ≤ peer.length
  returned_prefix : e.returned.flatMap (frame 4) <+: peer
  holder : ∀ t held, (e.readers t).held = some held → e.readLock = some t
  reading : ∀ t, e.readLock = some t → ∃ held, (e.readers t).held = some held ∧
    peer.take e.arrived = e.returned.flatMap (frame 4) ++ (held ++ e.buffer)
  idle : e.readLock = none → e.closing = false →
    peer.take e.arrived = e.returned.flatMap (frame 4) ++ e.buffer
  header : ∀ t held reads, e.readers t = .header held reads → held.length + reads.sum = 4
  payload : ∀ t header, e.readers t = .payload header →
    header.length = 4 ∧ ¬ c.Invalid x (fromBytes header)

section
variable {c : Config} {x : Side} {e e' : Endpoint} {peer : Bytes}

/-- The other end sends more, or this end writes. -/
theorem Receives.mono (h : Receives c x e peer) (more : Bytes) :
    Receives c x e (peer ++ more) where
  valid := h.valid
  arrived_le := h.arrived_le.trans (by simp)
  returned_prefix := h.returned_prefix.trans (List.prefix_append _ _)
  holder := h.holder
  reading := by
    rw [List.take_append_of_le_length h.arrived_le]
    exact h.reading
  idle := by
    rw [List.take_append_of_le_length h.arrived_le]
    exact h.idle
  header := h.header
  payload := h.payload

/-- What does not touch the reading side, except that the end may close. -/
theorem Receives.untouched (h : Receives c x e peer) (hreadLock : e'.readLock = e.readLock)
    (hreaders : e'.readers = e.readers) (hbuffer : e'.buffer = e.buffer)
    (harrived : e'.arrived = e.arrived) (hreturned : e'.returned = e.returned)
    (hclosing : e'.closing = false → e.closing = false) : Receives c x e' peer where
  valid := hreturned ▸ h.valid
  arrived_le := harrived ▸ h.arrived_le
  returned_prefix := hreturned ▸ h.returned_prefix
  holder := by
    rw [hreaders, hreadLock]
    exact h.holder
  reading := by
    rw [hreaders, hreadLock, harrived, hreturned, hbuffer]
    exact h.reading
  idle := by
    rw [hreadLock, harrived, hreturned, hbuffer]
    exact fun hlock hclosed => h.idle hlock (hclosing hclosed)
  header := hreaders ▸ h.header
  payload := hreaders ▸ h.payload

/-- A call that does not have the lock changes its phase. -/
theorem Receives.setReader (h : Receives c x e peer) {t : ℕ} {phase : Reader}
    (hbefore : (e.readers t).held = none) (hafter : phase.held = none) :
    Receives c x (setReader e t phase) peer := by
  have hsame : ∀ k p, Function.update e.readers t phase k = p → p.held ≠ none →
      e.readers k = p := by
    intro k p hk hp
    by_cases hkt : k = t
    · subst k
      rw [Function.update_self] at hk
      exact absurd (hk ▸ hafter) hp
    · rwa [Function.update_of_ne hkt] at hk
  exact {
    valid := h.valid
    arrived_le := h.arrived_le
    returned_prefix := h.returned_prefix
    holder := by
      intro k held hk
      have hold := hsame k _ rfl (show (Function.update e.readers t phase k).held ≠ none from
        fun hnone => nomatch hk.symm.trans hnone)
      refine h.holder k held ?_
      rw [hold]
      exact hk
    reading := by
      intro k hk
      obtain ⟨held, hheld, hstream⟩ := h.reading k hk
      refine ⟨held, ?_, hstream⟩
      show (Function.update e.readers t phase k).held = some held
      rw [Function.update_of_ne, hheld]
      rintro rfl
      rw [hbefore] at hheld
      cases hheld
    idle := h.idle
    header := fun k held reads hk => h.header k held reads (hsame k _ hk nofun)
    payload := fun k header hk => h.payload k header (hsame k _ hk nofun) }

/-- The call that has the lock, or gets it, moves on to `phase`. It keeps the lock
as long as it holds bytes of a frame. -/
theorem Receives.turn (h : Receives c x e peer) {t : ℕ} (phase : Reader)
    (hothers : ∀ k, k ≠ t → (e.readers k).held = none)
    (hreaders : e'.readers = Function.update e.readers t phase)
    (hlock : e'.readLock = phase.held.map fun _ => t) (harrived : e'.arrived = e.arrived)
    (hvalid : ∀ p ∈ e'.returned, ¬ c.Invalid x p.length)
    (hpre : e'.returned.flatMap (frame 4) <+: peer)
    (hstream : ∀ held, phase.held = some held →
      peer.take e.arrived = e'.returned.flatMap (frame 4) ++ (held ++ e'.buffer))
    (hidle : phase.held = none → e'.closing = false →
      peer.take e.arrived = e'.returned.flatMap (frame 4) ++ e'.buffer)
    (hheader : ∀ held reads, phase = .header held reads → held.length + reads.sum = 4)
    (hpayload : ∀ header, phase = .payload header →
      header.length = 4 ∧ ¬ c.Invalid x (fromBytes header)) : Receives c x e' peer := by
  have hsame : ∀ k p, e'.readers k = p → p.held ≠ none → k = t ∧ p = phase := by
    intro k p hk hp
    rw [hreaders] at hk
    by_cases hkt : k = t
    · subst k
      rw [Function.update_self] at hk
      exact ⟨rfl, hk.symm⟩
    · rw [Function.update_of_ne hkt] at hk
      exact absurd (hk ▸ hothers k hkt) hp
  exact {
    valid := hvalid
    arrived_le := harrived ▸ h.arrived_le
    returned_prefix := hpre
    holder := by
      intro k held hk
      obtain ⟨rfl, hphase⟩ := hsame k _ rfl (by rw [hk]; exact nofun)
      rw [hlock, ← hphase, hk]
      rfl
    reading := by
      intro k hk
      rw [hlock] at hk
      obtain ⟨held, hheld, rfl⟩ := Option.map_eq_some_iff.mp hk
      refine ⟨held, ?_, harrived ▸ hstream held hheld⟩
      rw [hreaders, Function.update_self, hheld]
    idle := by
      intro hnone hclosed
      rw [hlock, Option.map_eq_none_iff] at hnone
      exact harrived ▸ hidle hnone hclosed
    header := by
      intro k held reads hk
      obtain ⟨-, hphase⟩ := hsame k _ hk nofun
      exact hheader held reads hphase.symm
    payload := by
      intro k header hk
      obtain ⟨-, hphase⟩ := hsame k _ hk nofun
      exact hpayload header hphase.symm }

/-- Only one call holds bytes of a frame. -/
theorem Receives.others (h : Receives c x e peer) {t : ℕ} {held : Bytes}
    (ht : (e.readers t).held = some held) (k : ℕ) (hk : k ≠ t) : (e.readers k).held = none := by
  cases hheld : (e.readers k).held with
  | none => rfl
  | some held' =>
    have hlock := h.holder k held' hheld
    rw [h.holder t held ht] at hlock
    exact absurd (Option.some.inj hlock).symm hk

theorem Receives.stream (h : Receives c x e peer) {t : ℕ} {held : Bytes}
    (ht : (e.readers t).held = some held) :
    peer.take e.arrived = e.returned.flatMap (frame 4) ++ (held ++ e.buffer) := by
  obtain ⟨held', hheld', hstream⟩ := h.reading t (h.holder t held ht)
  obtain rfl := Option.some.inj (ht.symm.trans hheld')
  exact hstream

theorem Receives.abandon (h : Receives c x e peer) {t : ℕ} {held : Bytes}
    (ht : (e.readers t).held = some held) (lost : ℕ) : Receives c x (abandon e t lost) peer :=
  h.turn .over (h.others ht) rfl rfl rfl h.valid h.returned_prefix nofun nofun nofun
    nofun

theorem Receives.read (h : Receives c x e peer) {t : ℕ} (hread : read c x e t = some e') :
    Receives c x e' peer := by
  unfold FrameChannel.read at hread
  cases hphase : e.readers t with
  | header held reads =>
    have ht : (e.readers t).held = some held := by rw [hphase]; rfl
    cases reads with
    | nil => simp [hphase] at hread
    | cons n reads =>
      have hlen := h.header t held (n :: reads) hphase
      rw [List.sum_cons] at hlen
      have hstream : peer.take e.arrived =
          e.returned.flatMap (frame 4) ++ ((held ++ e.buffer.take n) ++ e.buffer.drop n) := by
        rw [h.stream ht, List.append_assoc, List.take_append_drop]
      simp only [hphase] at hread
      split_ifs at hread with hshort hmore hinvalid <;> obtain rfl := Option.some.inj hread
      · -- the header is not complete
        refine h.turn (.header (held ++ e.buffer.take n) reads) (h.others ht) rfl
          (h.holder t held ht) rfl h.valid h.returned_prefix (fun _ hh => ?_) nofun
          (fun _ _ hh => ?_) nofun
        · obtain rfl := Option.some.inj hh
          exact hstream
        · cases hh
          rw [List.length_append, List.length_take]
          omega
      · exact h.abandon ht n
      · refine h.turn (.payload (held ++ e.buffer.take n)) (h.others ht) rfl
          (h.holder t held ht) rfl h.valid h.returned_prefix (fun _ hh => ?_) nofun nofun
          (fun _ hh => ?_)
        · obtain rfl := Option.some.inj hh
          exact hstream
        · cases hh
          refine ⟨?_, hinvalid⟩
          rw [not_not.mp hmore, List.sum_nil] at hlen
          rw [List.length_append, List.length_take]
          omega
  | payload header =>
    have ht : (e.readers t).held = some header := by rw [hphase]; rfl
    obtain ⟨hheader, hvalid⟩ := h.payload t header hphase
    simp only [hphase] at hread
    split_ifs at hread with hshort
    obtain rfl := Option.some.inj hread
    have hlength : (e.buffer.take (fromBytes header)).length = fromBytes header := by
      rw [List.length_take]
      omega
    have hstream : peer.take e.arrived =
        (e.returned ++ [e.buffer.take (fromBytes header)]).flatMap (frame 4) ++
          e.buffer.drop (fromBytes header) := by
      rw [List.flatMap_append, List.flatMap_singleton, frame_of_header hheader hlength, h.stream ht]
      simp only [List.append_assoc, List.take_append_drop]
    refine h.turn .over (h.others ht) rfl rfl rfl (fun p hp => ?_) ?_ nofun
      (fun _ _ => hstream) nofun nofun
    · obtain hp | hp := List.mem_append.mp hp
      · exact h.valid p hp
      · rw [List.mem_singleton.mp hp, hlength]
        exact hvalid
    · have hpre := List.prefix_append
        ((e.returned ++ [e.buffer.take (fromBytes header)]).flatMap (frame 4))
        (e.buffer.drop (fromBytes header))
      rw [← hstream] at hpre
      exact hpre.trans (List.take_prefix ..)
  | _ => simp [hphase] at hread

end

structure Sends (c : Config) (x : Side) (e : Endpoint) : Prop where
  written_le : ∀ p ∈ e.written, p.length ≤ c.maxFrameSize x
  traffic : Traffic c x e.closing e.written e.sent

section
variable {c : Config} {x : Side} {e e' : Endpoint} {peer : Bytes} {op : Op}

/-- Every way one event can change the writing side. -/
inductive Writing (c : Config) (x : Side) (e e' : Endpoint) : Prop
  | same (hclosing : e.closing = true → e'.closing = true)
      (hwritten : e'.written = e.written := by rfl) (hsent : e'.sent = e.sent := by rfl)
  | wrote (data : Bytes) (hopen : e.closing = false) (hvalid : ¬ c.Invalid x data.length)
      (hwritten : e'.written = e.written ++ [data]) (hsent : e'.sent = e.sent ++ frame 4 data)
  | tore (data : Bytes) (n : ℕ) (hopen : e.closing = false) (hvalid : ¬ c.Invalid x data.length)
      (hn : n < (frame 4 data).length) (hclosing : e'.closing = true)
      (hwritten : e'.written = e.written) (hsent : e'.sent = e.sent ++ (frame 4 data).take n)
  | corrupted (header rest : Bytes) (hopen : e.closing = false) (hheader : header.length = 4)
      (hinvalid : c.Invalid x.other (fromBytes header)) (hwritten : e'.written = e.written)
      (hsent : e'.sent = e.sent ++ (header ++ rest))

theorem send_writing (t : ℕ) (data : Bytes) (idle : Bool) :
    Writing c x e (send c x e t data idle) := by
  unfold send
  cases c.kind with
  | tcp =>
    dsimp only
    split_ifs
    · exact .same id
    · exact .same (fun _ => rfl)
    · exact .same id
  | stdio => exact .same id

theorem write_writing (t : ℕ) (data : Bytes) : Writing c x e (write c x e t data) := by
  unfold write
  split_ifs with hinvalid hclosing
  · exact .same id
  · exact .same id
  · exact .wrote data (Bool.eq_false_iff.mpr hclosing) hinvalid rfl rfl

theorem read_writing {t : ℕ} (h : read c x e t = some e') : Writing c x e e' := by
  unfold read at h
  split at h
  · dsimp only at h
    split_ifs at h <;> obtain rfl := Option.some.inj h
    · exact .same id
    · exact .same (fun _ => rfl)
    · exact .same id
  · split_ifs at h
    obtain rfl := Option.some.inj h
    exact .same id
  · cases h

theorem act_writing (hact : act c x e peer op = some e') : Writing c x e e' := by
  cases op with
  | send t data idle =>
    simp only [act] at hact
    split at hact
    · exact Option.some.inj hact ▸ send_writing t data idle
    · cases hact
  | write t =>
    simp only [act] at hact
    split at hact
    · exact Option.some.inj hact ▸ write_writing t _
    · cases hact
  | tear t n =>
    simp only [act] at hact
    split at hact
    · rename_i data _ _
      split_ifs at hact with hcond
      obtain rfl := Option.some.inj hact
      obtain ⟨hvalid, hclosing, hn⟩ := not_or.mp hcond |>.imp_right not_or.mp
      exact .tore data n (Bool.eq_false_iff.mpr hclosing) hvalid (Nat.lt_of_not_le hn) rfl rfl rfl
    · cases hact
  | read t => exact read_writing hact
  | deliver n =>
    simp only [act] at hact
    split_ifs at hact
    exact Option.some.inj hact ▸ .same id
  | malformed header rest =>
    simp only [act] at hact
    split_ifs at hact with hcond
    obtain rfl := Option.some.inj hact
    exact .corrupted header rest hcond.2.2 hcond.1 hcond.2.1 rfl rfl
  | close => exact Option.some.inj hact ▸ .same (fun _ => rfl)
  | drained t =>
    simp only [act] at hact
    split at hact
    · exact Option.some.inj hact ▸ .same id
    · cases hact
  | failSend t =>
    simp only [act] at hact
    split at hact
    · obtain rfl := Option.some.inj hact
      refine .same (fun hclosing => ?_)
      show (e.closing || _) = true
      rw [hclosing, Bool.true_or]
    · exact Option.some.inj hact ▸ .same (fun _ => rfl)
    · cases hact
  | recv t =>
    simp only [act] at hact
    split at hact
    · exact Option.some.inj hact ▸ .same id
    · cases hact
  | startRead t =>
    simp only [act] at hact
    split at hact
    · split_ifs at hact <;> exact Option.some.inj hact ▸ .same id
    · cases hact
  | failRead t lost =>
    simp only [act] at hact
    split at hact
    · exact Option.some.inj hact ▸ .same id
    · exact Option.some.inj hact ▸ .same (fun _ => rfl)
    · exact Option.some.inj hact ▸ .same (fun _ => rfl)
    · cases hact

theorem Writing.sends (hw : Writing c x e e') (h : Sends c x e) : Sends c x e' := by
  have htraffic := h.traffic
  cases hw with
  | same hclosing hwritten hsent =>
    refine ⟨hwritten ▸ h.written_le, ?_⟩
    rw [hwritten, hsent]
    cases hc : e.closing with
    | false =>
      rw [hc] at htraffic
      cases e'.closing with
      | false => exact htraffic
      | true => exact htraffic.close
    | true =>
      rw [hc] at htraffic
      rwa [hclosing hc]
  | wrote data hopen hvalid hwritten hsent =>
    rw [hopen] at htraffic
    refine ⟨fun p hp => ?_, hwritten ▸ hsent ▸ htraffic.write data⟩
    rw [hwritten] at hp
    obtain hp | hp := List.mem_append.mp hp
    · exact h.written_le p hp
    · rw [List.mem_singleton.mp hp]
      exact Nat.le_of_not_lt fun hlong => hvalid (.inr hlong)
  | tore data n hopen hvalid hn hclosing hwritten hsent =>
    rw [hopen] at htraffic
    refine ⟨hwritten ▸ h.written_le, ?_⟩
    rw [hwritten, hsent, hclosing]
    exact htraffic.tear hn (c.lt_of_le (Nat.le_of_not_lt fun hlong => hvalid (.inr hlong)))
  | corrupted header rest hopen hheader hinvalid hwritten hsent =>
    rw [hopen] at htraffic
    refine ⟨hwritten ▸ h.written_le, ?_⟩
    rw [hwritten, hsent]
    exact htraffic.corrupt rest hheader hinvalid

theorem Writing.sent (hw : Writing c x e e') : ∃ more, e'.sent = e.sent ++ more := by
  cases hw with
  | same _ _ hsent => exact ⟨[], by rw [hsent, List.append_nil]⟩
  | wrote data _ _ _ hsent => exact ⟨_, hsent⟩
  | tore data n _ _ _ _ _ hsent => exact ⟨_, hsent⟩
  | corrupted header rest _ _ _ _ hsent => exact ⟨_, hsent⟩

/-- A closing end writes nothing more. -/
theorem Writing.of_closing (hw : Writing c x e e') (hclosing : e.closing = true) :
    e'.closing = true ∧ e'.written = e.written ∧ e'.sent = e.sent := by
  cases hw with
  | same hstill hwritten hsent => exact ⟨hstill hclosing, hwritten, hsent⟩
  | wrote data hopen => simp [hclosing] at hopen
  | tore data n hopen => simp [hclosing] at hopen
  | corrupted header rest hopen => simp [hclosing] at hopen

/-- The read lock is granted while the connection is open. -/
theorem Receives.start (h : Receives c x e peer) (t : ℕ) (hlock : e.readLock = none)
    (hopen : e.closing = false) :
    Receives c x { FrameChannel.setReader e t (.header [] c.kind.headerReads) with
      readLock := some t } peer := by
  refine h.turn (.header [] c.kind.headerReads) (fun k _ => ?_) rfl rfl rfl h.valid
    h.returned_prefix (fun _ hh => ?_) nofun (fun _ _ hh => ?_) nofun
  · cases hheld : (e.readers k).held with
    | none => rfl
    | some held => cases hlock.symm.trans (h.holder k held hheld)
  · obtain rfl := Option.some.inj hh
    exact h.idle hlock hopen
  · cases hh
    cases c.kind <;> rfl

theorem Receives.deliver (h : Receives c x e peer) {n : ℕ} (hn : e.arrived + n ≤ peer.length) :
    Receives c x { e with
      buffer := e.buffer ++ (peer.drop e.arrived).take n
      arrived := e.arrived + n } peer where
  valid := h.valid
  arrived_le := hn
  returned_prefix := h.returned_prefix
  holder := h.holder
  reading := by
    intro t ht
    obtain ⟨held, hheld, hstream⟩ := h.reading t ht
    refine ⟨held, hheld, ?_⟩
    rw [List.take_add, hstream]
    simp only [List.append_assoc]
  idle := by
    intro hlock hclosed
    rw [List.take_add, h.idle hlock hclosed]
    simp only [List.append_assoc]
  header := h.header
  payload := h.payload

/-- Every way one event can change the reading side. -/
inductive Reading (c : Config) (x : Side) (peer : Bytes) (e : Endpoint) : Endpoint → Prop
  | untouched {f : Endpoint} (hclosing : e.closing = true → f.closing = true)
      (hreadLock : f.readLock = e.readLock := by rfl) (hreaders : f.readers = e.readers := by rfl)
      (hbuffer : f.buffer = e.buffer := by rfl) (harrived : f.arrived = e.arrived := by rfl)
      (hreturned : f.returned = e.returned := by rfl) : Reading c x peer e f
  | phase (t : ℕ) (phase : Reader) (hbefore : (e.readers t).held = none)
      (hafter : phase.held = none) : Reading c x peer e (setReader e t phase)
  | started (t : ℕ) (hlock : e.readLock = none) (hopen : e.closing = false) :
      Reading c x peer e { setReader e t (.header [] c.kind.headerReads) with readLock := some t }
  | read {f : Endpoint} (t : ℕ) (hread : read c x e t = some f) : Reading c x peer e f
  | abandoned (t lost : ℕ) (held : Bytes) (ht : (e.readers t).held = some held) :
      Reading c x peer e (abandon e t lost)
  | delivered (n : ℕ) (hn : e.arrived + n ≤ peer.length) :
      Reading c x peer e { e with
        buffer := e.buffer ++ (peer.drop e.arrived).take n
        arrived := e.arrived + n }

theorem send_reading (t : ℕ) (data : Bytes) (idle : Bool) :
    Reading c x peer e (send c x e t data idle) := by
  unfold send
  cases c.kind with
  | tcp =>
    dsimp only
    split_ifs
    · exact .untouched id
    · exact .untouched (fun _ => rfl)
    · exact .untouched id
  | stdio => exact .untouched id

theorem write_reading (t : ℕ) (data : Bytes) : Reading c x peer e (write c x e t data) := by
  unfold write
  split_ifs <;> exact .untouched id

theorem act_reading (hact : act c x e peer op = some e') : Reading c x peer e e' := by
  cases op with
  | send t data idle =>
    simp only [act] at hact
    split at hact
    · exact Option.some.inj hact ▸ send_reading t data idle
    · cases hact
  | write t =>
    simp only [act] at hact
    split at hact
    · exact Option.some.inj hact ▸ write_reading t _
    · cases hact
  | tear t n =>
    simp only [act] at hact
    split at hact
    · split_ifs at hact
      exact Option.some.inj hact ▸ .untouched (fun _ => rfl)
    · cases hact
  | drained t =>
    simp only [act] at hact
    split at hact
    · exact Option.some.inj hact ▸ .untouched id
    · cases hact
  | failSend t =>
    simp only [act] at hact
    split at hact
    · refine Option.some.inj hact ▸ .untouched (fun hclosing => ?_)
      show (e.closing || _) = true
      rw [hclosing, Bool.true_or]
    · exact Option.some.inj hact ▸ .untouched (fun _ => rfl)
    · cases hact
  | recv t =>
    simp only [act] at hact
    split at hact
    · rename_i hphase
      exact Option.some.inj hact ▸ .phase t _ (by rw [hphase]; rfl) rfl
    · cases hact
  | startRead t =>
    simp only [act] at hact
    split at hact
    · rename_i hphase hlock
      split_ifs at hact with hclosing
      · exact Option.some.inj hact ▸ .phase t _ (by rw [hphase]; rfl) rfl
      · exact Option.some.inj hact ▸ .started t hlock (Bool.eq_false_iff.mpr hclosing)
    · cases hact
  | read t => exact .read t hact
  | failRead t lost =>
    simp only [act] at hact
    split at hact
    · rename_i hphase
      exact Option.some.inj hact ▸ .phase t _ (by rw [hphase]; rfl) rfl
    · rename_i hphase
      exact Option.some.inj hact ▸ .abandoned t lost _ (by rw [hphase]; rfl)
    · rename_i hphase
      exact Option.some.inj hact ▸ .abandoned t lost _ (by rw [hphase]; rfl)
    · cases hact
  | deliver n =>
    simp only [act] at hact
    split_ifs at hact with hshort
    exact Option.some.inj hact ▸ .delivered n (Nat.le_of_not_lt hshort)
  | malformed header rest =>
    simp only [act] at hact
    split_ifs at hact
    exact Option.some.inj hact ▸ .untouched id
  | close => exact Option.some.inj hact ▸ .untouched (fun _ => rfl)

theorem Reading.receives (hr : Reading c x peer e e') (h : Receives c x e peer) :
    Receives c x e' peer := by
  cases hr with
  | untouched hclosing hreadLock hreaders hbuffer harrived hreturned =>
    refine h.untouched hreadLock hreaders hbuffer harrived hreturned fun hclosed => ?_
    cases hc : e.closing with
    | false => rfl
    | true => exact absurd (hclosing hc) (by simp [hclosed])
  | phase t phase hbefore hafter => exact h.setReader hbefore hafter
  | started t hlock hopen => exact h.start t hlock hopen
  | read t hread => exact h.read hread
  | abandoned t lost held ht => exact h.abandon ht lost
  | delivered n hn => exact h.deliver hn

/-- The end is closing and no call is inside a frame. -/
def Finished (e : Endpoint) : Prop := e.closing = true ∧ ∀ t, (e.readers t).held = none

theorem Finished.setReader (h : ∀ k, k ≠ t → (e.readers k).held = none) {phase : Reader}
    (hphase : phase.held = none) (k : ℕ) :
    (Function.update e.readers t phase k).held = none := by
  by_cases hkt : k = t
  · rw [hkt, Function.update_self, hphase]
  · rw [Function.update_of_ne hkt]
    exact h k hkt

/-- A finished end stays so and returns nothing. -/
theorem Reading.finished (hr : Reading c x peer e e') (h : Finished e) :
    Finished e' ∧ e'.returned = e.returned := by
  obtain ⟨hclosing, hheld⟩ := h
  cases hr with
  | untouched hstill _ hreaders _ _ hreturned =>
    exact ⟨⟨hstill hclosing, hreaders ▸ hheld⟩, hreturned⟩
  | phase t phase _ hafter =>
    exact ⟨⟨hclosing, Finished.setReader (fun k _ => hheld k) hafter⟩, rfl⟩
  | started t _ hopen => simp [hclosing] at hopen
  | read t hread =>
    have ht := hheld t
    unfold FrameChannel.read at hread
    cases hphase : e.readers t with
    | header held reads => simp [hphase, Reader.held] at ht
    | payload header => simp [hphase, Reader.held] at ht
    | _ => simp [hphase] at hread
  | abandoned t lost held ht => simp [hheld t] at ht
  | delivered n hn => exact ⟨⟨hclosing, hheld⟩, rfl⟩

/-- A read that fails leaves a finished end and returns nothing. -/
theorem EndsReading.finished {op : Op} (hends : EndsReading c x e op) (h : Receives c x e peer)
    (hact : act c x e peer op = some e') : Finished e' ∧ e'.returned = e.returned := by
  have habandon : ∀ {t held} (lost : ℕ), (e.readers t).held = some held →
      Finished (abandon e t lost) :=
    fun lost ht => ⟨rfl, Finished.setReader (h.others ht) rfl⟩
  cases op with
  | read t =>
    obtain ⟨held, n, hphase, hinvalid⟩ := hends
    simp only [act, read, hphase, ne_eq, not_true_eq_false, if_false, hinvalid, if_true] at hact
    split_ifs at hact
    have hheld : (e.readers t).held = some held := by rw [hphase]; rfl
    exact Option.some.inj hact ▸ ⟨habandon n hheld, rfl⟩
  | failRead t lost =>
    obtain ⟨held, hheld, -⟩ := h.reading t hends
    simp only [act] at hact
    split at hact
    · rename_i hphase
      simp [hphase, Reader.held] at hheld
    · exact Option.some.inj hact ▸ ⟨habandon lost hheld, rfl⟩
    · exact Option.some.inj hact ▸ ⟨habandon lost hheld, rfl⟩
    · cases hact
  | _ => exact hends.elim

theorem EndsWriting.closing {op : Op} (hends : EndsWriting e op)
    (hact : act c x e peer op = some e') : e'.closing = true ∧ e'.written = e.written := by
  cases op with
  | tear t n =>
    simp only [act] at hact
    split at hact
    · split_ifs at hact
      exact Option.some.inj hact ▸ ⟨rfl, rfl⟩
    · cases hact
  | failSend t =>
    have hphase : e.senders t = .draining := hends
    simp only [act, hphase, Option.some.injEq] at hact
    exact hact ▸ ⟨rfl, rfl⟩
  | _ => exact hends.elim

end

def Inv (c : Config) (s : State) : Prop :=
  ∀ x, Sends c x (s x) ∧ Receives c x (s x) (s x.other).sent

section
variable {c : Config} {s s' : State}

theorem inv_start : Inv c start := fun _ =>
  ⟨⟨nofun, .frames []⟩, ⟨nofun, Nat.zero_le _, List.nil_prefix, nofun, nofun, fun _ _ => rfl, nofun,
    nofun⟩⟩

theorem step_eq_some {event : Event} (h : step c s event = some s') :
    ∃ e', act c event.1 (s event.1) (s event.1.other).sent event.2 = some e' ∧
      s' = Function.update s event.1 e' := by
  obtain ⟨e', hact, rfl⟩ := Option.map_eq_some_iff.mp h
  exact ⟨e', hact, rfl⟩

theorem inv_step {event : Event} (hinv : Inv c s) (h : step c s event = some s') : Inv c s' := by
  obtain ⟨x, op⟩ := event
  obtain ⟨e', hact, rfl⟩ := step_eq_some h
  have hw := act_writing hact
  have hne : x.other ≠ x := by cases x <;> nofun
  intro y
  by_cases hy : y = x
  · subst y
    rw [Function.update_self, Function.update_of_ne hne]
    exact ⟨hw.sends (hinv x).1, (act_reading hact).receives (hinv x).2⟩
  · obtain rfl := Side.eq_other_of_ne hy
    rw [Function.update_of_ne hne, Side.other_other, Function.update_self]
    obtain ⟨more, hmore⟩ := hw.sent
    rw [hmore]
    have hreceives := (hinv x.other).2
    rw [Side.other_other] at hreceives
    exact ⟨(hinv x.other).1, hreceives.mono more⟩

/-- What one end keeps in each of its own events, it keeps in a run. -/
theorem run_end {P : Endpoint → Prop} {x : Side}
    (hact : ∀ e e' peer op, P e → act c x e peer op = some e' → P e') {es : List Event}
    (hs : P (s x)) (hrun : Machine.run (step c) s es = some s') : P (s' x) := by
  refine Machine.invariant (P := fun s => P (s x)) (fun t event t' ht hstep => ?_) hs hrun
  obtain ⟨y, op⟩ := event
  obtain ⟨e', he, rfl⟩ := step_eq_some hstep
  by_cases hxy : x = y
  · subst y
    rw [Function.update_self]
    exact hact _ _ _ _ ht he
  · rwa [Function.update_of_ne hxy]

end

/-- The payloads returned at one end are a prefix of those written at the other, in
the order of the write lock. After a read that failed, also for an invalid length,
nothing is returned; behind a write that failed nothing is written. -/
theorem frames_aligned (c : Config) (es : List Event) (s : State)
    (hrun : Machine.run (step c) start es = some s) (x : Side) :
    (s x.other).returned <+: (s x).written ∧
    (∀ op, EndsReading c x (s x) op → ∀ t, step c s (x, op) = some t →
      ∀ fs s', Machine.run (step c) t fs = some s' →
        (s' x).closing = true ∧ (s' x).returned = (s x).returned) ∧
    (∀ op, EndsWriting (s x) op → ∀ t, step c s (x, op) = some t →
      ∀ fs s', Machine.run (step c) t fs = some s' →
        (s' x).closing = true ∧ (s' x).written = (s x).written ∧ (s' x).sent = (t x).sent) := by
  have hinv : Inv c s := Machine.invariant (fun _ _ _ h hstep => inv_step h hstep) inv_start hrun
  refine ⟨?_, fun op hends t hstep fs s' hrest => ?_, fun op hends t hstep fs s' hrest => ?_⟩
  · have hreceives := (hinv x.other).2
    rw [Side.other_other] at hreceives
    exact (hinv x).1.traffic.prefix_written (hinv x).1.written_le hreceives.valid
      hreceives.returned_prefix
  · obtain ⟨e', hact, rfl⟩ := step_eq_some hstep
    obtain ⟨hfinished, hreturned⟩ := hends.finished (hinv x).2 hact
    have hend : Finished (s' x) ∧ (s' x).returned = (s x).returned := by
      refine run_end (P := fun e => Finished e ∧ e.returned = (s x).returned)
        (fun e e' peer op he hact => ?_) ?_ hrest
      · obtain ⟨hstill, hsame⟩ := (act_reading hact).finished he.1
        exact ⟨hstill, hsame.trans he.2⟩
      · rw [Function.update_self]
        exact ⟨hfinished, hreturned⟩
    exact ⟨hend.1.1, hend.2⟩
  · obtain ⟨e', hact, rfl⟩ := step_eq_some hstep
    obtain ⟨hclosing, hwritten⟩ := hends.closing hact
    refine run_end (P := fun e => e.closing = true ∧ e.written = (s x).written ∧
      e.sent = (Function.update s x e' x).sent) (fun e e' peer op he hact => ?_) ?_ hrest
    · obtain ⟨hstill, hsame, hsent⟩ := (act_writing hact).of_closing he.1
      exact ⟨hstill, hsame.trans he.2.1, hsent.trans he.2.2⟩
    · rw [Function.update_self]
      exact ⟨hclosing, hwritten, rfl⟩

def sampleConfig : Config where
  kind := .tcp
  maxFrameSize := fun _ => 16
  positive := fun _ => by decide
  fits := fun _ => by decide

/-- Two frames arrive in three pieces. The second `recv` is cancelled inside its
header, and a third one gets nothing. -/
def cancelledRead : List Event :=
  [(.client, .send 0 [7, 8] false), (.client, .write 0), (.client, .drained 0),
    (.client, .send 1 [9] false), (.client, .write 1), (.server, .recv 0), (.server, .startRead 0),
    (.server, .deliver 3), (.server, .read 0), (.server, .deliver 4), (.server, .read 0),
    (.server, .read 0), (.server, .recv 1), (.server, .recv 2), (.server, .startRead 1),
    (.server, .read 1), (.server, .failRead 1 0), (.server, .deliver 4), (.server, .startRead 2)]

theorem frames_aligned_cancelled : ∃ s,
    Machine.run (step sampleConfig) start cancelledRead = some s ∧
    (s .server).returned = [[7, 8]] ∧ (s .client).written = [[7, 8], [9]] ∧
    (s .server).returned <+: (s .client).written :=
  ⟨_, rfl, rfl, rfl, (frames_aligned sampleConfig cancelledRead _ rfl .client).1⟩

end WireRpc.FrameChannel
