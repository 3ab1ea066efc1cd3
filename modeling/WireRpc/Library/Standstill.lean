import WireRpc.Library.Dialogues

/-!
# Runs to a standstill

If one order of the steps leads two programs to a standstill, where one of them may wait for
bytes that never come, then every run does that sends nothing else, and it takes only so many
moves.
-/
namespace WireRpc.Library.Link

variable {β E F α γ : Type}

/-- Nothing moves by itself. -/
def Still (link : Link β E F α γ) : Prop := ∀ move, move.sends = false → link.step move = none

/-- The parties are where they stop, with nothing on the way and these bytes unread. -/
structure StandsStill (final : Dialogue β E F α) (final' : Dialogue β E F γ)
    (leftUp leftDown : List β) (told told' : List E) (link : Link β E F α γ) : Prop where
  first : link.first.dialogue = final
  second : link.second.dialogue = final'
  unread_first : link.first.buffer = leftDown
  unread_second : link.second.buffer = leftUp
  up : link.up = []
  down : link.down = []
  told_first : link.first.told = told
  told_second : link.second.told = told'

/-- Some order of the steps leads from here to the standstill. -/
structure Heads (final : Dialogue β E F α) (final' : Dialogue β E F γ) (leftUp leftDown : List β)
    (told told' : List E) (work : ℕ) (link : Link β E F α γ) (rest rest' : List E) : Prop where
  leads : Leads final final' leftUp leftDown work link.first.dialogue link.second.dialogue
    (link.second.buffer ++ link.up) (link.first.buffer ++ link.down) rest rest'
  told_first : link.first.told ++ rest = told
  told_second : link.second.told ++ rest' = told'

variable {final : Dialogue β E F α} {final' : Dialogue β E F γ} {leftUp leftDown : List β}
  {told told' : List E} {work : ℕ} {link link' : Link β E F α γ} {rest rest' : List E}

theorem Heads.swap (h : Heads final final' leftUp leftDown told told' work link rest rest') :
    Heads final' final leftDown leftUp told' told work link.swap rest' rest :=
  ⟨h.leads.swap, h.told_second, h.told_first⟩

variable (final final' leftUp leftDown told told') in
/-- The next state heads for the standstill too, and is nearer to it. -/
def Nears (work : ℕ) (link link' : Link β E F α γ) : Prop :=
  ∃ work' rest rest', Heads final final' leftUp leftDown told told' work' link' rest rest' ∧
    1 + link'.spare work' ≤ link.spare work

theorem Nears.swap (h : Nears final' final leftDown leftUp told' told work link.swap link'.swap) :
    Nears final final' leftUp leftDown told told' work link link' := by
  obtain ⟨work', rest, rest', hheads, hle⟩ := h
  refine ⟨work', rest', rest, hheads.swap, ?_⟩
  simp only [spare, Link.swap] at hle ⊢
  omega

theorem nears_firstSteps (h : Heads final final' leftUp leftDown told told' work link rest rest')
    (hstep : link.step .firstSteps = some link') :
    Nears final final' leftUp leftDown told told' work link link' := by
  simp only [step, Party.step, Option.map_eq_some_iff] at hstep
  obtain ⟨-, ⟨⟨dialogue, buffer, out, news⟩, hdialogue, rfl⟩, rfl⟩ := hstep
  obtain ⟨work', rest₁, hleads, hwork, hrest⟩ :=
    h.leads.step_first (Dialogue.step_append hdialogue link.down)
  refine ⟨work', rest₁, rest', ⟨?_, ?_, h.told_second⟩, ?_⟩
  · rw [List.append_assoc] at hleads
    exact hleads
  · rw [List.append_assoc, ← hrest]
    exact h.told_first
  · simp only [spare, List.length_append]
    omega

theorem nears_arrivesUp (h : Heads final final' leftUp leftDown told told' work link rest rest')
    {n : ℕ} (hstep : link.step (.arrivesUp n) = some link') :
    Nears final final' leftUp leftDown told told' work link link' := by
  simp only [step, Party.receives, Option.map_eq_some_iff, Option.ite_none_right_eq_some,
    Option.some.injEq] at hstep
  obtain ⟨-, ⟨⟨hpos, hn⟩, rfl⟩, rfl⟩ := hstep
  refine ⟨work, rest, rest', ⟨?_, h.told_first, h.told_second⟩, ?_⟩
  · show Leads final final' leftUp leftDown work link.first.dialogue link.second.dialogue
      (link.second.buffer ++ link.up.take n ++ link.up.drop n) _ rest rest'
    rw [List.append_assoc, List.take_append_drop]
    exact h.leads
  · simp only [spare, List.length_drop]
    omega

theorem nears_step (h : Heads final final' leftUp leftDown told told' work link rest rest')
    {move : Move β} (hquiet : move.sends = false) (hstep : link.step move = some link') :
    Nears final final' leftUp leftDown told told' work link link' := by
  have hswap : link.swap.step move.swap = some link'.swap := by
    rw [step_swap, hstep, Option.map_some]
  cases move with
  | firstSteps => exact nears_firstSteps h hstep
  | secondSteps => exact (nears_firstSteps h.swap hswap).swap
  | arrivesUp n => exact nears_arrivesUp h hstep
  | arrivesDown n => exact (nears_arrivesUp h.swap hswap).swap
  | firstSends data => nomatch hquiet
  | secondSends data => nomatch hquiet

/-- What one move does, a run does. -/
theorem nears_run (h : Heads final final' leftUp leftDown told told' work link rest rest')
    {moves : List (Move β)} (hquiet : ∀ move ∈ moves, move.sends = false)
    (hrun : Machine.run step link moves = some link') :
    ∃ work' rest₁ rest₂, Heads final final' leftUp leftDown told told' work' link' rest₁ rest₂ ∧
      moves.length + link'.spare work' ≤ link.spare work := by
  induction moves generalizing work link rest rest' with
  | nil =>
    obtain rfl := Option.some.inj hrun
    exact ⟨work, rest, rest', h, by simp⟩
  | cons move moves ih =>
    obtain ⟨link₁, hstep, hrest⟩ := Option.bind_eq_some_iff.mp hrun
    obtain ⟨work₁, rest₁, rest₂, hheads, hle⟩ := nears_step h (hquiet move List.mem_cons_self) hstep
    obtain ⟨work', rest₃, rest₄, hheads', hle'⟩ :=
      ih hheads (fun m hm => hquiet m (List.mem_cons_of_mem move hm)) hrest
    refine ⟨work', rest₃, rest₄, hheads', ?_⟩
    rw [List.length_cons]
    omega

theorem Still.up (h : link.Still) : link.up = [] := by
  by_contra hne
  have hpos : 0 < link.up.length := List.length_pos_iff.mpr hne
  have hnone := h (.arrivesUp link.up.length) rfl
  simp [step, Party.receives, hpos] at hnone

theorem Still.down (h : link.Still) : link.down = [] := by
  by_contra hne
  have hpos : 0 < link.down.length := List.length_pos_iff.mpr hne
  have hnone := h (.arrivesDown link.down.length) rfl
  simp [step, Party.receives, hpos] at hnone

theorem Still.first (h : link.Still) : link.first.dialogue.step link.first.buffer = none := by
  have hnone := h .firstSteps rfl
  simpa [step, Party.step] using hnone

theorem Still.second (h : link.Still) : link.second.dialogue.step link.second.buffer = none := by
  have hnone := h .secondSteps rfl
  simpa [step, Party.step] using hnone

/-- Where nothing moves the parties have come to the standstill. -/
theorem Heads.standsStill
    (h : Heads final final' leftUp leftDown told told' work link rest rest')
    (hstill : link.Still) : StandsStill final final' leftUp leftDown told told' link := by
  have hprogress := h.leads.progress
  rw [hstill.up, hstill.down, List.append_nil, List.append_nil, hstill.first,
    hstill.second] at hprogress
  obtain ⟨hfirst, hsecond, hup, hdown, rfl, rfl⟩ := hprogress.resolve_right (by simp)
  refine ⟨hfirst, hsecond, hdown, hup, hstill.up, hstill.down, ?_, ?_⟩
  · rw [← h.told_first, List.append_nil]
  · rw [← h.told_second, List.append_nil]

theorem heads_start {first : Dialogue β E F α} {second : Dialogue β E F γ}
    (h : Leads final final' leftUp leftDown work first second [] [] told told') :
    Heads final final' leftUp leftDown told told' work (start first second) told told' :=
  ⟨h, rfl, rfl⟩

/-- If one order of the steps leads to the standstill, then every run takes only so many moves,
and where nothing moves any more it has come to the standstill. -/
theorem standsStill {first : Dialogue β E F α} {second : Dialogue β E F γ}
    (h : Leads final final' leftUp leftDown work first second [] [] told told')
    {moves : List (Move β)} (hquiet : ∀ move ∈ moves, move.sends = false)
    (hrun : Machine.run step (start first second) moves = some link) :
    moves.length ≤ work ∧
      (link.Still → StandsStill final final' leftUp leftDown told told' link) := by
  obtain ⟨work', rest, rest', hheads, hle⟩ := nears_run (heads_start h) hquiet hrun
  refine ⟨?_, fun hstill => hheads.standsStill hstill⟩
  simp only [spare, start, List.length_nil] at hle
  omega

/-- Such a run can always be continued until nothing moves. -/
theorem exists_still (h : Heads final final' leftUp leftDown told told' work link rest rest') :
    ∃ moves link', (∀ move ∈ moves, move.sends = false) ∧
      Machine.run step link moves = some link' ∧ link'.Still := by
  induction hspare : link.spare work using Nat.strong_induction_on
    generalizing work link rest rest' with
  | _ spare ih =>
    by_cases hstill : link.Still
    · exact ⟨[], link, nofun, rfl, hstill⟩
    · obtain ⟨move, hmove⟩ := not_forall.mp hstill
      obtain ⟨hquiet, hsome⟩ := Classical.not_imp.mp hmove
      obtain ⟨link₁, hstep⟩ := Option.ne_none_iff_exists'.mp hsome
      obtain ⟨work₁, rest₁, rest₂, hheads, hle⟩ := nears_step h hquiet hstep
      obtain ⟨moves, link', hmoves, hrun, hstill'⟩ := ih _ (by omega) hheads rfl
      refine ⟨move :: moves, link', ?_, ?_, hstill'⟩
      · intro m hm
        obtain rfl | hm := List.mem_cons.mp hm
        · exact hquiet
        · exact hmoves m hm
      · rw [Machine.run_cons_of hstep, hrun]

end WireRpc.Library.Link
