import WireRpc.SessionLineage
import Mathlib.Data.String.Basic

/-!
# Safety of session tokens

What every step preserves, and what follows for tokens at any time: of a lineage at most one
token is good, for its principal and until it expires, and a lineage that was revoked never
comes back.
-/
namespace WireRpc.SessionLineage
open Library Sessions MemorySessions

section
variable {T κ : Type} {s : State T κ}

theorem Fresh.lineage {token : String} (h : Fresh s token) : s.lineage token = none :=
  Option.isNone_iff_eq_none.mp h.2.1

theorem Fresh.ne {token u : String} {l : Lineage T} (h : Fresh s token)
    (hu : s.lineage u = some l) : u ≠ token := by
  rintro rfl
  nomatch hu.symm.trans h.lineage

/-- The tokens after one was added: the new one, and the old ones as they were. -/
theorem lineage_cases {lineage : String → Option (Lineage T)} {token u : String} {m l : Lineage T}
    (hu : Function.update lineage token (some m) u = some l) :
    u = token ∧ l = m ∨ u ≠ token ∧ lineage u = some l := by
  by_cases hut : u = token
  · subst hut
    rw [Function.update_self] at hu
    exact Or.inl ⟨rfl, (Option.some.inj hu).symm⟩
  · rw [Function.update_of_ne hut] at hu
    exact Or.inr ⟨hut, hu⟩

end

section
variable {T κ : Type} [LinearOrder T] [Add T] [LinearOrder κ] {c : Config T}
  {digest : String → κ} {s s' : State T κ}

theorem Inv.shrink (h : Inv c digest s) (hs : Shrinks digest s s') : Inv c digest s' where
  store := hs.store
  bounded := hs.bounded.trans h.bounded
  owned key e hlookup := by
    obtain ⟨token, l, howns⟩ := h.owned key e (hs.sub key e hlookup)
    refine ⟨token, l, howns.key, by rw [hs.lineage, howns.lineage], fun hnew => ?_,
      howns.expiry, howns.record⟩
    have hgone := hs.spent token hnew howns.unspent
    rw [howns.key] at hgone
    nomatch hgone.symm.trans hlookup
  single t u l l' e e' ht hu hroot he he' := by
    rw [hs.lineage] at ht hu
    exact h.single t u l l' e e' ht hu hroot (hs.sub _ e he) (hs.sub _ e' he')
  rooted t l ht := by
    rw [hs.lineage] at ht ⊢
    exact h.rooted t l ht
  shaped t l ht := by
    rw [hs.lineage] at ht
    exact h.shaped t l ht

theorem Inv.issue {token : String} {record : SessionRecord} {created : T} (h : Inv c digest s)
    (hdigest : Function.Injective digest) (hs : Issues c digest s s' token record created) :
    Inv c digest s' := by
  -- the root of an old lineage is an old token
  have hroot {u : String} {l : Lineage T} (hu : s.lineage u = some l) : l.root ≠ token :=
    hs.fresh.ne (h.rooted u l hu)
  have hcases {u : String} {l : Lineage T} (hu : s'.lineage u = some l) :
      u = token ∧ l = ⟨token, record.principal, created⟩ ∨ u ≠ token ∧ s.lineage u = some l := by
    rw [hs.lineage] at hu
    exact lineage_cases hu
  refine ⟨hs.store, hs.bounded, fun key e he => ?_, fun t u l l' e e' ht hu hsame he he' => ?_,
    fun t l ht => ?_, fun t l ht => ?_⟩
  · obtain ⟨rfl, rfl⟩ | ⟨-, hold⟩ := hs.lookup key e he
    · refine ⟨token, ⟨token, record.principal, created⟩, rfl, ?_, ?_, rfl, record, rfl, rfl,
        hs.identity⟩
      · rw [hs.lineage, Function.update_self]
      · rw [hs.spent]
        exact hs.fresh.2.2
    · obtain ⟨owner, l, howns⟩ := h.owned key e hold
      refine ⟨owner, l, howns.key, ?_, ?_, howns.expiry, howns.record⟩
      · rw [hs.lineage, Function.update_of_ne (hs.fresh.ne howns.lineage)]
        exact howns.lineage
      · rw [hs.spent]
        exact howns.unspent
  · obtain ⟨rfl, rfl⟩ | ⟨hnt, hold⟩ := hcases ht
    · obtain ⟨rfl, -⟩ | ⟨-, hold'⟩ := hcases hu
      · rfl
      · exact absurd hsame.symm (hroot hold')
    · obtain ⟨rfl, rfl⟩ | ⟨hnu, hold'⟩ := hcases hu
      · exact absurd hsame (hroot hold)
      · obtain ⟨hkey, -⟩ | ⟨-, he⟩ := hs.lookup _ e he
        · exact absurd (hdigest hkey) hnt
        · obtain ⟨hkey, -⟩ | ⟨-, he'⟩ := hs.lookup _ e' he'
          · exact absurd (hdigest hkey) hnu
          · exact h.single t u l l' e e' hold hold' hsame he he'
  · rw [hs.lineage]
    obtain ⟨rfl, rfl⟩ | ⟨-, hold⟩ := hcases ht
    · exact Function.update_self ..
    · rw [Function.update_of_ne (hroot hold)]
      exact h.rooted t l hold
  · obtain ⟨rfl, -⟩ | ⟨-, hold⟩ := hcases ht
    · exact hs.fresh.1
    · exact h.shaped t l hold

theorem Inv.replace {old token : String} {e : Bytes × T} (h : Inv c digest s)
    (hdigest : Function.Injective digest) (hs : Replaces digest s s' old token e) :
    Inv c digest s' := by
  obtain ⟨m, hm⟩ := h.owner hdigest hs.session
  have hcases {u : String} {l : Lineage T} (hu : s'.lineage u = some l) :
      u = token ∧ l = m ∨ u ≠ token ∧ s.lineage u = some l := by
    rw [hs.lineage, hm.lineage] at hu
    exact lineage_cases hu
  have hspent {u : String} (hu : u ≠ old) (hunspent : u ∉ s.spent) : u ∉ s'.spent := by
    rw [hs.spent, Finset.mem_insert]
    exact not_or.mpr ⟨hu, hunspent⟩
  -- a token of the lineage with a session is the one that is rotated away
  have hrival {u : String} {l : Lineage T} {e' : Bytes × T} (hut : u ≠ token)
      (hu : s.lineage u = some l) (hsame : m.root = l.root)
      (he' : s'.store.sessions.lookup (digest u) = some e') : False := by
    obtain ⟨hkey, -⟩ | ⟨-, hkey, hold⟩ := hs.lookup _ e' he'
    · exact hut (hdigest hkey)
    · have hsession := h.single old u m l e e' hm.lineage hu hsame hs.session hold
      exact hkey (congrArg digest hsession.symm)
  refine ⟨hs.store, hs.bounded.trans h.bounded, fun key e' he' => ?_,
    fun t u l l' a a' ht hu hsame ha ha' => ?_, fun t l ht => ?_, fun t l ht => ?_⟩
  · obtain ⟨rfl, rfl⟩ | ⟨-, hkey, hold⟩ := hs.lookup key e' he'
    · refine ⟨token, m, rfl, ?_, hspent (hs.fresh.ne hm.lineage).symm hs.fresh.2.2, hm.expiry,
        hm.record⟩
      rw [hs.lineage, Function.update_self]
      exact hm.lineage
    · obtain ⟨owner, l, howns⟩ := h.owned key e' hold
      have hold' : owner ≠ old := by
        rintro rfl
        exact hkey howns.key.symm
      refine ⟨owner, l, howns.key, ?_, hspent hold' howns.unspent, howns.expiry, howns.record⟩
      rw [hs.lineage, Function.update_of_ne (hs.fresh.ne howns.lineage)]
      exact howns.lineage
  · obtain ⟨rfl, rfl⟩ | ⟨hnt, hold⟩ := hcases ht
    · obtain ⟨rfl, -⟩ | ⟨hnu, hold'⟩ := hcases hu
      · rfl
      · exact (hrival hnu hold' hsame ha').elim
    · obtain ⟨rfl, rfl⟩ | ⟨hnu, hold'⟩ := hcases hu
      · exact (hrival hnt hold hsame.symm ha).elim
      · obtain ⟨hkey, -⟩ | ⟨-, -, ha⟩ := hs.lookup _ a ha
        · exact absurd (hdigest hkey) hnt
        · obtain ⟨hkey, -⟩ | ⟨-, -, ha'⟩ := hs.lookup _ a' ha'
          · exact absurd (hdigest hkey) hnu
          · exact h.single t u l l' a a' hold hold' hsame ha ha'
  · have hroot : s.lineage l.root = some l := by
      obtain ⟨-, rfl⟩ | ⟨-, hold⟩ := hcases ht
      · exact h.rooted old l hm.lineage
      · exact h.rooted t l hold
    rw [hs.lineage, Function.update_of_ne (hs.fresh.ne hroot)]
    exact hroot
  · obtain ⟨rfl, -⟩ | ⟨-, hold⟩ := hcases ht
    · exact hs.fresh.1
    · exact h.shaped t l hold

theorem Inv.move (h : Inv c digest s) (hdigest : Function.Injective digest)
    (hs : Move c digest s s') : Inv c digest s' := by
  cases hs with
  | shrinks hs => exact h.shrink hs
  | issues token record created hs => exact h.issue hdigest hs
  | replaces old token e hs => exact h.replace hdigest hs

theorem Inv.step {e : Event T} (h : Inv c digest s) (hdigest : Function.Injective digest)
    (hs : step c digest s e = some s') : Inv c digest s' :=
  h.move hdigest (step_move h hdigest hs)

theorem inv_run {es : List (Event T)} {clock : T} (hdigest : Function.Injective digest)
    (h : Machine.run (step c digest) (start clock) es = some s) : Inv c digest s :=
  Machine.invariant (fun _ _ _ hs hstep => hs.step hdigest hstep) (inv_start clock) h

/-- `validate` answers with the principal of a session that is alive. -/
theorem validates_iff_session (h : Indexed s.store) {token : String} {now : T}
    {principal : String} : Validates c digest s token now principal ↔ valid token = true ∧
      ∃ e record, (s.store.sessions.lookup (digest token)).filter (live now) = some e ∧
        loads e.1 = some record ∧ record.principal = principal := by
  unfold Validates Sessions.validate Sessions.get
  by_cases hvalid : valid token = true
  · rw [if_neg (by simp [hvalid]), get_eq c now now _ h]
    cases hlookup : (s.store.sessions.lookup (digest token)).filter (live now) with
    | none => simp [Except.map]
    | some e =>
      cases hloads : loads e.1 with
      | none => simp [Except.map, hloads]
      | some record => simp [Except.map, hloads, hvalid]
  · rw [if_pos (by simpa using hvalid)]
    simp [Except.map, hvalid]

/-- A token is good for the principal of its lineage, as long as it has a session and the
lineage has not expired. -/
theorem Inv.validates_iff (h : Inv c digest s) (hdigest : Function.Injective digest)
    {token : String} {now : T} {principal : String} :
    Validates c digest s token now principal ↔ ∃ l e, Owns c digest s token l (digest token) e ∧
      s.store.sessions.lookup (digest token) = some e ∧ l.principal = principal ∧
        now < l.created + c.ttl := by
  rw [validates_iff_session h.store]
  constructor
  · rintro ⟨-, e, record, he, hloads, hprincipal⟩
    rw [Option.filter_eq_some_iff] at he
    obtain ⟨l, howns⟩ := h.owner hdigest he.1
    obtain ⟨stored, hstored, hof, hidentity⟩ := howns.record
    rw [hstored, loads_dumps hidentity] at hloads
    obtain rfl := Option.some.inj hloads
    refine ⟨l, e, howns, he.1, hof.symm.trans hprincipal, ?_⟩
    have hlive := he.2
    simp only [live, howns.expiry, decide_eq_true_eq] at hlive
    exact hlive
  · rintro ⟨l, e, howns, he, rfl, hnow⟩
    obtain ⟨stored, hstored, hof, hidentity⟩ := howns.record
    refine ⟨h.shaped token l howns.lineage, e, stored, ?_, ?_, hof⟩
    · rw [Option.filter_eq_some_iff]
      refine ⟨he, ?_⟩
      simpa only [live, howns.expiry, decide_eq_true_eq] using hnow
    · rw [hstored]
      exact loads_dumps hidentity

theorem Inv.of_rotates (h : Inv c digest s) (hdigest : Function.Injective digest)
    {token new : String} {now later : T} (hle : now ≤ later)
    (hr : Rotates c digest s token new now later) :
    ∃ l e, Owns c digest s token l (digest token) e ∧ now < l.created + c.ttl := by
  unfold Rotates at hr
  obtain ⟨-, -, heq⟩ | ⟨-, heq⟩ | ⟨e, store, he, -⟩ :=
    rotated_cases c digest h.store hle token new
  · nomatch heq.symm.trans hr
  · rw [heq] at hr
    nomatch hr
  · rw [Option.filter_eq_some_iff] at he
    obtain ⟨l, howns⟩ := h.owner hdigest he.1
    refine ⟨l, e, howns, ?_⟩
    have hlive := he.2
    simp only [live, howns.expiry, decide_eq_true_eq] at hlive
    exact hlive

/-- A token stays in its lineage. -/
theorem Move.lineage {token : String} {l : Lineage T} (hs : Move c digest s s')
    (hl : s.lineage token = some l) : s'.lineage token = some l := by
  cases hs with
  | shrinks hs => rw [hs.lineage, hl]
  | issues new record created hs => rw [hs.lineage, Function.update_of_ne (hs.fresh.ne hl), hl]
  | replaces old new e hs => rw [hs.lineage, Function.update_of_ne (hs.fresh.ne hl), hl]

theorem run_lineage {es : List (Event T)} {token : String} {l : Lineage T}
    (h : Inv c digest s) (hdigest : Function.Injective digest) (hl : s.lineage token = some l)
    (hrun : Machine.run (step c digest) s es = some s') :
    Inv c digest s' ∧ s'.lineage token = some l := by
  refine Machine.invariant (P := fun s => Inv c digest s ∧ s.lineage token = some l)
    (fun s e s' hs hstep => ?_) ⟨h, hl⟩ hrun
  have hmove := step_move hs.1 hdigest hstep
  exact ⟨hs.1.move hdigest hmove, hmove.lineage hs.2⟩

/-- The lineage is known, and no token of it has a session. -/
def Gone (digest : String → κ) (m : Lineage T) (s : State T κ) : Prop :=
  s.lineage m.root = some m ∧ ∀ t l, s.lineage t = some l → l.root = m.root →
    s.store.sessions.lookup (digest t) = none

theorem Gone.move {m : Lineage T} (hgone : Gone digest m s) (h : Inv c digest s)
    (hdigest : Function.Injective digest) (hs : Move c digest s s') : Gone digest m s' := by
  obtain ⟨hm, hnone⟩ := hgone
  refine ⟨hs.lineage hm, fun t l ht hl => ?_⟩
  apply Option.eq_none_iff_forall_ne_some.mpr
  intro e he
  cases hs with
  | shrinks hs =>
    rw [hs.lineage] at ht
    nomatch (hnone t l ht hl).symm.trans (hs.sub _ e he)
  | issues token record created hs =>
    rw [hs.lineage] at ht
    obtain ⟨rfl, rfl⟩ | ⟨hnt, hold⟩ := lineage_cases ht
    · exact absurd hl.symm (hs.fresh.ne hm)
    · obtain ⟨hkey, -⟩ | ⟨-, he⟩ := hs.lookup _ e he
      · exact hnt (hdigest hkey)
      · nomatch (hnone t l hold hl).symm.trans he
  | replaces old token e' hs =>
    obtain ⟨l', hl'⟩ := h.owner hdigest hs.session
    rw [hs.lineage, hl'.lineage] at ht
    obtain ⟨rfl, rfl⟩ | ⟨hnt, hold⟩ := lineage_cases ht
    · nomatch (hnone old l hl'.lineage hl).symm.trans hs.session
    · obtain ⟨hkey, -⟩ | ⟨-, -, he⟩ := hs.lookup _ e he
      · exact hnt (hdigest hkey)
      · nomatch (hnone t l hold hl).symm.trans he

theorem run_gone {es : List (Event T)} {m : Lineage T} (hgone : Gone digest m s)
    (h : Inv c digest s) (hdigest : Function.Injective digest)
    (hrun : Machine.run (step c digest) s es = some s') : Inv c digest s' ∧ Gone digest m s' := by
  refine Machine.invariant (P := fun s => Inv c digest s ∧ Gone digest m s)
    (fun s e s' hs hstep => ?_) ⟨h, hgone⟩ hrun
  have hmove := step_move hs.1 hdigest hstep
  exact ⟨hs.1.move hdigest hmove, hs.2.move hs.1 hdigest hmove⟩

/-- A call of `revoke_all` leaves nothing of the lineages of its principal. -/
theorem gone_revoked {now later : T} {principal : String} {m : Lineage T}
    (h : Inv c digest s) (hdigest : Function.Injective digest) (hle : now ≤ later)
    (hidentity : identity principal = true) (hroot : s.lineage m.root = some m)
    (hm : m.principal = principal) :
    Gone digest m (revokeAll c s principal now later) := by
  obtain ⟨-, -, hlookup⟩ := revokeAll_store h hle hidentity
  refine ⟨hroot, fun t l ht hl => ?_⟩
  rw [hlookup]
  apply Option.eq_none_iff_forall_ne_some.mpr
  intro e he
  rw [Option.filter_eq_some_iff] at he
  obtain ⟨l', howns⟩ := h.owner hdigest he.1
  obtain rfl := Option.some.inj (howns.lineage.symm.trans ht)
  obtain rfl := Option.some.inj ((h.rooted t l' ht).symm.trans (hl ▸ hroot))
  obtain ⟨record, hrecord, hof, -⟩ := howns.record
  have hbelongs : belongsTo principal e = true := by
    simp [belongsTo, hrecord, principalOf_dumps, hof, hm]
  simp [hbelongs] at he

/-- It takes nothing from the others. -/
theorem validates_revoked {now later at' : T} {principal token q : String} {l : Lineage T}
    (h : Inv c digest s) (hdigest : Function.Injective digest) (hle : now ≤ later)
    (hidentity : identity principal = true) (hl : s.lineage token = some l)
    (hother : l.principal ≠ principal) (hat : later ≤ at') :
    Validates c digest (revokeAll c s principal now later) token at' q ↔
      Validates c digest s token at' q := by
  obtain ⟨hindexed, -, hlookup⟩ := revokeAll_store h hle hidentity
  have hsame : ((revokeAll c s principal now later).store.sessions.lookup (digest token)).filter
      (live at') = (s.store.sessions.lookup (digest token)).filter (live at') := by
    rw [hlookup, Option.filter_filter]
    cases he : s.store.sessions.lookup (digest token) with
    | none => rfl
    | some e =>
      obtain ⟨l', howns⟩ := h.owner hdigest he
      obtain rfl := Option.some.inj (howns.lineage.symm.trans hl)
      obtain ⟨record, hrecord, hof, -⟩ := howns.record
      have hbelongs : belongsTo principal e = false := by
        simpa [belongsTo, hrecord, principalOf_dumps, hof] using hother
      by_cases hlive : live at' e = true
      · simp [Option.filter_some, hbelongs, hlive, live_of_le hat hlive]
      · simp [Option.filter_some, hlive]
  rw [validates_iff_session hindexed, validates_iff_session h.store, hsame]

/-- What holds of the tokens in a state. Tokens of one lineage that are good, at whatever
times, are one and the same; a good token has the principal of its lineage and has not
expired; a spent or an expired one is neither good nor can be rotated; the store never
overflows, and `create` fails only when it is full of sessions that are alive. -/
structure Safe (c : Config T) (digest : String → κ) (s : State T κ) : Prop where
  single : ∀ t u l l' now now' p q, s.lineage t = some l → s.lineage u = some l' →
    l.root = l'.root → Validates c digest s t now p → Validates c digest s u now' q → t = u
  faithful : ∀ t now p, Validates c digest s t now p →
    ∃ l, s.lineage t = some l ∧ p = l.principal ∧ now < l.created + c.ttl
  spent : ∀ t now, t ∈ s.spent ∨ (∃ l, s.lineage t = some l ∧ l.created + c.ttl ≤ now) →
    (∀ p, ¬ Validates c digest s t now p) ∧
      ∀ new later, now ≤ later → ¬ Rotates c digest s t new now later
  bounded : Table.size s.store.sessions ≤ c.maxSessions
  create : ∀ userId payload token now later, Acceptable userId payload → Fresh s token →
    (Sessions.create (execute c now later) digest userId payload token s.store).2 =
      if alive now s.store < c.maxSessions then .ok token else .error .capacity

theorem Inv.safe (h : Inv c digest s) (hdigest : Function.Injective digest) :
    Safe c digest s where
  single t u l l' now now' p q ht hu hroot hgood hgood' := by
    obtain ⟨-, e, -, he, -⟩ := (h.validates_iff hdigest).mp hgood
    obtain ⟨-, e', -, he', -⟩ := (h.validates_iff hdigest).mp hgood'
    exact h.single t u l l' e e' ht hu hroot he he'
  faithful t now p hgood := by
    obtain ⟨l, e, howns, -, hp, hnow⟩ := (h.validates_iff hdigest).mp hgood
    exact ⟨l, howns.lineage, hp.symm, hnow⟩
  spent t now hspent := by
    have hdead {l : Lineage T} {e : Bytes × T} (howns : Owns c digest s t l (digest t) e)
        (hnow : now < l.created + c.ttl) : False := by
      obtain hspent | ⟨l', hl', hexpired⟩ := hspent
      · exact howns.unspent hspent
      · obtain rfl := Option.some.inj (howns.lineage.symm.trans hl')
        exact absurd hnow (not_lt.mpr hexpired)
    constructor
    · intro p hgood
      obtain ⟨l, e, howns, -, -, hnow⟩ := (h.validates_iff hdigest).mp hgood
      exact hdead howns hnow
    · intro new later hle hrotates
      obtain ⟨l, e, howns, hnow⟩ := h.of_rotates hdigest hle hrotates
      exact hdead howns hnow
  bounded := h.bounded
  create userId payload token now later hacceptable hfresh := by
    obtain ⟨hrefused, -⟩ | ⟨-, ⟨⟨e, he⟩, -⟩ | ⟨hfull, heq⟩ | ⟨hroom, store, -, heq, -⟩⟩ :=
      created_cases c digest h.store userId payload token now later
    · exact absurd hacceptable hrefused
    · obtain ⟨l, howns⟩ := h.owner hdigest (Option.filter_eq_some_iff.mp he).1
      exact absurd rfl (hfresh.ne howns.lineage)
    · rw [heq, if_neg (not_lt.mpr hfull)]
    · rw [heq, if_pos hroom]

/-- The tokens of a store in memory are safe after any calls. Once `revoke_all` has returned
for a principal, no token of a lineage of the principal that was created before is good any
more, and those of other principals are as good as they were. -/
theorem sessions_safe (hdigest : Function.Injective digest) (clock : T) (es : List (Event T))
    (h : Machine.run (step c digest) (start clock) es = some s) :
    Safe c digest s ∧ ∀ principal now later s₁, identity principal = true →
      step c digest s (.revokeAll principal now later) = some s₁ →
        (∀ fs s₂ t l at' q, Machine.run (step c digest) s₁ fs = some s₂ →
          s₂.lineage t = some l → l.principal = principal → (s.lineage l.root).isSome = true →
            ¬ Validates c digest s₂ t at' q) ∧
        ∀ t l at' q, s.lineage t = some l → l.principal ≠ principal → later ≤ at' →
          (Validates c digest s₁ t at' q ↔ Validates c digest s t at' q) := by
  have hinv := inv_run hdigest h
  refine ⟨hinv.safe hdigest, fun principal now later s₁ hidentity hs => ?_⟩
  have hinv₁ := hinv.step hdigest hs
  obtain ⟨⟨-, hle⟩, hs⟩ := Option.ite_none_right_eq_some.mp hs
  obtain rfl := Option.some.inj hs
  constructor
  · intro fs s₂ t l at' q hrun ht hl hroot hgood
    obtain ⟨m, hm⟩ := Option.isSome_iff_exists.mp hroot
    have hm' := hinv.rooted l.root m hm
    obtain ⟨hinv₂, hm₂⟩ := run_lineage hinv₁ hdigest hm hrun
    obtain rfl := Option.some.inj ((hinv₂.rooted t l ht).symm.trans hm₂)
    have hgone := gone_revoked hinv hdigest hle hidentity hm' hl
    obtain ⟨-, -, hnone⟩ := run_gone hgone hinv₁ hdigest hrun
    obtain ⟨-, e, -, he, -⟩ := (hinv₂.validates_iff hdigest).mp hgood
    nomatch (hnone t l ht rfl).symm.trans he
  · intro t l at' q hl hother hat
    exact validates_revoked hinv hdigest hle hidentity hl hother hat

end

def config : Config ℕ := ⟨10, 2, by decide⟩

/-- A session is created and rotated. -/
def rotatedRun : List (Event ℕ) :=
  [.create "ann" [] firstToken 0 0, .rotate firstToken secondToken 1 1]

theorem sessions_safe_rotated : ∃ (s s₁ : State ℕ String) (l : Lineage ℕ),
    Machine.run (step config sampleDigest) (start 0) rotatedRun = some s ∧
      step config sampleDigest s (.revokeAll "ann" 2 2) = some s₁ ∧
      s₁.lineage secondToken = some l ∧ l.root = firstToken ∧ Safe config sampleDigest s ∧
        ∀ at' q, ¬ Validates config sampleDigest s₁ secondToken at' q := by
  have hruns : ((Machine.run (step config sampleDigest) (start 0) rotatedRun).bind
      fun s : State ℕ String =>
      (step config sampleDigest s (.revokeAll "ann" 2 2)).bind fun s₁ =>
        (s₁.lineage secondToken).bind fun l =>
          (s.lineage l.root).map fun _ => (l.root, l.principal)) = some (firstToken, "ann") := by
    decide +kernel
  obtain ⟨s, hs, hruns⟩ := Option.bind_eq_some_iff.mp hruns
  obtain ⟨s₁, hs₁, hruns⟩ := Option.bind_eq_some_iff.mp hruns
  obtain ⟨l, hl, hruns⟩ := Option.bind_eq_some_iff.mp hruns
  obtain ⟨m, hm, hnames⟩ := Option.map_eq_some_iff.mp hruns
  obtain ⟨hroot, hprincipal⟩ := Prod.mk.inj hnames
  obtain ⟨hsafe, hrevoked⟩ := sessions_safe sampleDigest_injective 0 rotatedRun hs
  obtain ⟨hgone, -⟩ := hrevoked "ann" 2 2 s₁ (by decide) hs₁
  refine ⟨s, s₁, l, hs, hs₁, hl, hroot, hsafe, fun at' q => ?_⟩
  exact hgone [] s₁ secondToken l at' q rfl hl hprincipal (Option.isSome_of_eq_some hm)

end WireRpc.SessionLineage
