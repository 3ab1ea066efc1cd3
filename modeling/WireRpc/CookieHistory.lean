import WireRpc.CookieSessions

/-!
# What a session cookie stands for

A check of a request finds a principal exactly if the token that the request shows comes from
a login of the principal that has not expired: by the rotations since, and with no logout, no
call of `destroy` for the token and no call of `revoke_all` for the principal in between.
-/
namespace WireRpc.CookieSessions
open Library Sessions MemorySessions CookieLogout Answering

/-- What callers were told that concerns the sessions. -/
inductive Entry (T : Type) where
  | loggedIn (principal token : String) (created : T)
  | rotated (old new : String)
  | ended (token : String)
  | revoked (principal : String)
  deriving DecidableEq

/-- The principal that a login tells of. -/
def LoginResponse.userId (response : LoginResponse) : Option String :=
  match response.body.find? fun field => field.1 == "user_id" with
  | some (_, .str userId) => some userId
  | _ => none

section
variable {T : Type} (cookies : Request → String → Option String) (auth : Auth)

/-- A login that sets a cookie counts from the time at which its session was created. -/
def entryOf : Event T × Answer → Option (Entry T)
  | (.login _ _ _ _ _ later, .login (.ok response)) =>
    match response.userId, response.cookie with
    | some userId, some cookie => some (.loggedIn userId cookie.value later)
    | _, _ => none
  | (.logout request _ _, .logout (.ok response)) =>
    if response.status = 200 then (auth.sessionId cookies request).map .ended else none
  | (.destroy sessionId _ _, .destroy (.ok ())) => some (.ended sessionId)
  | (.rotate sessionId _ _ _, .rotate (.ok (some token))) => some (.rotated sessionId token)
  | (.revokeAll userId _ _, .revokeAll (.ok _)) => some (.revoked userId)
  | _ => none

def entries (past : List (Event T × Answer)) : List (Entry T) :=
  past.filterMap (entryOf cookies auth)

end

section
variable {T : Type}

/-- The token of a session of the principal after the entries, if the session is left. -/
def follow (principal : String) : String → List (Entry T) → Option String
  | token, [] => some token
  | token, .rotated old new :: rest => follow principal (if old = token then new else token) rest
  | token, .ended token' :: rest => if token' = token then none else follow principal token rest
  | token, .revoked principal' :: rest =>
    if principal' = principal then none else follow principal token rest
  | token, .loggedIn _ _ _ :: rest => follow principal token rest

/-- The token stands for a login of the principal at that time. -/
def Stands (log : List (Entry T)) (principal : String) (created : T) (token : String) : Prop :=
  ∃ before root after, log = before ++ .loggedIn principal root created :: after ∧
    follow principal root after = some token

variable {log : List (Entry T)} {principal token : String} {created : T}

theorem follow_append (principal token : String) (log later : List (Entry T)) :
    follow principal token (log ++ later) =
      (follow principal token log).bind fun token => follow principal token later := by
  induction log generalizing token with
  | nil => rfl
  | cons entry log ih =>
    cases entry with
    | rotated old new => exact ih _
    | loggedIn principal' token' created => exact ih token
    | ended token' =>
      simp only [List.cons_append, follow]
      split_ifs
      · rfl
      · exact ih token
    | revoked principal' =>
      simp only [List.cons_append, follow]
      split_ifs
      · rfl
      · exact ih token

theorem not_stands_nil : ¬ Stands ([] : List (Entry T)) principal created token := by
  rintro ⟨before, root, after, hlog, -⟩
  simp at hlog

/-- The last entry is the login, or what it does to the token there was. -/
theorem stands_concat {entry : Entry T} : Stands (log ++ [entry]) principal created token ↔
    entry = .loggedIn principal token created ∨
      ∃ old, Stands log principal created old ∧ follow principal old [entry] = some token := by
  constructor
  · rintro ⟨before, root, after, hlog, hfollow⟩
    obtain rfl | ⟨after, last, rfl⟩ := after.eq_nil_or_concat'
    · obtain ⟨-, hentry⟩ := List.append_inj' hlog rfl
      obtain rfl := List.singleton_inj.mp hentry
      obtain rfl := Option.some.inj hfollow
      exact .inl rfl
    · rw [← List.cons_append, ← List.append_assoc] at hlog
      obtain ⟨rfl, hlast⟩ := List.append_inj' hlog rfl
      obtain rfl := List.singleton_inj.mp hlast
      rw [follow_append] at hfollow
      obtain ⟨old, hold, hlast⟩ := Option.bind_eq_some_iff.mp hfollow
      exact .inr ⟨old, ⟨before, root, after, rfl, hold⟩, hlast⟩
  · rintro (rfl | ⟨old, ⟨before, root, after, rfl, hold⟩, hlast⟩)
    · exact ⟨log, token, [], rfl, rfl⟩
    · refine ⟨before, root, after ++ [entry], by simp, ?_⟩
      rw [follow_append, hold]
      exact hlast

end

section
variable {T : Type} {cookies : Request → String → Option String} {auth : Auth}

/-- Among the calls is a login at which the validator found the principal. -/
def Accepted (auth : Auth) (es : List (Event T)) (principal token : String) (created : T) : Prop :=
  ∃ request fields validate now,
    .login request (some (.obj fields)) validate token now created ∈ es ∧
      (auth.requireTls = true → request.secure = true) ∧
      validated validate fields = .ok (some principal)

theorem Accepted.mono {es es' : List (Event T)} {principal token : String} {created : T}
    (h : Accepted auth es principal token created) (hsub : es ⊆ es') :
    Accepted auth es' principal token created := by
  obtain ⟨request, fields, validate, now, hmem, hlogin⟩ := h
  exact ⟨request, fields, validate, now, hsub hmem, hlogin⟩

/-- The ledger has the tokens that stand for a login, and each login was accepted. -/
structure Records (cookies : Request → String → Option String) (auth : Auth)
    (past : List (Event T × Answer)) (m : Ledger T) : Prop where
  issued : ∀ token g, m.lookup token = some g → ∃ e ∈ past.map Prod.fst, e.token = some token
  stands : ∀ token principal created, m.lookup token = some ⟨principal, created⟩ ↔
    Stands (entries cookies auth past) principal created token
  accepted : ∀ principal token created,
    .loggedIn principal token created ∈ entries cookies auth past →
      Accepted auth (past.map Prod.fst) principal token created

theorem records_nil (cookies : Request → String → Option String) (auth : Auth) :
    Records cookies auth [] (∅ : Ledger T) where
  issued _ _ h := nomatch h
  stands _ _ _ := iff_of_false (by simp) not_stands_nil
  accepted _ _ _ h := nomatch h

variable {past : List (Event T × Answer)} {m m' : Ledger T} {e : Event T} {answer : Answer}

theorem entries_concat (past : List (Event T × Answer)) (e : Event T) (answer : Answer) :
    entries cookies auth (past ++ [(e, answer)]) =
      entries cookies auth past ++ (entryOf cookies auth (e, answer)).toList := by
  unfold entries
  rw [List.filterMap_append]
  cases h : entryOf cookies auth (e, answer) <;> simp [h]

theorem Records.quiet (h : Records cookies auth past m)
    (hentry : entryOf cookies auth (e, answer) = none) :
    Records cookies auth (past ++ [(e, answer)]) m where
  issued token g hg := by
    obtain ⟨earlier, hearlier, htoken⟩ := h.issued token g hg
    exact ⟨earlier, by simp [hearlier], htoken⟩
  stands token principal created := by
    rw [entries_concat, hentry, Option.toList_none, List.append_nil]
    exact h.stands token principal created
  accepted principal token created hmem := by
    rw [entries_concat, hentry, Option.toList_none, List.append_nil] at hmem
    exact (h.accepted principal token created hmem).mono (by simp)

theorem Records.next {entry : Entry T} (h : Records cookies auth past m)
    (hentry : entryOf cookies auth (e, answer) = some entry)
    (hissued : ∀ token g, m'.lookup token = some g →
      e.token = some token ∨ ∃ g', m.lookup token = some g')
    (hstands : ∀ token principal created, m'.lookup token = some ⟨principal, created⟩ ↔
      entry = .loggedIn principal token created ∨
        ∃ old, m.lookup old = some ⟨principal, created⟩ ∧
          follow principal old [entry] = some token)
    (haccepted : ∀ principal token created, entry = .loggedIn principal token created →
      Accepted auth [e] principal token created) :
    Records cookies auth (past ++ [(e, answer)]) m' where
  issued token g hg := by
    obtain hnew | ⟨g', hg'⟩ := hissued token g hg
    · exact ⟨e, by simp, hnew⟩
    · obtain ⟨earlier, hearlier, htoken⟩ := h.issued token g' hg'
      exact ⟨earlier, by simp [hearlier], htoken⟩
  stands token principal created := by
    rw [entries_concat, hentry, Option.toList_some, stands_concat, hstands]
    simp only [h.stands]
  accepted principal token created hmem := by
    rw [entries_concat, hentry, Option.toList_some, List.mem_append, List.mem_singleton] at hmem
    obtain hold | hnew := hmem
    · exact (h.accepted principal token created hold).mono (by simp)
    · exact (haccepted principal token created hnew.symm).mono (by simp)

theorem Records.login (h : Records cookies auth past m) {userId token : String} {created : T}
    (hentry : entryOf cookies auth (e, answer) = some (.loggedIn userId token created))
    (htoken : e.token = some token) (hfresh : m.lookup token = none)
    (haccepted : Accepted auth [e] userId token created) :
    Records cookies auth (past ++ [(e, answer)]) (m.insert token ⟨userId, created⟩) := by
  refine h.next hentry (fun t g hg => ?_) (fun t principal since => ?_)
    fun principal t since heq => ?_
  · by_cases ht : t = token
    · exact .inl (ht ▸ htoken)
    · exact .inr ⟨g, (AList.lookup_insert_ne ht).symm.trans hg⟩
  · by_cases ht : t = token
    · subst ht
      rw [AList.lookup_insert]
      simp [follow, hfresh]
    · rw [AList.lookup_insert_ne ht]
      simp [follow, Ne.symm ht]
  · obtain ⟨rfl, rfl, rfl⟩ := Entry.loggedIn.inj heq
    exact haccepted

theorem Records.rotate (h : Records cookies auth past m) {old token : String} {g : Grant T}
    (hentry : entryOf cookies auth (e, answer) = some (.rotated old token))
    (htoken : e.token = some token) (hfresh : m.lookup token = none)
    (hg : m.lookup old = some g) :
    Records cookies auth (past ++ [(e, answer)]) ((m.erase old).insert token g) := by
  have hne : token ≠ old := by
    rintro rfl
    cases hfresh.symm.trans hg
  refine h.next hentry (fun t g' hg' => ?_) (fun t principal since => ?_) (by simp)
  · by_cases ht : t = token
    · exact .inl (ht ▸ htoken)
    · by_cases ht' : t = old
      · exact .inr ⟨g, ht' ▸ hg⟩
      · rw [AList.lookup_insert_ne ht, AList.lookup_erase_ne ht'] at hg'
        exact .inr ⟨g', hg'⟩
  · have hfollow (u : String) : follow principal u [Entry.rotated (T := T) old token] =
        some (if old = u then token else u) := rfl
    simp only [hfollow, Option.some.injEq, reduceCtorEq, false_or]
    by_cases ht : t = token
    · subst ht
      rw [AList.lookup_insert]
      constructor
      · intro heq
        exact ⟨old, hg.trans heq, if_pos rfl⟩
      · rintro ⟨u, hu, heq⟩
        split_ifs at heq with hold
        · subst hold
          exact hg.symm.trans hu
        · subst heq
          cases hfresh.symm.trans hu
    · rw [AList.lookup_insert_ne ht]
      by_cases ht' : t = old
      · subst ht'
        rw [AList.lookup_erase]
        refine iff_of_false (by simp) ?_
        rintro ⟨u, -, heq⟩
        split_ifs at heq with hold
        · exact ht heq.symm
        · exact hold heq.symm
      · rw [AList.lookup_erase_ne ht']
        constructor
        · intro heq
          exact ⟨t, heq, if_neg (Ne.symm ht')⟩
        · rintro ⟨u, hu, heq⟩
          split_ifs at heq with hold
          · exact absurd heq.symm ht
          · exact heq ▸ hu

theorem Records.erase (h : Records cookies auth past m) {token : String}
    (hentry : entryOf cookies auth (e, answer) = some (.ended token)) :
    Records cookies auth (past ++ [(e, answer)]) (m.erase token) := by
  refine h.next hentry (fun t g hg => ?_) (fun t principal since => ?_) (by simp)
  · by_cases ht : t = token
    · subst ht
      cases (AList.lookup_erase ..).symm.trans hg
    · exact .inr ⟨g, (AList.lookup_erase_ne ht).symm.trans hg⟩
  · have hfollow (u : String) : follow principal u [Entry.ended (T := T) token] =
        if token = u then none else some u := rfl
    simp only [hfollow, reduceCtorEq, false_or, Option.ite_none_left_eq_some, Option.some.injEq]
    by_cases ht : t = token
    · subst ht
      rw [AList.lookup_erase]
      refine iff_of_false (by simp) ?_
      rintro ⟨u, -, hne, heq⟩
      exact hne heq.symm
    · rw [AList.lookup_erase_ne ht]
      constructor
      · intro heq
        exact ⟨t, heq, Ne.symm ht, rfl⟩
      · rintro ⟨u, hu, -, rfl⟩
        exact hu

theorem Records.revoke (h : Records cookies auth past m) {userId : String}
    (hentry : entryOf cookies auth (e, answer) = some (.revoked userId)) :
    Records cookies auth (past ++ [(e, answer)])
      (Table.keep (fun _ g => g.principal != userId) m) := by
  refine h.next hentry (fun t g hg => ?_) (fun t principal since => ?_) (by simp)
  · rw [Table.lookup_keep] at hg
    exact .inr ⟨g, (Option.filter_eq_some_iff.mp hg).1⟩
  · have hfollow (u : String) : follow principal u [Entry.revoked (T := T) userId] =
        if userId = principal then none else some u := rfl
    rw [Table.lookup_keep, Option.filter_eq_some_iff]
    simp only [hfollow, reduceCtorEq, false_or, Option.ite_none_left_eq_some, Option.some.injEq]
    constructor
    · rintro ⟨heq, hne⟩
      exact ⟨t, heq, Ne.symm (by simpa using hne), rfl⟩
    · rintro ⟨u, hu, hne, rfl⟩
      exact ⟨hu, by simpa using Ne.symm hne⟩

theorem userId_refused (status : ℕ) (error : String) : (refused status error).userId = none := by
  simp [LoginResponse.userId, refused]

theorem userId_welcome (auth : Auth) (userId token : String) :
    (welcome auth userId token).userId = some userId := by
  simp [LoginResponse.userId, welcome]

variable [LinearOrder T]

theorem Records.fresh (h : Records cookies auth past m)
    (hadm : Admissible (past.map Prod.fst) e) {token : String} (htoken : e.token = some token) :
    m.lookup token = none := by
  apply Option.eq_none_iff_forall_ne_some.mpr
  intro g hg
  obtain ⟨earlier, hearlier, hissued⟩ := h.issued token g hg
  exact hadm.fresh token htoken earlier hearlier hissued

variable [Add T] {c : Config T}

theorem Records.step (h : Records cookies auth past m)
    (hadm : Admissible (past.map Prod.fst) e) :
    Records cookies auth (past ++ [(e, (ledger cookies auth c e m).2)])
      (ledger cookies auth c e m).1 := by
  cases e with
  | login request body validate token now later =>
    have hrefused (status : ℕ) (error : String) :
        Records cookies auth (past ++ [(Event.login request body validate token now later,
          .login (.ok (refused status error)))]) m := by
      apply h.quiet
      simp only [entryOf, userId_refused]
    simp only [ledger]
    by_cases htls : (auth.requireTls && !request.secure) = true
    · simp only [if_pos htls]
      exact hrefused 403 "TLS required"
    · simp only [if_neg htls]
      split
      · split
        · exact hrefused 503 "Authentication unavailable"
        · exact hrefused 401 "Invalid credentials"
        · rename_i fields _ userId hverdict
          split_ifs
          · refine h.login ?_ rfl (h.fresh hadm rfl) ?_
            · simp only [entryOf, userId_welcome]
              rfl
            · refine ⟨request, fields, validate, now, List.mem_singleton_self _,
                fun hrequired => ?_, hverdict⟩
              simpa [hrequired] using htls
          · exact hrefused 503 "Session capacity unavailable"
      · exact hrefused 400 "Invalid request body"
  | verify request now => exact h.quiet rfl
  | logout request now later =>
    simp only [ledger]
    split_ifs with htls
    · exact h.quiet rfl
    · split
      · rename_i token hshown
        apply h.erase
        simp only [entryOf, hshown]
        rfl
      · rename_i hshown
        apply h.quiet
        simp only [entryOf, hshown]
        rfl
  | destroy token now later => exact h.erase rfl
  | rotate old token now later =>
    simp only [ledger]
    cases hg : current c now m old with
    | some g => exact h.rotate rfl rfl (h.fresh hadm rfl) (mem_current hg)
    | none => exact h.quiet rfl
  | revokeAll userId now later =>
    simp only [ledger]
    split_ifs
    · exact h.revoke rfl
    · exact h.quiet rfl

/-- What the callers were told. -/
def told {κ : Type} [LinearOrder κ] (cookies : Request → String → Option String) (auth : Auth)
    (c : Config T) (digest : String → κ) (es : List (Event T)) : List (Entry T) :=
  entries cookies auth (transcript (serve cookies auth c digest) empty es)

/-- A check always returns. It finds a principal exactly if the request shows a token that
stands for a login of the principal which has not expired; and at each login that the callers
were told of, the validator had found the principal. -/
theorem verified_iff {κ : Type} [LinearOrder κ] (cookies : Request → String → Option String)
    (auth : Auth) (c : Config T) {digest : String → κ} (hdigest : Function.Injective digest)
    (es : List (Event T)) (h : History es) :
    (∀ request now, (∀ e ∈ es, e.later ≤ now) → ∃ found,
      (serve cookies auth c digest (.verify request now)
        (finish (serve cookies auth c digest) empty es)).2 = .verify (.ok found) ∧
      ∀ principal, found = some principal ↔ (auth.requireTls = true → request.secure = true) ∧
        ∃ token created, auth.sessionId cookies request = some token ∧
          Stands (told cookies auth c digest es) principal created token ∧
          now < created + c.ttl) ∧
    ∀ principal token created,
      .loggedIn principal token created ∈ told cookies auth c digest es →
        Accepted auth es principal token created := by
  obtain ⟨hanswers, hkeeps⟩ := run_keeps cookies auth c hdigest h
  have hrecords : Records cookies auth (transcript (ledger cookies auth c) ∅ es)
      (finish (ledger cookies auth c) ∅ es) :=
    invariant (fun _ _ _ hrecords hadm => hrecords.step hadm) (records_nil cookies auth) h
  have htold : told cookies auth c digest es =
      entries cookies auth (transcript (ledger cookies auth c) ∅ es) := by
    rw [told, transcript_eq_zip, transcript_eq_zip, hanswers]
  rw [htold]
  refine ⟨fun request now hnow => ?_, fun principal token created hmem => ?_⟩
  · have hadm : Admissible es (.verify request now) :=
      ⟨hnow, le_rfl, by simp [Event.token], by simp [Event.token]⟩
    refine ⟨_, (hkeeps.verify hadm).1, fun principal => ?_⟩
    by_cases htls : (auth.requireTls && !request.secure) = true
    · simp only [Bool.and_eq_true, Bool.not_eq_true'] at htls
      simp [htls]
    · have hsecure : auth.requireTls = true → request.secure = true := by simpa using htls
      simp only [if_neg htls]
      rw [Option.map_eq_some_iff]
      constructor
      · rintro ⟨g, hg, rfl⟩
        obtain ⟨token, htoken, hg⟩ := Option.bind_eq_some_iff.mp hg
        obtain ⟨hlookup, hlive⟩ := Option.filter_eq_some_iff.mp hg
        refine ⟨hsecure, token, g.created, htoken, (hrecords.stands ..).mp hlookup, ?_⟩
        simpa only [Grant.live, decide_eq_true_eq] using hlive
      · rintro ⟨-, token, created, htoken, hstands, hlive⟩
        refine ⟨⟨principal, created⟩, Option.bind_eq_some_iff.mpr ⟨token, htoken, ?_⟩, rfl⟩
        refine Option.filter_eq_some_iff.mpr ⟨(hrecords.stands ..).mpr hstands, ?_⟩
        simpa only [Grant.live, decide_eq_true_eq] using hlive
  · have haccepted := hrecords.accepted principal token created hmem
    rwa [transcript_events] at haccepted

end

theorem verified_iff_visit :
    (serve lastCookie sessionAuth config sampleDigest (.verify (showing secondToken) 4)
      (finish (serve lastCookie sessionAuth config sampleDigest) empty visit)).2 =
        .verify (.ok (some "ann")) ∧ Accepted sessionAuth visit "ann" firstToken 0 := by
  have htold : told lastCookie sessionAuth config sampleDigest visit =
      [.loggedIn "ann" firstToken 0, .rotated firstToken secondToken] := by
    decide +kernel
  have hshown : sessionAuth.sessionId lastCookie (showing secondToken) = some secondToken := by
    decide +kernel
  have hnow : ∀ e ∈ visit, e.later ≤ 4 := by simp [visit, Event.later]
  obtain ⟨hverify, haccepted⟩ := verified_iff lastCookie sessionAuth config
    sampleDigest_injective visit history_visit
  obtain ⟨found, heq, hfound⟩ := hverify (showing secondToken) 4 hnow
  rw [htold] at hfound haccepted
  have hstands : Stands [.loggedIn "ann" firstToken 0, .rotated firstToken secondToken]
      "ann" 0 secondToken :=
    ⟨[], firstToken, [.rotated firstToken secondToken], rfl, congrArg some (if_pos rfl)⟩
  have hann := (hfound "ann").mpr ⟨fun _ => rfl, secondToken, 0, hshown, hstands, by decide⟩
  exact ⟨hann ▸ heq, haccepted "ann" firstToken 0 (List.mem_cons_self ..)⟩

end WireRpc.CookieSessions
