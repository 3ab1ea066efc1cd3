import WireRpc.MemorySessions
import Mathlib.Data.String.Basic

/-!
# Logging out with a session cookie

`CookieSessionAuth.logout` destroys the session that `_session_id` selects. A request that shows
the cookie more than once selects none, and is answered as if its sessions had been destroyed.
What `request.cookies` makes of the headers is the web framework's, and a parameter.
-/
namespace WireRpc.CookieLogout
open Library Sessions

structure Request where
  secure : Bool
  cookieHeaders : List String

structure CookieSessionAuth where
  cookieName : String
  requireTls : Bool

/-- A response, and whether it deletes the cookie. -/
structure Response where
  status : ℕ
  body : List (String × Json)
  clears : Bool

/-- What `str.strip` takes away. -/
def isSpace (c : Char) : Bool :=
  let n := c.toNat
  (0x09 ≤ n && n ≤ 0x0d) || (0x1c ≤ n && n ≤ 0x20) || n == 0x85 || n == 0xa0 || n == 0x1680 ||
    (0x2000 ≤ n && n ≤ 0x200a) || n == 0x2028 || n == 0x2029 || n == 0x202f || n == 0x205f ||
    n == 0x3000

def strip (text : List Char) : List Char :=
  ((text.dropWhile isSpace).reverse.dropWhile isSpace).reverse

/-- `partition('=')`, for a part that has the separator. -/
def partition (part : List Char) : Option (String × String) :=
  if '=' ∈ part then
    some (String.ofList (part.takeWhile (· ≠ '=')), String.ofList (part.dropWhile (· ≠ '=')).tail)
  else none

/-- The names and the values in the `Cookie` headers. -/
def cookiePairs (request : Request) : List (String × String) :=
  request.cookieHeaders.flatMap fun header =>
    (header.toList.splitOn ';').filterMap fun part => partition (strip part)

namespace CookieSessionAuth

/-- The values under the name of the session cookie. -/
def values (auth : CookieSessionAuth) (request : Request) : List String :=
  ((cookiePairs request).filter fun pair => pair.1 == auth.cookieName).map Prod.snd

variable (cookies : Request → String → Option String)

/-- `_session_id`, where `cookies` is `request.cookies.get`. -/
def sessionId (auth : CookieSessionAuth) (request : Request) : Option String :=
  let occurrences := (cookiePairs request).countP fun pair => pair.1 == auth.cookieName
  if occurrences > 1 then none else cookies request auth.cookieName

end CookieSessionAuth

def tlsRequired : Response := ⟨403, [("ok", .bool false), ("error", .str "TLS required")], false⟩

def unavailable : Response :=
  ⟨503, [("ok", .bool false), ("error", .str "Authentication unavailable")], false⟩

def loggedOut : Response := ⟨200, [("ok", .bool true)], true⟩

/-- `CookieSessionAuth.logout`. Only `AuthUnavailableError` is caught. -/
def logout {σ κ : Type} (cookies : Request → String → Option String) (auth : CookieSessionAuth)
    (execute : Execute σ κ) (digest : String → κ) (request : Request) (s : σ) :
    σ × Except SessionError Response :=
  if auth.requireTls && !request.secure then (s, .ok tlsRequired)
  else
    match auth.sessionId cookies request with
    | none => (s, .ok loggedOut)
    | some sessionId =>
      if sessionId = "" then (s, .ok loggedOut)
      else
        match destroy execute digest sessionId s with
        | (s, .ok ()) => (s, .ok loggedOut)
        | (s, .error .value) => (s, .error .value)
        | (s, .error _) => (s, .ok unavailable)

section
variable {σ κ : Type} (execute later : Execute σ κ) (digest : String → κ)

/-- What `destroy` promises in a state, as the calls of `later` see it: the session is gone, and
every other is as it was. -/
structure Honours (s : σ) : Prop where
  ended : ∀ key s' reply, execute (.destroy key) s = (s', .ok reply) →
    ∀ value, (later (.get key) s').2 ≠ .ok (.found (some value))
  others : ∀ key s' reply, execute (.destroy key) s = (s', .ok reply) →
    ∀ other, other ≠ key → (later (.get other) s').2 = (later (.get other) s).2

def Validates (sessionId : String) (s : σ) : Prop :=
  ∃ principal, (validate later digest sessionId s).2 = .ok (some principal)

/-- Of the values shown none validates any more, and the session of every other key answers as
before. -/
structure Ends (shown : List String) (s s' : σ) : Prop where
  ended : ∀ sessionId ∈ shown, ¬ Validates later digest sessionId s'
  others : ∀ sessionId, digest sessionId ∉ shown.map digest →
    (validate later digest sessionId s').2 = (validate later digest sessionId s).2

end

section
variable {σ κ : Type} {execute later : Execute σ κ} {digest : String → κ} {s s' : σ}
  {sessionId : String}

/-- Only a token of the right shape that the backend finds validates. -/
theorem Validates.found (h : Validates later digest sessionId s) :
    valid sessionId = true ∧
      ∃ value, (later (.get (digest sessionId)) s).2 = .ok (.found (some value)) := by
  obtain ⟨principal, hprincipal⟩ := h
  unfold Sessions.validate Sessions.get at hprincipal
  split at hprincipal
  · cases hprincipal
  case isFalse hvalid =>
    refine ⟨Bool.of_not_eq_false hvalid, ?_⟩
    split at hprincipal
    case h_1 t value heq =>
      exact ⟨value, congrArg Prod.snd heq⟩
    case h_2 => cases hprincipal
    case h_3 => cases hprincipal

theorem not_validates_empty : ¬ Validates later digest "" s :=
  fun h => absurd h.found.1 (by decide)

/-- What a token validates to depends on what the backend answers for its digest. -/
theorem validate_congr
    (h : valid sessionId = true →
      (later (.get (digest sessionId)) s').2 = (later (.get (digest sessionId)) s).2) :
    (validate later digest sessionId s').2 = (validate later digest sessionId s).2 := by
  unfold Sessions.validate Sessions.get
  cases hvalid : valid sessionId with
  | false => rfl
  | true =>
    have hsame := h hvalid
    rcases hbefore : later (.get (digest sessionId)) s with ⟨t, answer⟩
    rcases hafter : later (.get (digest sessionId)) s' with ⟨t', answer'⟩
    rw [hbefore, hafter] at hsame
    obtain rfl : answer' = answer := hsame
    cases answer' with
    | error e => rfl
    | ok reply =>
      cases reply with
      | found value =>
        cases value with
        | none => rfl
        | some value => cases hloads : loads value <;> simp [hloads]
      | _ => rfl

theorem destroy_ends (h : Honours execute later s)
    (hdestroy : destroy execute digest sessionId s = (s', .ok ())) :
    Ends later digest [sessionId] s s' := by
  unfold Sessions.destroy at hdestroy
  split at hdestroy
  case isTrue hvalid =>
    obtain ⟨rfl, -⟩ := Prod.mk.inj hdestroy
    constructor
    · intro id hid hvalidates
      obtain rfl := List.mem_singleton.mp hid
      rw [hvalidates.found.1] at hvalid
      cases hvalid
    · exact fun _ _ => rfl
  case isFalse hvalid =>
    rcases hran : execute (.destroy (digest sessionId)) s with ⟨t, reply⟩
    rw [hran] at hdestroy
    obtain ⟨rfl, hreply⟩ := Prod.mk.inj hdestroy
    cases reply with
    | error e => cases hreply
    | ok reply =>
      constructor
      · intro id hid hvalidates
        obtain rfl := List.mem_singleton.mp hid
        obtain ⟨-, value, hvalue⟩ := hvalidates.found
        exact h.ended _ _ _ hran value hvalue
      · intro id hid
        apply validate_congr
        intro _
        apply h.others _ _ _ hran
        exact fun heq => hid (List.mem_singleton.mpr heq)

end

/-- The store in memory keeps the promise, for calls that come later. -/
theorem honours_memory {T κ : Type} [LinearOrder T] [Add T] [LinearOrder κ]
    (c : MemorySessions.Config T) {now end' next last : T} (hle : now ≤ end') (hnext : end' ≤ next)
    {s : MemorySessions.Store T κ} (h : MemorySessions.Indexed s) :
    Honours (MemorySessions.execute c now end') (MemorySessions.execute c next last) s := by
  constructor
  · intro key s' reply hran value
    obtain ⟨t, hdestroy, hindexed, -, hlookup⟩ := MemorySessions.destroy_spec c hle key h
    obtain ⟨rfl, -⟩ := Prod.mk.inj (hdestroy.symm.trans hran)
    rw [MemorySessions.get_eq c next last key hindexed, hlookup, if_pos rfl]
    simp
  · intro key s' reply hran other hother
    obtain ⟨t, hdestroy, hindexed, -, hlookup⟩ := MemorySessions.destroy_spec c hle key h
    obtain ⟨rfl, -⟩ := Prod.mk.inj (hdestroy.symm.trans hran)
    rw [MemorySessions.get_eq c next last other hindexed, MemorySessions.get_eq c next last other h,
      hlookup, if_neg hother, MemorySessions.filter_live hnext]

/-- The values shown under the name of the session cookie, as the framework reads them. -/
def shown (unquote : String → String) (auth : CookieSessionAuth) (request : Request) :
    List String := (auth.values request).map unquote

/-- `request.cookies` has one of the values shown, if there is one. -/
def ReadsShown (unquote : String → String) (cookies : Request → String → Option String)
    (auth : CookieSessionAuth) (request : Request) : Prop :=
  match cookies request auth.cookieName with
  | some value => value ∈ shown unquote auth request
  | none => shown unquote auth request = []

section
variable {σ κ : Type} {execute later : Execute σ κ} {digest : String → κ} {s s' : σ}
  {unquote : String → String} {cookies : Request → String → Option String}
  {auth : CookieSessionAuth} {request : Request} {response : Response}

/-- Where no value shown validates there is nothing to end. -/
theorem ends_of_invalid {ids : List String} (h : ∀ id ∈ ids, ¬ Validates later digest id s) :
    Ends later digest ids s s := ⟨h, fun _ _ => rfl⟩

theorem sessionId_eq : auth.sessionId cookies request =
    if (auth.values request).length > 1 then none else cookies request auth.cookieName := by
  unfold CookieSessionAuth.sessionId CookieSessionAuth.values
  rw [List.length_map, List.countP_eq_length_filter]

/-- An ambiguous request destroys nothing, and is told that it has. -/
theorem logout_ambiguous (htls : ¬ (auth.requireTls = true ∧ request.secure = false))
    (h : (auth.values request).length > 1) :
    logout cookies auth execute digest request s = (s, .ok loggedOut) := by
  have hsecure : (auth.requireTls && !request.secure) = false := by
    simpa using htls
  unfold logout
  rw [hsecure, sessionId_eq, if_pos h]
  rfl

/-- With at most one cookie of the name the session shown is destroyed. -/
theorem logout_single (hstore : Honours execute later s)
    (hcookies : ReadsShown unquote cookies auth request)
    (h : (auth.values request).length ≤ 1)
    (hlogout : logout cookies auth execute digest request s = (s', .ok response))
    (hstatus : response.status = 200) : Ends later digest (shown unquote auth request) s s' := by
  have hlength : (shown unquote auth request).length ≤ 1 := by
    rw [shown, List.length_map]
    exact h
  unfold ReadsShown at hcookies
  unfold logout at hlogout
  split_ifs at hlogout with htls
  · obtain ⟨-, hresponse⟩ := Prod.mk.inj hlogout
    obtain rfl := Except.ok.inj hresponse
    cases hstatus
  · rw [sessionId_eq, if_neg (by omega)] at hlogout
    cases hcookie : cookies request auth.cookieName with
    | none =>
      simp only [hcookie] at hlogout hcookies
      obtain ⟨rfl, -⟩ := Prod.mk.inj hlogout
      rw [hcookies]
      exact ends_of_invalid fun id hid => nomatch hid
    | some id =>
      simp only [hcookie] at hlogout hcookies
      obtain ⟨other, hother⟩ : ∃ other, shown unquote auth request = [other] :=
        List.length_eq_one_iff.mp (le_antisymm hlength (List.length_pos_of_mem hcookies))
      rw [hother] at hcookies ⊢
      obtain rfl := List.mem_singleton.mp hcookies
      split_ifs at hlogout with hempty
      · obtain ⟨rfl, -⟩ := Prod.mk.inj hlogout
        apply ends_of_invalid
        intro other hmem
        rw [List.mem_singleton.mp hmem, hempty]
        exact not_validates_empty
      · split at hlogout
        case h_1 t hdestroy =>
          obtain ⟨rfl, -⟩ := Prod.mk.inj hlogout
          exact destroy_ends hstore hdestroy
        case h_2 => cases (Prod.mk.inj hlogout).2
        case h_3 =>
          obtain rfl := Except.ok.inj (Prod.mk.inj hlogout).2
          cases hstatus

/-- A successful logout ends the sessions that the request shows exactly when the request is
refused for want of TLS, shows the cookie at most once, or shows no value that validates. -/
theorem logout_ends_iff (hstore : Honours execute later s)
    (hcookies : ReadsShown unquote cookies auth request) :
    (∀ s' response, logout cookies auth execute digest request s = (s', .ok response) →
      response.status = 200 → Ends later digest (shown unquote auth request) s s') ↔
    (auth.requireTls = true ∧ request.secure = false) ∨ (auth.values request).length ≤ 1 ∨
      ∀ id ∈ shown unquote auth request, ¬ Validates later digest id s := by
  by_cases htls : auth.requireTls = true ∧ request.secure = false
  · refine iff_of_true (fun s' response hlogout hstatus => ?_) (.inl htls)
    have hrefused : logout cookies auth execute digest request s = (s, .ok tlsRequired) := by
      unfold logout
      simp [htls]
    obtain rfl := Except.ok.inj (Prod.mk.inj (hrefused.symm.trans hlogout)).2
    cases hstatus
  · rw [or_iff_right htls]
    by_cases hsingle : (auth.values request).length ≤ 1
    · refine iff_of_true (fun s' response hlogout hstatus => ?_) (.inl hsingle)
      exact logout_single hstore hcookies hsingle hlogout hstatus
    · rw [or_iff_right hsingle]
      have hambiguous : logout cookies auth execute digest request s = (s, .ok loggedOut) :=
        logout_ambiguous htls (not_le.mp hsingle)
      constructor
      · intro h
        exact (h s loggedOut hambiguous rfl).ended
      · intro hinvalid s' response hlogout _
        obtain ⟨rfl, -⟩ := Prod.mk.inj (hambiguous.symm.trans hlogout)
        exact ends_of_invalid hinvalid

end

def aliceToken : String := "aaaaaaaaaaaaaaaaaaaaaaaaaaaaaaaaaaaaaaaaaaa"

def alice : SessionRecord := ⟨"alice", []⟩

/-- Alice's session in the store in memory. -/
def oneSession : MemorySessions.Store ℕ String :=
  ⟨AList.insert aliceToken (alice.dumps, 100) ∅, [toLex (100, aliceToken)]⟩

def memory (now : ℕ) : Execute (MemorySessions.Store ℕ String) String :=
  MemorySessions.execute ⟨100, 10, by decide⟩ now now

def sessionAuth : CookieSessionAuth := ⟨"session", true⟩

/-- The last cookie of the name. -/
def lastCookie (request : Request) (name : String) : Option String :=
  (((cookiePairs request).filter fun pair => pair.1 == name).map Prod.snd).getLast?

theorem indexed_oneSession : MemorySessions.Indexed oneSession where
  sorted := List.pairwise_singleton _ _
  covered key value expiry h := by
    by_cases hkey : key = aliceToken
    · subst hkey
      cases (AList.lookup_insert ∅).symm.trans h
      exact List.mem_singleton_self _
    · cases (AList.lookup_insert_ne hkey).symm.trans h

theorem validates_alice : Validates (memory 6) id aliceToken oneSession := by
  have hget : (memory 6 (.get aliceToken) oneSession).2 = .ok (.found (some alice.dumps)) := by
    unfold memory
    rw [MemorySessions.get_eq _ _ _ _ indexed_oneSession]
    have hlookup : oneSession.sessions.lookup aliceToken = some (alice.dumps, 100) :=
      AList.lookup_insert ∅
    rw [hlookup]
    rfl
  refine ⟨"alice", ?_⟩
  have hloads : loads alice.dumps = some alice := loads_dumps (by decide)
  have hvalid : valid aliceToken = true := by decide
  unfold Sessions.validate Sessions.get
  rw [hvalid]
  rcases hran : memory 6 (.get aliceToken) oneSession with ⟨t, reply⟩
  rw [hran] at hget
  obtain rfl : reply = .ok (.found (some alice.dumps)) := hget
  simp only [id, hran, hloads]
  rfl

/-- A cookie of another origin stands beside that of the session. -/
def twice : Request := ⟨true, ["session=" ++ aliceToken ++ "; session=other"]⟩

theorem session_survives_logout :
    ReadsShown id lastCookie sessionAuth twice ∧
      logout lastCookie sessionAuth (memory 5) id twice oneSession = (oneSession, .ok loggedOut) ∧
      ¬ Ends (memory 6) id (shown id sessionAuth twice) oneSession oneSession := by
  have hvalues : sessionAuth.values twice = [aliceToken, "other"] := by decide +kernel
  refine ⟨?_, ?_, fun h => ?_⟩
  · unfold ReadsShown
    have hcookie : lastCookie twice sessionAuth.cookieName = some "other" := by decide +kernel
    simp [hcookie, shown, hvalues]
  · apply logout_ambiguous
    · decide
    · rw [hvalues]
      decide
  · apply h.ended aliceToken _ validates_alice
    simp [shown, hvalues]

def once : Request := ⟨true, ["session=" ++ aliceToken]⟩

theorem logout_ends_iff_once : ∃ s',
    logout lastCookie sessionAuth (memory 5) id once oneSession = (s', .ok loggedOut) ∧
      Ends (memory 6) id (shown id sessionAuth once) oneSession s' := by
  have hvalues : sessionAuth.values once = [aliceToken] := by decide +kernel
  have hcookie : lastCookie once sessionAuth.cookieName = some aliceToken := by decide +kernel
  obtain ⟨s', hdestroy, -⟩ := MemorySessions.destroy_spec ⟨100, 10, by decide⟩ (le_refl 5)
    aliceToken indexed_oneSession
  have hlogout : logout lastCookie sessionAuth (memory 5) id once oneSession =
      (s', .ok loggedOut) := by
    have hsession : sessionAuth.sessionId lastCookie once = some aliceToken := by
      rw [sessionId_eq, hvalues]
      exact hcookie
    have hended : destroy (memory 5) id aliceToken oneSession = (s', .ok ()) := by
      have hran : memory 5 (.destroy (id aliceToken)) oneSession = (s', .ok .done) := hdestroy
      unfold Sessions.destroy
      rw [if_neg (by decide), hran]
      rfl
    unfold logout
    rw [if_neg (by decide), hsession]
    simp only [hended]
    exact if_neg (by decide)
  refine ⟨s', hlogout, ?_⟩
  refine (logout_ends_iff (honours_memory ⟨100, 10, by decide⟩ (le_refl 5)
    (by decide : 5 ≤ 6) indexed_oneSession) ?_).mpr (.inr (.inl ?_)) s' loggedOut hlogout rfl
  · unfold ReadsShown
    simp [hcookie, shown, hvalues]
  · rw [hvalues]
    exact le_rfl

end WireRpc.CookieLogout
