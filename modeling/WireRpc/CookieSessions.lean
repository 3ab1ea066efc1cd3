import WireRpc.CookieLogout
import WireRpc.IssuedKeys
import WireRpc.SessionLineage
import WireRpc.Library.Simulation

/-!
# Browser logins

`CookieSessionAuth` over a store in memory, which never suspends: a login takes effect when it
creates its session. Logins, checks of requests and logouts come in any order, and between
them the calls that handlers make of the store. What all of them answer is what a ledger of
the logins says, which knows no digests, no texts of records, no heap and no pruning.
-/
namespace WireRpc.CookieSessions
open Library Sessions MemorySessions CookieLogout Answering
open Credentials (AuthError tokenText)

/-- What the constructor accepts. -/
structure Auth extends CookieSessionAuth where
  secure : Bool
  maxAge : ℕ
  positive : 0 < maxAge

/-- What `set_cookie` is called with. -/
structure Cookie where
  name : String
  value : String
  httponly : Bool
  samesite : String
  secure : Bool
  maxAge : ℕ

structure LoginResponse where
  status : ℕ
  body : List (String × Json)
  cookie : Option Cookie

def refused (status : ℕ) (error : String) : LoginResponse :=
  ⟨status, [("ok", .bool false), ("error", .str error)], none⟩

def welcome (auth : Auth) (userId sessionId : String) : LoginResponse where
  status := 200
  body := [("ok", .bool true), ("user_id", .str userId)]
  cookie := some ⟨auth.cookieName, sessionId, true, "Strict", auth.secure, auth.maxAge⟩

/-- The answer of a validator for the fields of a body. -/
abbrev CredentialValidator := List (String × Json) → Except AuthError (Option String)

/-- `validated`, for the validator of a login. -/
def validated (validate : CredentialValidator) (fields : List (String × Json)) :
    Except AuthError (Option String) :=
  Credentials.validated (fun _ => validate fields) ""

section
variable {σ κ : Type} (cookies : Request → String → Option String) (auth : Auth)
  (execute : Execute σ κ) (digest : String → κ)

/-- `CookieSessionAuth.login`. The body is `none` where it is no JSON. -/
def login (request : Request) (body : Option Json) (validate : CredentialValidator)
    (token : String) (s : σ) : σ × Except SessionError LoginResponse :=
  if auth.requireTls && !request.secure then (s, .ok (refused 403 "TLS required"))
  else
    match body with
    | some (.obj fields) =>
      match validated validate fields with
      | .error _ => (s, .ok (refused 503 "Authentication unavailable"))
      | .ok none => (s, .ok (refused 401 "Invalid credentials"))
      | .ok (some userId) =>
        match create execute digest userId [] token s with
        | (s, .ok sessionId) => (s, .ok (welcome auth userId sessionId))
        -- only `AuthUnavailableError` is caught
        | (s, .error .value) => (s, .error .value)
        | (s, .error _) => (s, .ok (refused 503 "Session capacity unavailable"))
    | _ => (s, .ok (refused 400 "Invalid request body"))

/-- `CookieSessionAuth.verify`. -/
def verify (request : Request) (s : σ) : σ × Except SessionError (Option String) :=
  if auth.requireTls && !request.secure then (s, .ok none)
  else
    match auth.sessionId cookies request with
    | none => (s, .ok none)
    | some sessionId =>
      if !tokenText sessionId 4096 then (s, .ok none)
      else
        match validate execute digest sessionId s with
        | (s, .ok none) => (s, .ok none)
        | (s, .ok (some principal)) =>
          (s, if identity principal then .ok (some principal) else .error .unavailable)
        | (s, .error .value) => (s, .error .unavailable)
        | (s, .error e) => (s, .error e)

end

/-- A call reads the clock at `now`, and at `later` if it reads it again. `token` is what
`secrets` gives out. -/
inductive Event (T : Type) where
  | login (request : Request) (body : Option Json) (validate : CredentialValidator)
      (token : String) (now later : T)
  | verify (request : Request) (now : T)
  | logout (request : Request) (now later : T)
  | destroy (sessionId : String) (now later : T)
  | rotate (sessionId token : String) (now later : T)
  | revokeAll (userId : String) (now later : T)

inductive Answer where
  | login (r : Except SessionError LoginResponse)
  | verify (r : Except SessionError (Option String))
  | logout (r : Except SessionError Response)
  | destroy (r : Except SessionError Unit)
  | rotate (r : Except SessionError (Option String))
  | revokeAll (r : Except SessionError ℕ)

namespace Event
variable {T : Type}

def now : Event T → T
  | .login _ _ _ _ now _ => now
  | .verify _ now => now
  | .logout _ now _ => now
  | .destroy _ now _ => now
  | .rotate _ _ now _ => now
  | .revokeAll _ now _ => now

def later : Event T → T
  | .login _ _ _ _ _ later => later
  | .verify _ now => now
  | .logout _ _ later => later
  | .destroy _ _ later => later
  | .rotate _ _ _ later => later
  | .revokeAll _ _ later => later

def token : Event T → Option String
  | .login _ _ _ token _ _ => some token
  | .rotate _ token _ _ => some token
  | _ => none

end Event

section
variable {T κ : Type} [LinearOrder T] [Add T] [LinearOrder κ]

/-- The authenticator and its store. -/
def serve (cookies : Request → String → Option String) (auth : Auth) (c : Config T)
    (digest : String → κ) : Answering (Store T κ) (Event T) Answer
  | .login request body validate token now later, s =>
    (login auth (execute c now later) digest request body validate token s).map id .login
  | .verify request now, s =>
    (verify cookies auth (execute c now now) digest request s).map id .verify
  | .logout request now later, s =>
    (logout cookies auth.toCookieSessionAuth (execute c now later) digest request s).map id .logout
  | .destroy sessionId now later, s =>
    (destroy (execute c now later) digest sessionId s).map id .destroy
  | .rotate sessionId token now later, s =>
    (rotate (execute c now later) digest sessionId token s).map id .rotate
  | .revokeAll userId now later, s =>
    (revokeAll (execute c now later) userId s).map id .revokeAll

/-- The clock does not go back, and a new token is one that `secrets` has not given out. -/
structure Admissible (past : List (Event T)) (e : Event T) : Prop where
  clock : ∀ earlier ∈ past, earlier.later ≤ e.now
  lasts : e.now ≤ e.later
  shaped : ∀ token, e.token = some token → valid token = true
  fresh : ∀ token, e.token = some token → ∀ earlier ∈ past, earlier.token ≠ some token

def History (es : List (Event T)) : Prop := AtEach (fun past e _ => Admissible past e) es

end

/-- A session: for whom, and since when. -/
structure Grant (T : Type) where
  principal : String
  created : T
  deriving DecidableEq

/-- The sessions under their tokens. Those that have expired may be among them. -/
abbrev Ledger (T : Type) := Table String (Grant T)

section
variable {T : Type} [LinearOrder T] [Add T] (cookies : Request → String → Option String)
  (auth : Auth) (c : Config T)

def Grant.live (now : T) (g : Grant T) : Bool := now < g.created + c.ttl

def current (now : T) (m : Ledger T) (token : String) : Option (Grant T) :=
  (m.lookup token).filter (Grant.live c now)

/-- What the ledger says. -/
def ledger : Answering (Ledger T) (Event T) Answer
  | .login request body validate token now later, m =>
    if auth.requireTls && !request.secure then (m, .login (.ok (refused 403 "TLS required")))
    else
      match body with
      | some (.obj fields) =>
        match validated validate fields with
        | .error _ => (m, .login (.ok (refused 503 "Authentication unavailable")))
        | .ok none => (m, .login (.ok (refused 401 "Invalid credentials")))
        | .ok (some userId) =>
          if Table.count (fun _ => Grant.live c now) m < c.maxSessions then
            (m.insert token ⟨userId, later⟩, .login (.ok (welcome auth userId token)))
          else (m, .login (.ok (refused 503 "Session capacity unavailable")))
      | _ => (m, .login (.ok (refused 400 "Invalid request body")))
  | .verify request now, m =>
    let shown := if auth.requireTls && !request.secure then none
      else auth.sessionId cookies request
    (m, .verify (.ok ((shown.bind (current c now m)).map Grant.principal)))
  | .logout request _ _, m =>
    if auth.requireTls && !request.secure then (m, .logout (.ok tlsRequired))
    else
      match auth.sessionId cookies request with
      | some sessionId => (m.erase sessionId, .logout (.ok loggedOut))
      | none => (m, .logout (.ok loggedOut))
  | .destroy sessionId _ _, m => (m.erase sessionId, .destroy (.ok ()))
  | .rotate sessionId token now _, m =>
    match current c now m sessionId with
    | some g => ((m.erase sessionId).insert token g, .rotate (.ok (some token)))
    | none => (m, .rotate (.ok none))
  | .revokeAll userId now _, m =>
    if identity userId then
      (Table.keep (fun _ g => g.principal != userId) m, .revokeAll (.ok
        (Table.count (fun _ g => g.principal == userId && g.live c now) m)))
    else (m, .revokeAll (.error .value))

end

section
variable {T : Type} [LinearOrder T] [Add T] {c : Config T}

def Grant.stored (c : Config T) (g : Grant T) : Bytes × T :=
  ((SessionRecord.mk g.principal []).dumps, g.created + c.ttl)

theorem live_stored (now : T) (g : Grant T) : live now (g.stored c) = g.live c now := rfl

theorem filter_stored (now : T) (o : Option (Grant T)) :
    (o.map (Grant.stored c)).filter (live now) = (o.filter (Grant.live c now)).map
      (Grant.stored c) := by
  cases o with
  | none => rfl
  | some g => by_cases hg : g.live c now = true <;> simp [Option.filter_some, live_stored, hg]

omit [LinearOrder T] in
theorem belongsTo_stored (userId : String) (g : Grant T) :
    belongsTo userId (g.stored c) = (g.principal == userId) := by
  simp [belongsTo, Grant.stored, principalOf_dumps]

theorem toNat_of_isAlphanum {ch : Char} (h : ch.isAlphanum = true) :
    0x30 ≤ ch.toNat ∧ ch.toNat ≤ 0x7a := by
  have hcases : (decide ('A'.val ≤ ch.val ∧ ch.val ≤ 'Z'.val) ||
      (decide ('a'.val ≤ ch.val) && decide (ch.val ≤ 'z'.val)) ||
      (decide ('0'.val ≤ ch.val) && decide (ch.val ≤ '9'.val))) = true := h
  simp only [Bool.or_eq_true, Bool.and_eq_true, decide_eq_true_eq,
    UInt32.le_iff_toNat_le] at hcases
  have hval : ch.val.toNat = ch.toNat := rfl
  have hupper : 'A'.val.toNat = 65 ∧ 'Z'.val.toNat = 90 := ⟨rfl, rfl⟩
  have hlower : 'a'.val.toNat = 97 ∧ 'z'.val.toNat = 122 := ⟨rfl, rfl⟩
  have hdigit : '0'.val.toNat = 48 ∧ '9'.val.toNat = 57 := ⟨rfl, rfl⟩
  omega

theorem tokenText_of_valid {token : String} (h : valid token = true) :
    tokenText token 4096 = true := by
  simp only [valid, Bool.and_eq_true, beq_iff_eq, List.all_eq_true, Bool.or_eq_true] at h
  obtain ⟨hlength, hchars⟩ := h
  rw [Credentials.tokenText_eq_true]
  refine ⟨by omega, by omega, fun ch hch => ?_⟩
  obtain (halphanum | rfl) | rfl := hchars ch hch
  · have hrange := toNat_of_isAlphanum halphanum
    omega
  · decide
  · decide

theorem sum_asciiWidth_le (text : List Char) : (text.map asciiWidth).sum ≤ 12 * text.length := by
  have hwidth : ∀ n ∈ text.map asciiWidth, n ≤ 12 := by
    intro n hn
    obtain ⟨ch, -, rfl⟩ := List.mem_map.mp hn
    unfold asciiWidth
    split_ifs <;> omega
  have hsum := List.sum_le_card_nsmul _ 12 hwidth
  rwa [List.length_map, smul_eq_mul, mul_comm] at hsum

/-- What is no control character has a short escape or none. -/
theorem length_escape_le {ch : Char} (h : 33 ≤ ch.toNat) : (Json.escape ch).length ≤ 2 := by
  unfold Json.escape
  split
  · exact le_rfl
  · rw [if_neg (by omega)]
    exact one_le_two

theorem length_print_record (userId : String) :
    (Json.print (SessionRecord.mk userId []).toJson).length =
      (userId.toList.flatMap Json.escape).length + 29 := by
  have hfields : Json.print (SessionRecord.mk userId []).toJson = Json.between '{' '}'
      [Json.printStr "principal" ++ ':' :: Json.printStr userId,
        Json.printStr "payload" ++ ':' :: Json.between '{' '}' []] := rfl
  have hprincipal : ("principal".toList.flatMap Json.escape).length = 9 := rfl
  have hpayload : ("payload".toList.flatMap Json.escape).length = 7 := rfl
  rw [hfields, Json.between, List.intercalate]
  have hend : (Json.between '{' '}' []).length = 2 := rfl
  simp only [List.intersperse, List.flatten_cons, List.flatten_nil, List.length_append,
    List.length_cons, List.length_nil, Json.printStr, hprincipal, hpayload, hend]
  omega

/-- The record of a session without a payload is never too long. -/
theorem acceptable {userId : String} (h : identity userId = true) :
    SessionLineage.Acceptable userId [] := by
  refine ⟨h, ?_⟩
  simp only [identity, Bool.and_eq_true, decide_eq_true_eq, List.all_eq_true] at h
  obtain ⟨⟨-, hlength⟩, hchars⟩ := h
  have hescaped : (userId.toList.flatMap Json.escape).length ≤ 2 * userId.length := by
    have hsum := List.sum_le_card_nsmul (userId.toList.map fun ch => (Json.escape ch).length) 2
      (by simpa using fun ch hch => length_escape_le (hchars ch hch).1)
    rw [List.length_flatMap]
    rwa [List.length_map, String.length_toList, smul_eq_mul, mul_comm] at hsum
  have hprint : (Json.print (SessionRecord.mk userId []).toJson).length ≤ 2 * 255 + 40 := by
    rw [length_print_record]
    omega
  have hsum := sum_asciiWidth_le (Json.print (SessionRecord.mk userId []).toJson)
  unfold SessionRecord.length
  omega

variable {m : Ledger T}

theorem current_erase (now : T) (m : Ledger T) (old token : String) :
    current c now (m.erase old) token = if token = old then none else current c now m token := by
  unfold current
  split_ifs with h
  · subst h
    rw [AList.lookup_erase]
    rfl
  · rw [AList.lookup_erase_ne h]

theorem current_insert (now : T) (m : Ledger T) (new token : String) (g : Grant T) :
    current c now (m.insert new g) token =
      if token = new then (some g).filter (Grant.live c now) else current c now m token := by
  unfold current
  split_ifs with h
  · subst h
    rw [AList.lookup_insert]
  · rw [AList.lookup_insert_ne h]

end

section
variable {T κ : Type} [LinearOrder T] [Add T] [LinearOrder κ]

/-- From now on the sessions that are alive are those of the ledger, each under the digest of
its token. -/
structure Keeps (c : Config T) (digest : String → κ) (past : List (Event T)) (s : Store T κ)
    (m : Ledger T) : Prop where
  store : Indexed s
  same : ∀ now, (∀ e ∈ past, e.later ≤ now) → ∀ token,
    (s.sessions.lookup (digest token)).filter (live now) =
      (current c now m token).map (Grant.stored c)
  named : ∀ key e, s.sessions.lookup key = some e → ∃ token, digest token = key
  issued : ∀ token g, m.lookup token = some g → ∃ e ∈ past, e.token = some token
  shaped : ∀ token g, m.lookup token = some g → valid token = true
  identified : ∀ token g, m.lookup token = some g → identity g.principal = true

theorem keeps_empty (c : Config T) (digest : String → κ) : Keeps c digest [] empty ∅ where
  store := indexed_empty
  same _ _ _ := rfl
  named _ _ h := nomatch h
  issued _ _ h := nomatch h
  shaped _ _ h := nomatch h
  identified _ _ h := nomatch h

variable {c : Config T} {digest : String → κ} {past : List (Event T)} {e : Event T}
  {s s' : Store T κ} {m m' : Ledger T} {now later : T}

theorem mem_current {token : String} {g : Grant T} (h : current c now m token = some g) :
    m.lookup token = some g := (Option.filter_eq_some_iff.mp h).1

/-- The old entries are as they were, or gone. -/
theorem Keeps.next (h : Keeps c digest past s m) (hadm : Admissible past e) (hstore : Indexed s')
    (hsame : ∀ now, e.later ≤ now → (∀ earlier ∈ past, earlier.later ≤ now) → ∀ token,
      (s'.sessions.lookup (digest token)).filter (live now) =
        (current c now m' token).map (Grant.stored c))
    (hnamed : ∀ key x, s'.sessions.lookup key = some x →
      (∃ token, digest token = key) ∨ ∃ x', s.sessions.lookup key = some x')
    (hknown : ∀ token g, m'.lookup token = some g →
      e.token = some token ∧ identity g.principal = true ∨ m.lookup token = some g) :
    Keeps c digest (past ++ [e]) s' m' where
  store := hstore
  same now hnow token := by
    refine hsame now (hnow e (by simp)) (fun earlier hearlier => ?_) token
    exact hnow earlier (List.mem_append_left _ hearlier)
  named key x hx := by
    obtain hnew | ⟨x', hx'⟩ := hnamed key x hx
    · exact hnew
    · exact h.named key x' hx'
  issued token g hg := by
    obtain ⟨hnew, -⟩ | hold := hknown token g hg
    · exact ⟨e, by simp, hnew⟩
    · obtain ⟨earlier, hearlier, htoken⟩ := h.issued token g hold
      exact ⟨earlier, List.mem_append_left _ hearlier, htoken⟩
  shaped token g hg := by
    obtain ⟨hnew, -⟩ | hold := hknown token g hg
    · exact hadm.shaped token hnew
    · exact h.shaped token g hold
  identified token g hg := by
    obtain ⟨-, hnew⟩ | hold := hknown token g hg
    · exact hnew
    · exact h.identified token g hold

/-- A call that changes nothing but what is pruned. -/
theorem Keeps.quiet (h : Keeps c digest past s m) (hadm : Admissible past e)
    (hs : s' = s ∨ s' = prune c e.now s) : Keeps c digest (past ++ [e]) s' m := by
  obtain rfl | rfl := hs
  · exact h.next hadm h.store (fun now _ => h.same now) (fun _ x hx => .inr ⟨x, hx⟩)
      fun _ _ hg => .inr hg
  · obtain ⟨hindexed, hlookup⟩ := prune_spec c e.now h.store
    refine h.next hadm hindexed (fun now hlater hnow token => ?_) (fun key x hx => .inr ?_)
      fun _ _ hg => .inr hg
    · rw [hlookup, filter_live (hadm.lasts.trans hlater)]
      exact h.same now hnow token
    · rw [hlookup] at hx
      exact ⟨x, (Option.filter_eq_some_iff.mp hx).1⟩

/-- A new token is not in the ledger. -/
theorem Keeps.fresh (h : Keeps c digest past s m) (hadm : Admissible past e) {token : String}
    (htoken : e.token = some token) : m.lookup token = none := by
  apply Option.eq_none_iff_forall_ne_some.mpr
  intro g hg
  obtain ⟨earlier, hearlier, hissued⟩ := h.issued token g hg
  exact hadm.fresh token htoken earlier hearlier hissued

/-- A test that sessions and grants pass alike. -/
theorem Keeps.filtered (h : Keeps c digest past s m) (hnow : ∀ e ∈ past, e.later ≤ now)
    {p : Bytes × T → Bool} {q : Grant T → Bool} (hpq : ∀ g : Grant T, p (g.stored c) = q g)
    (token : String) : (s.sessions.lookup (digest token)).filter (fun x => p x && live now x) =
      ((m.lookup token).filter fun g => q g && g.live c now).map (Grant.stored c) := by
  have hstored : ((s.sessions.lookup (digest token)).filter (live now)).filter p =
      ((current c now m token).filter q).map (Grant.stored c) := by
    rw [h.same now hnow token]
    cases current c now m token with
    | none => rfl
    | some g => by_cases hg : q g = true <;> simp [Option.filter_some, hpq, hg]
  have hstore (x : Bytes × T) : (live now x && p x) = (p x && live now x) := Bool.and_comm _ _
  have hledger (g : Grant T) : (g.live c now && q g) = (q g && g.live c now) := Bool.and_comm _ _
  simpa only [current, Option.filter_filter, hstore, hledger] using hstored

/-- The sessions that are alive and pass a test are as many as those of the ledger. -/
theorem Keeps.count (h : Keeps c digest past s m) (hdigest : Function.Injective digest)
    (hnow : ∀ e ∈ past, e.later ≤ now) {p : Bytes × T → Bool} {q : Grant T → Bool}
    (hpq : ∀ g : Grant T, p (g.stored c) = q g) :
    Table.count (fun _ x => p x && live now x) s.sessions =
      Table.count (fun _ g => q g && g.live c now) m := by
  apply Table.size_eq_of_name hdigest
  · intro token
    rw [← AList.lookup_isSome, ← AList.lookup_isSome, Table.lookup_keep, Table.lookup_keep,
      h.filtered hnow hpq, Option.isSome_map]
  · intro key hkey
    obtain ⟨x, hx⟩ := Option.isSome_iff_exists.mp (AList.lookup_isSome.mpr hkey)
    rw [Table.lookup_keep, Option.filter_eq_some_iff] at hx
    exact h.named key x hx.1

theorem Keeps.alive (h : Keeps c digest past s m) (hdigest : Function.Injective digest)
    (hnow : ∀ e ∈ past, e.later ≤ now) :
    alive now s = Table.count (fun _ => Grant.live c now) m := by
  have hcount := h.count hdigest hnow (p := fun _ => true) (q := fun _ => true) fun _ => rfl
  simp only [Bool.true_and] at hcount
  exact hcount

theorem Keeps.validate (h : Keeps c digest past s m) (hnow : ∀ e ∈ past, e.later ≤ now)
    (token : String) : ∃ s', (s' = s ∨ s' = prune c now s) ∧
      validate (execute c now now) digest token s =
        (s', .ok ((current c now m token).map Grant.principal)) := by
  unfold Sessions.validate Sessions.get
  by_cases hvalid : valid token = true
  · refine ⟨prune c now s, .inr rfl, ?_⟩
    rw [if_neg (by simp [hvalid]), get_eq c now now _ h.store, h.same now hnow]
    cases hg : current c now m token with
    | none => rfl
    | some g =>
      have hloads : loads (g.stored c).1 = some ⟨g.principal, []⟩ :=
        loads_dumps (h.identified token g (mem_current hg))
      simp only [Option.map_some, hloads]
      rfl
  · have hnone : current c now m token = none := by
      apply Option.eq_none_iff_forall_ne_some.mpr
      intro g hg
      exact hvalid (h.shaped token g (mem_current hg))
    refine ⟨s, .inl rfl, ?_⟩
    rw [if_pos (by simpa using hvalid), hnone]
    rfl

theorem Keeps.destroy (h : Keeps c digest past s m) (hdigest : Function.Injective digest)
    (hadm : Admissible past e) (token : String) : ∃ s',
      destroy (execute c e.now e.later) digest token s = (s', .ok ()) ∧
        Keeps c digest (past ++ [e]) s' (m.erase token) := by
  have herased : ∀ t g, (m.erase token).lookup t = some g → m.lookup t = some g := by
    intro t g hg
    by_cases ht : t = token
    · subst ht
      nomatch (AList.lookup_erase ..).symm.trans hg
    · exact (AList.lookup_erase_ne ht).symm.trans hg
  unfold Sessions.destroy
  by_cases hvalid : valid token = true
  · obtain ⟨s', hexecute, hindexed, -, hlookup⟩ :=
      destroy_spec c hadm.lasts (digest token) h.store
    refine ⟨s', ?_, h.next hadm hindexed (fun now hlater hnow t => ?_) (fun key x hx => .inr ?_)
      fun t g hg => .inr (herased t g hg)⟩
    · rw [if_neg (by simp [hvalid]), hexecute]
      rfl
    · rw [hlookup, current_erase]
      by_cases ht : t = token
      · rw [if_pos (congrArg digest ht), if_pos ht]
        rfl
      · rw [if_neg (hdigest.ne ht), if_neg ht, filter_live hlater]
        exact h.same now hnow t
    · rw [hlookup] at hx
      split_ifs at hx
      exact ⟨x, (Option.filter_eq_some_iff.mp hx).1⟩
  · refine ⟨s, if_pos (by simpa using hvalid), h.next hadm h.store (fun now _ hnow t => ?_)
      (fun _ x hx => .inr ⟨x, hx⟩) fun t g hg => .inr (herased t g hg)⟩
    rw [h.same now hnow, current_erase]
    split_ifs with ht
    · -- what is no token is not in the ledger
      have hnone : current c now m t = none := by
        apply Option.eq_none_iff_forall_ne_some.mpr
        intro g hg
        exact hvalid (ht ▸ h.shaped t g (mem_current hg))
      rw [hnone]
    · rfl

/-- A login that is accepted is recorded, unless the store is full. -/
theorem Keeps.create (h : Keeps c digest past s m) (hdigest : Function.Injective digest)
    (hadm : Admissible past e) {userId token : String} (hidentity : identity userId = true)
    (htoken : e.token = some token) :
    (Table.count (fun _ => Grant.live c e.now) m < c.maxSessions ∧
      ∃ s', create (execute c e.now e.later) digest userId [] token s = (s', .ok token) ∧
        Keeps c digest (past ++ [e]) s' (m.insert token ⟨userId, e.later⟩)) ∨
    (c.maxSessions ≤ Table.count (fun _ => Grant.live c e.now) m ∧
      create (execute c e.now e.later) digest userId [] token s =
        (prune c e.now s, .error .capacity)) := by
  have hfresh : (s.sessions.lookup (digest token)).filter (live e.now) = none := by
    rw [h.same e.now hadm.clock, current, h.fresh hadm htoken]
    rfl
  rw [← h.alive hdigest hadm.clock]
  obtain ⟨hrefused, -⟩ | ⟨-, ⟨⟨x, hx⟩, -⟩ | ⟨hfull, heq⟩ |
      ⟨hroom, s', hindexed, heq, -, hlookup⟩⟩ :=
    SessionLineage.created_cases c digest h.store userId [] token e.now e.later
  · exact absurd (acceptable hidentity) hrefused
  · cases hfresh.symm.trans hx
  · exact .inr ⟨hfull, heq⟩
  · refine .inl ⟨hroom, s', heq, h.next hadm hindexed (fun now hlater hnow t => ?_)
      (fun key x hx => ?_) fun t g hg => ?_⟩
    · rw [hlookup, current_insert]
      by_cases ht : t = token
      · rw [if_pos (congrArg digest ht), if_pos ht]
        exact filter_stored now (some ⟨userId, e.later⟩)
      · rw [if_neg (hdigest.ne ht), if_neg ht, filter_live (hadm.lasts.trans hlater)]
        exact h.same now hnow t
    · rw [hlookup] at hx
      split_ifs at hx with hkey
      · exact .inl ⟨token, hkey.symm⟩
      · exact .inr ⟨x, (Option.filter_eq_some_iff.mp hx).1⟩
    · by_cases ht : t = token
      · subst ht
        obtain rfl := Option.some.inj ((AList.lookup_insert m).symm.trans hg)
        exact .inl ⟨htoken, hidentity⟩
      · exact .inr ((AList.lookup_insert_ne ht).symm.trans hg)

theorem Keeps.rotate (h : Keeps c digest past s m) (hdigest : Function.Injective digest)
    (hadm : Admissible past e) (old : String) {token : String} (htoken : e.token = some token) :
    match current c e.now m old with
    | some g => ∃ s', rotate (execute c e.now e.later) digest old token s = (s', .ok (some token)) ∧
        Keeps c digest (past ++ [e]) s' ((m.erase old).insert token g)
    | none => ∃ s', (s' = s ∨ s' = prune c e.now s) ∧
        rotate (execute c e.now e.later) digest old token s = (s', .ok none) := by
  have hfresh : (s.sessions.lookup (digest token)).filter (live e.now) = none := by
    rw [h.same e.now hadm.clock, current, h.fresh hadm htoken]
    rfl
  have hold := h.same e.now hadm.clock old
  obtain ⟨hnone, hstore, heq⟩ | ⟨⟨x, hx⟩, -⟩ | ⟨x, s', hx, heq, hindexed, -, hlookup⟩ :=
    SessionLineage.rotated_cases c digest h.store hadm.lasts old token
  · have hcurrent : current c e.now m old = none := by
      apply Option.eq_none_iff_forall_ne_some.mpr
      intro g hg
      rw [hnone (h.shaped old g (mem_current hg)), hg] at hold
      cases hold
    rw [hcurrent]
    exact ⟨_, hstore, Prod.ext rfl heq⟩
  · cases hfresh.symm.trans hx
  · obtain ⟨g, hg, rfl⟩ := Option.map_eq_some_iff.mp (hold.symm.trans hx)
    rw [hg]
    refine ⟨s', heq, h.next hadm hindexed (fun now hlater hnow t => ?_) (fun key y hy => ?_)
      fun t g' hg' => ?_⟩
    · rw [hlookup, filter_live hlater, current_insert, current_erase]
      by_cases ht : t = token
      · rw [if_pos (congrArg digest ht), if_pos ht]
        exact filter_stored now (some g)
      · rw [if_neg (hdigest.ne ht), if_neg ht]
        by_cases ht' : t = old
        · rw [if_pos (congrArg digest ht'), if_pos ht']
          rfl
        · rw [if_neg (hdigest.ne ht'), if_neg ht']
          exact h.same now hnow t
    · rw [hlookup, Option.filter_eq_some_iff] at hy
      obtain ⟨hy, -⟩ := hy
      split_ifs at hy with hkey
      · exact .inl ⟨token, hkey.symm⟩
      · exact .inr ⟨y, hy⟩
    · by_cases ht : t = token
      · subst ht
        obtain rfl := Option.some.inj ((AList.lookup_insert _).symm.trans hg')
        exact .inl ⟨htoken, h.identified old g (mem_current hg)⟩
      · have herased := (AList.lookup_insert_ne ht).symm.trans hg'
        by_cases ht' : t = old
        · subst ht'
          cases (AList.lookup_erase ..).symm.trans herased
        · exact .inr ((AList.lookup_erase_ne ht').symm.trans herased)

theorem Keeps.revokeAll (h : Keeps c digest past s m) (hdigest : Function.Injective digest)
    (hadm : Admissible past e) {userId : String} (hidentity : identity userId = true) :
    ∃ s', revokeAll (execute c e.now e.later) userId s = (s', .ok (Table.count
        (fun _ g => g.principal == userId && g.live c e.now) m)) ∧
      Keeps c digest (past ++ [e]) s' (Table.keep (fun _ g => g.principal != userId) m) := by
  obtain ⟨s', hexecute, hindexed, -, hlookup⟩ := revoke_spec c hadm.lasts userId h.store
  rw [h.count hdigest hadm.clock (q := fun g => g.principal == userId)
    (belongsTo_stored userId)] at hexecute
  refine ⟨s', ?_, h.next hadm hindexed (fun now hlater hnow t => ?_) (fun key x hx => .inr ?_)
    fun t g hg => .inr ?_⟩
  · unfold Sessions.revokeAll
    rw [if_neg (by simp [hidentity]), hexecute]
    rfl
  · have hkept := h.filtered hnow (p := fun x => !belongsTo userId x)
      (q := fun g => g.principal != userId) (fun g => by simp [belongsTo_stored, bne]) t
    have hlive (x : Bytes × T) : (!belongsTo userId x && live e.later x && live now x) =
        (!belongsTo userId x && live now x) := by
      by_cases hx : live now x = true
      · simp [hx, live_of_le hlater hx]
      · simp [hx]
    rw [hlookup, current, Table.lookup_keep, Option.filter_filter, Option.filter_filter]
    simpa only [hlive] using hkept
  · rw [hlookup] at hx
    exact ⟨x, (Option.filter_eq_some_iff.mp hx).1⟩
  · rw [Table.lookup_keep] at hg
    exact (Option.filter_eq_some_iff.mp hg).1

theorem identity_of_validated {validate : CredentialValidator} {fields : List (String × Json)}
    {userId : String} (h : validated validate fields = .ok (some userId)) :
    identity userId = true := by
  unfold validated Credentials.validated at h
  split at h
  · cases h
  · split_ifs at h with hidentity
    obtain rfl := Option.some.inj (Except.ok.inj h)
    exact hidentity
  · cases h
  · cases h

omit [LinearOrder κ] in
theorem destroy_empty {σ : Type} (execute : Execute σ κ) (digest : String → κ) (s : σ) :
    destroy execute digest "" s = (s, .ok ()) := rfl

variable {cookies : Request → String → Option String} {auth : Auth}

/-- The call is answered as the ledger says, and the ledger is kept. -/
def Agrees (cookies : Request → String → Option String) (auth : Auth) (c : Config T)
    (digest : String → κ) (past : List (Event T)) (s : Store T κ) (m : Ledger T) (e : Event T) :
    Prop :=
  (serve cookies auth c digest e s).2 = (ledger cookies auth c e m).2 ∧
    Keeps c digest (past ++ [e]) (serve cookies auth c digest e s).1
      (ledger cookies auth c e m).1

theorem Keeps.login (h : Keeps c digest past s m) (hdigest : Function.Injective digest)
    {request : Request} {body : Option Json} {validate : CredentialValidator} {token : String}
    (hadm : Admissible past (.login request body validate token now later)) :
    Agrees cookies auth c digest past s m (.login request body validate token now later) := by
  have hquiet := h.quiet hadm (Or.inl rfl)
  unfold Agrees
  simp only [CookieSessions.serve, ledger, CookieSessions.login]
  by_cases htls : (auth.requireTls && !request.secure) = true
  · rw [if_pos htls, if_pos htls]
    exact ⟨rfl, hquiet⟩
  · simp only [if_neg htls]
    cases body with
    | none => exact ⟨rfl, hquiet⟩
    | some v =>
      cases v with
      | obj fields =>
        dsimp only
        cases hverdict : validated validate fields with
        | error _ => exact ⟨rfl, hquiet⟩
        | ok verdict =>
          cases verdict with
          | none => exact ⟨rfl, hquiet⟩
          | some userId =>
            obtain ⟨hroom, s', heq, hkeeps⟩ | ⟨hfull, heq⟩ :=
              h.create hdigest hadm (identity_of_validated hverdict) rfl
            · dsimp only [Event.now, Event.later] at hroom heq ⊢
              rw [heq, if_pos hroom]
              exact ⟨rfl, hkeeps⟩
            · dsimp only [Event.now, Event.later] at hfull heq ⊢
              rw [heq, if_neg (not_lt.mpr hfull)]
              exact ⟨rfl, h.quiet hadm (Or.inr rfl)⟩
      | _ => exact ⟨rfl, hquiet⟩

theorem Keeps.verify (h : Keeps c digest past s m) {request : Request}
    (hadm : Admissible past (.verify request now)) :
    Agrees cookies auth c digest past s m (.verify request now) := by
  unfold Agrees
  simp only [CookieSessions.serve, ledger, CookieSessions.verify]
  by_cases htls : (auth.requireTls && !request.secure) = true
  · rw [if_pos htls, if_pos htls]
    exact ⟨rfl, h.quiet hadm (Or.inl rfl)⟩
  · simp only [if_neg htls]
    cases hshown : auth.sessionId cookies request with
    | none => exact ⟨rfl, h.quiet hadm (Or.inl rfl)⟩
    | some token =>
      dsimp only [Option.bind_some]
      obtain ⟨s', hs', hvalidate⟩ := h.validate hadm.clock token
      dsimp only [Event.now] at hs' hvalidate
      cases hg : current c now m token with
      | none =>
        rw [hvalidate, hg]
        split_ifs
        · exact ⟨rfl, h.quiet hadm (Or.inl rfl)⟩
        · exact ⟨rfl, h.quiet hadm hs'⟩
      | some g =>
        have htext := tokenText_of_valid (h.shaped token g (mem_current hg))
        have hidentity := h.identified token g (mem_current hg)
        rw [htext, hvalidate, hg]
        simp only [Option.map_some, hidentity]
        exact ⟨rfl, h.quiet hadm hs'⟩

theorem Keeps.logout (h : Keeps c digest past s m) (hdigest : Function.Injective digest)
    {request : Request} (hadm : Admissible past (.logout request now later)) :
    Agrees cookies auth c digest past s m (.logout request now later) := by
  have hquiet := h.quiet hadm (Or.inl rfl)
  unfold Agrees
  simp only [CookieSessions.serve, ledger, CookieLogout.logout]
  by_cases htls : (auth.requireTls && !request.secure) = true
  · rw [if_pos htls, if_pos htls]
    exact ⟨rfl, hquiet⟩
  · simp only [if_neg htls]
    cases hshown : auth.sessionId cookies request with
    | none => exact ⟨rfl, hquiet⟩
    | some token =>
      obtain ⟨s', hdestroy, hkeeps⟩ := h.destroy hdigest hadm token
      dsimp only [Event.now, Event.later] at hdestroy ⊢
      split_ifs with hempty
      · -- what is empty is no token
        obtain ⟨hsame, -⟩ := Prod.mk.inj ((destroy_empty ..).symm.trans (hempty ▸ hdestroy))
        exact ⟨rfl, hsame ▸ hkeeps⟩
      · rw [hdestroy]
        exact ⟨rfl, hkeeps⟩

theorem Keeps.agrees (h : Keeps c digest past s m) (hdigest : Function.Injective digest)
    (hadm : Admissible past e) : Agrees cookies auth c digest past s m e := by
  cases e with
  | login request body validate token now later => exact h.login hdigest hadm
  | verify request now => exact h.verify hadm
  | logout request now later => exact h.logout hdigest hadm
  | destroy sessionId now later =>
    obtain ⟨s', hdestroy, hkeeps⟩ := h.destroy hdigest hadm sessionId
    dsimp only [Event.now, Event.later] at hdestroy
    unfold Agrees
    simp only [CookieSessions.serve, ledger, hdestroy]
    exact ⟨rfl, hkeeps⟩
  | rotate old token now later =>
    have hrotate := h.rotate hdigest hadm old rfl
    unfold Agrees
    simp only [CookieSessions.serve, ledger]
    dsimp only [Event.now, Event.later] at hrotate
    cases hg : current c now m old with
    | some g =>
      rw [hg] at hrotate
      obtain ⟨s', heq, hkeeps⟩ := hrotate
      rw [heq]
      exact ⟨rfl, hkeeps⟩
    | none =>
      rw [hg] at hrotate
      obtain ⟨s', hs', heq⟩ := hrotate
      rw [heq]
      exact ⟨rfl, h.quiet hadm hs'⟩
  | revokeAll userId now later =>
    unfold Agrees
    simp only [CookieSessions.serve, ledger]
    split_ifs with hidentity
    · obtain ⟨s', heq, hkeeps⟩ := h.revokeAll hdigest hadm hidentity
      dsimp only [Event.now, Event.later] at heq
      rw [heq]
      exact ⟨rfl, hkeeps⟩
    · unfold Sessions.revokeAll
      rw [if_pos (by simpa using hidentity)]
      exact ⟨rfl, h.quiet hadm (Or.inl rfl)⟩

theorem ledger_simulates (cookies : Request → String → Option String) (auth : Auth)
    (c : Config T) (hdigest : Function.Injective digest) :
    Simulates (serve cookies auth c digest) some (ledger cookies auth c) (Keeps c digest)
      Admissible where
  answer past s m e d hd h hadm := by
    obtain rfl := Option.some.inj hd
    exact (h.agrees hdigest hadm).1
  next past s m e d hd h hadm := by
    obtain rfl := Option.some.inj hd
    exact (h.agrees hdigest hadm).2
  other _ _ _ _ hd := nomatch hd

theorem run_keeps (cookies : Request → String → Option String) (auth : Auth) (c : Config T)
    (hdigest : Function.Injective digest) {es : List (Event T)} (h : History es) :
    answers (serve cookies auth c digest) some empty es =
        answers (ledger cookies auth c) some ∅ es ∧
      Keeps c digest es (finish (serve cookies auth c digest) empty es)
        (finish (ledger cookies auth c) ∅ es) := by
  have hall : AtEach (fun past e _ => Admissible past e) (es.filterMap some) := by
    rwa [List.filterMap_some]
  have hrun := (ledger_simulates cookies auth c hdigest).run (keeps_empty c digest) hall
  rwa [List.filterMap_some] at hrun

/-- Every login, check of a request and logout, and every call of the store between them, is
answered as the ledger says. -/
theorem answered_by_ledger (cookies : Request → String → Option String) (auth : Auth)
    (c : Config T) (hdigest : Function.Injective digest) (es : List (Event T)) (h : History es) :
    answers (serve cookies auth c digest) some empty es =
      answers (ledger cookies auth c) some ∅ es :=
  (run_keeps cookies auth c hdigest h).1

end

def config : Config ℕ := ⟨10, 1, Nat.one_pos⟩

def sessionAuth : Auth := ⟨⟨"session", true⟩, true, 10, Nat.succ_pos 9⟩

def showing (token : String) : Request := ⟨true, ["session=" ++ token]⟩

/-- A session changes its token. -/
def visit : List (Event ℕ) :=
  [.login ⟨true, []⟩ (some (.obj [])) (fun _ => .ok (some "ann")) firstToken 0 0,
    .rotate firstToken secondToken 1 1, .verify (showing firstToken) 2,
    .verify (showing secondToken) 3]

/-- The principal that a check finds. -/
def Answer.principal : Answer → Option String
  | .verify (.ok principal) => principal
  | _ => none

theorem history_visit : History visit := by
  have hfirst : valid firstToken = true := by decide +kernel
  have hsecond : valid secondToken = true := by decide +kernel
  have hne : firstToken ≠ secondToken := by decide +kernel
  simp only [History, visit, atEach_cons]
  refine ⟨⟨?_, ?_, ?_, ?_⟩, ⟨?_, ?_, ?_, ?_⟩, ⟨?_, ?_, ?_, ?_⟩, ⟨?_, ?_, ?_, ?_⟩, atEach_nil _⟩
  all_goals simp [Event.now, Event.later, Event.token, hfirst, hsecond, hne]

theorem answered_by_ledger_visit :
    (answers (serve lastCookie sessionAuth config sampleDigest) some empty visit).map
        Answer.principal =
      [none, none, none, some "ann"] := by
  rw [answered_by_ledger lastCookie sessionAuth config sampleDigest_injective visit history_visit]
  decide +kernel

end WireRpc.CookieSessions
