import WireRpc.Credentials

/-!
# Issued keys authenticate

A key is made of an id and a secret that were checked apart, and is checked as a whole by
the header of the client, by the header of the server and by the validator.
-/
namespace WireRpc.Credentials
open Sessions

theorem tokenText_eq_true {value : String} {maximum : ℕ} :
    tokenText value maximum = true ↔ 1 ≤ value.length ∧ value.length ≤ maximum ∧
      ∀ c ∈ value.toList, 0x21 ≤ c.toNat ∧ c.toNat ≤ 0x7e := by
  simp [tokenText, and_assoc]

/-- A key id: 1 to 128 printable characters other than the dot. -/
def IsKeyId (keyId : String) : Prop :=
  1 ≤ keyId.length ∧ keyId.length ≤ 128 ∧
    ∀ c ∈ keyId.toList, 0x21 ≤ c.toNat ∧ c.toNat ≤ 0x7e ∧ c ≠ '.'

/-- The text that is given out for a key. -/
def keyText (keyId secret : String) : String := keyId ++ "." ++ secret

theorem toList_keyText (keyId secret : String) :
    (keyText keyId secret).toList = keyId.toList ++ '.' :: secret.toList := by
  rw [keyText, String.toList_append, String.toList_append, List.append_assoc]
  rfl

theorem length_keyText (keyId secret : String) :
    (keyText keyId secret).length = keyId.length + 1 + secret.length := by
  rw [keyText, String.length_append, String.length_append]
  rfl

/-- The id has no dot, so the first dot is the one after it. -/
theorem splitDot_keyText {keyId secret : String} (h : '.' ∉ keyId.toList) :
    splitDot (keyText keyId secret) = (keyId, secret) := by
  have hne : ∀ c ∈ keyId.toList, decide (c ≠ '.') = true := by
    intro c hc
    exact decide_eq_true (ne_of_mem_of_not_mem hc h)
  unfold splitDot
  rw [toList_keyText, List.takeWhile_append_of_pos hne, List.dropWhile_append_of_pos hne]
  simp

/-- A text with a dot is put together again from its parts. -/
theorem keyText_splitDot {token : String} (h : '.' ∈ token.toList) :
    keyText (splitDot token).1 (splitDot token).2 = token := by
  have hhead : ∀ (cs : List Char), '.' ∈ cs →
      cs.dropWhile (· ≠ '.') = '.' :: (cs.dropWhile (· ≠ '.')).tail := by
    intro cs hmem
    induction cs with
    | nil => nomatch hmem
    | cons c cs ih =>
      by_cases hc : c = '.'
      · subst hc
        simp
      · have hmem' : '.' ∈ cs := (List.mem_cons.mp hmem).resolve_left (Ne.symm hc)
        rw [List.dropWhile_cons_of_pos (by simpa using hc)]
        exact ih hmem'
  apply String.toList_inj.mp
  rw [toList_keyText, splitDot, String.toList_ofList, String.toList_ofList, ← hhead _ h,
    List.takeWhile_append_dropWhile]

section
variable {hash : Sha256} {principal secret keyId : String} {expiresAt : Option ℚ}
  {record : ApiKeyRecord}

/-- The record that `from_secret` makes. -/
structure Issued (hash : Sha256) (principal secret : String) (expiresAt : Option ℚ)
    (record : ApiKeyRecord) : Prop where
  identity : identity principal = true
  secret_text : tokenText secret 4096 = true
  secret_length : 32 ≤ secret.length
  principal_eq : record.principal = principal
  digest_eq : record.secretDigest = hash.hexdigest secret
  expires_eq : record.expiresAt = expiresAt
  enabled : record.enabled = true

theorem issued_of_fromSecret (h : fromSecret hash principal secret expiresAt = .ok record) :
    Issued hash principal secret expiresAt record := by
  unfold fromSecret at h
  split_ifs at h with hidentity hcheck
  obtain rfl := Except.ok.inj h
  simp only [Bool.or_eq_true, Bool.not_eq_true', decide_eq_true_eq, not_or,
    Bool.not_eq_false, not_lt] at hcheck
  exact ⟨hidentity, hcheck.1, hcheck.2, rfl, rfl, rfl, rfl⟩

theorem IsKeyId.notMem (h : IsKeyId keyId) : '.' ∉ keyId.toList := fun hmem =>
  (h.2.2 '.' hmem).2.2 rfl

/-- Of a key's text only the length can be wrong. -/
theorem tokenText_keyText (hid : IsKeyId keyId) (hsecret : tokenText secret 4096 = true)
    (maximum : ℕ) :
    tokenText (keyText keyId secret) maximum = true ↔
      keyId.length + 1 + secret.length ≤ maximum := by
  obtain ⟨-, -, hchars⟩ := tokenText_eq_true.mp hsecret
  rw [tokenText_eq_true, length_keyText, toList_keyText]
  constructor
  · exact fun h => h.2.1
  · intro hle
    refine ⟨by omega, hle, fun c hc => ?_⟩
    obtain hc | hc := List.mem_append.mp hc
    · exact ⟨(hid.2.2 c hc).1, (hid.2.2 c hc).2.1⟩
    · obtain rfl | hc := List.mem_cons.mp hc
      · decide
      · exact hchars c hc

/-- The lookup has the record under this id alone, the key is not expired, and no other
secret has its digest. -/
structure Live (hash : Sha256) (lookup : String → Except AuthError (Option ApiKeyRecord))
    (now : ℚ) (keyId secret : String) (record : ApiKeyRecord) : Prop where
  found : lookup keyId = .ok (some record)
  others : ∀ other, other ≠ keyId → lookup other = .ok none
  unexpired : ∀ t, record.expiresAt = some t → now < t
  no_collision : ∀ text, hash.hexdigest text = hash.hexdigest secret → text = secret

variable {lookup : String → Except AuthError (Option ApiKeyRecord)} {now : ℚ}

theorem validate_keyText (hissued : Issued hash principal secret expiresAt record)
    (hid : IsKeyId keyId) (hlive : Live hash lookup now keyId secret record)
    (hlength : keyId.length + 1 + secret.length ≤ 4096) :
    validate hash lookup now (keyText keyId secret) = .ok (some principal) := by
  have htext := (tokenText_keyText hid hissued.secret_text 4096).mpr hlength
  have hdot : '.' ∈ (keyText keyId secret).toList := by simp [toList_keyText]
  have hlong : ¬ secret.length < 32 := by
    have := hissued.secret_length
    omega
  have hexpired : record.expiresAt.any (· ≤ now) = false := by
    cases ht : record.expiresAt with
    | none => rfl
    | some t => simpa using hlive.unexpired t ht
  simp [validate, htext, hdot, splitDot_keyText hid.notMem, hid.1, hid.2.1, hlong, hlive.found,
    hissued.digest_eq, hissued.enabled, hexpired, hissued.principal_eq]

theorem validate_other (hissued : Issued hash principal secret expiresAt record)
    (hlive : Live hash lookup now keyId secret record) {token : String}
    (hne : token ≠ keyText keyId secret) : validate hash lookup now token = .ok none := by
  unfold validate
  split_ifs with hshape
  · rfl
  have hdot : '.' ∈ token.toList := by
    simp only [Bool.or_eq_true, decide_eq_true_eq, not_or, not_not] at hshape
    exact hshape.2
  have hjoin := keyText_splitDot hdot
  generalize splitDot token = parts at hjoin
  obtain ⟨otherId, other⟩ := parts
  simp only
  split_ifs with hlength
  · rfl
  by_cases hid : otherId = keyId
  · subst hid
    have hsecret : hash.hexdigest other ≠ record.secretDigest := by
      rw [hissued.digest_eq]
      intro hdigest
      obtain rfl := hlive.no_collision other hdigest
      exact hne hjoin.symm
    simp [hlive.found, hsecret]
  · simp [hlive.others otherId hid]

section
variable (auth : ApiKeyAuth) (validator : String → Except AuthError (Option String))

theorem verify_of_getall {request : Request} {token : String}
    (hvalues : request.getall auth.header = [token])
    (hsecure : auth.requireTls = true → request.secure = true) :
    auth.verify validator request =
      if tokenText token 4096 then validated validator token else .ok none := by
  unfold ApiKeyAuth.verify
  rw [if_neg (by simpa using hsecure)]
  simp only [hvalues]

theorem verify_rejected {request : Request} {token : String}
    (hvalues : request.getall auth.header = [token]) (hrejected : validator token = .ok none) :
    auth.verify validator request = .ok none := by
  unfold ApiKeyAuth.verify
  split_ifs
  · rfl
  · simp only [hvalues, validated, hrejected]
    split_ifs <;> rfl

/-- The headers hold the built one, and no other of its name. -/
theorem getall_of_foreign (secure : Bool) (token : String) {name : String}
    {before after : Headers}
    (h : ∀ header ∈ before ++ after, sameName header.1 name = false) :
    (Request.mk secure (before ++ [(name, token)] ++ after)).getall name = [token] := by
  have hnone : ∀ l : Headers, (∀ header ∈ l, sameName header.1 name = false) →
      l.filter (fun header => sameName header.1 name) = [] := by
    intro l hl
    apply List.filter_eq_nil_iff.mpr
    intro header hheader
    simp [hl header hheader]
  rw [Request.getall, List.filter_append, List.filter_append,
    hnone before fun header hheader => h header (List.mem_append_left _ hheader),
    hnone after fun header hheader => h header (List.mem_append_right _ hheader)]
  simp [sameName]

/-- The header that the client builds of the text is accepted, and yields the principal. -/
def Authenticates (secure : Bool) (token principal : String) : Prop :=
  ∃ headers, credentialHeaders none (some token) auth.header = .ok headers ∧
    ∀ before after, (∀ header ∈ before ++ after, sameName header.1 auth.header = false) →
      auth.verify validator ⟨secure, before ++ headers ++ after⟩ = .ok (some principal)

/-- The client builds a header of every issued key. -/
theorem credentialHeaders_keyText (hid : IsKeyId keyId) (hsecret : tokenText secret 4096 = true) :
    credentialHeaders none (some (keyText keyId secret)) auth.header =
      .ok [(auth.header, keyText keyId secret)] := by
  have htoken : tokenText (keyText keyId secret) 16384 = true := by
    apply (tokenText_keyText hid hsecret 16384).mpr
    have := (tokenText_eq_true.mp hsecret).2.1
    have := hid.2.1
    omega
  simp [credentialHeaders, auth.valid, htoken]

theorem authenticates_keyText (hid : IsKeyId keyId) (hsecret : tokenText secret 4096 = true)
    {secure : Bool} (hsecure : auth.requireTls = true → secure = true)
    (hlength : keyId.length + 1 + secret.length ≤ 4096)
    (hvalid : validated validator (keyText keyId secret) = .ok (some principal)) :
    Authenticates auth validator secure (keyText keyId secret) principal := by
  refine ⟨_, credentialHeaders_keyText auth hid hsecret, fun before after hforeign => ?_⟩
  have htext := (tokenText_keyText hid hsecret 4096).mpr hlength
  rw [verify_of_getall auth validator (getall_of_foreign secure _ hforeign) hsecure, if_pos htext,
    hvalid]

/-- The server turns away what is too long as a whole. -/
theorem not_authenticates_keyText (hid : IsKeyId keyId) (hsecret : tokenText secret 4096 = true)
    {secure : Bool} (hsecure : auth.requireTls = true → secure = true)
    (hlength : ¬ keyId.length + 1 + secret.length ≤ 4096) :
    ¬ Authenticates auth validator secure (keyText keyId secret) principal := by
  rintro ⟨headers, hheaders, haccepted⟩
  obtain rfl := Except.ok.inj ((credentialHeaders_keyText auth hid hsecret).symm.trans hheaders)
  have hnow := haccepted [] [] (by simp)
  have htext : ¬ tokenText (keyText keyId secret) 4096 = true := fun h =>
    hlength ((tokenText_keyText hid hsecret 4096).mp h)
  rw [verify_of_getall auth validator (getall_of_foreign secure _ (by simp)) hsecure,
    if_neg htext] at hnow
  nomatch hnow

end

end

/-- A key that was issued authenticates, and every other text is rejected, if and only if
the whole key is not longer than the server takes. -/
theorem issued_key_authenticates_iff (hash : Sha256) (principal secret keyId : String)
    (expiresAt : Option ℚ) (record : ApiKeyRecord)
    (lookup : String → Except AuthError (Option ApiKeyRecord)) (now : ℚ) (auth : ApiKeyAuth)
    (secure : Bool) (hissue : fromSecret hash principal secret expiresAt = .ok record)
    (hid : IsKeyId keyId) (hlive : Live hash lookup now keyId secret record)
    (hsecure : auth.requireTls = true → secure = true) :
    (Authenticates auth (validate hash lookup now) secure (keyText keyId secret) principal ∧
      ∀ token, token ≠ keyText keyId secret → ∀ request : Request,
        request.getall auth.header = [token] →
          auth.verify (validate hash lookup now) request = .ok none) ↔
      keyId.length + 1 + secret.length ≤ 4096 := by
  have hissued := issued_of_fromSecret hissue
  constructor
  · rintro ⟨haccepted, -⟩
    by_contra hlength
    exact not_authenticates_keyText auth _ hid hissued.secret_text hsecure hlength haccepted
  · intro hlength
    have hvalid : validated (validate hash lookup now) (keyText keyId secret) =
        .ok (some principal) := by
      rw [validated, validate_keyText hissued hid hlive hlength]
      simp only [hissued.identity, if_true]
    exact ⟨authenticates_keyText auth _ hid hissued.secret_text hsecure hlength hvalid,
      fun token hne request hvalues =>
        verify_rejected auth _ hvalues (validate_other hissued hlive hne)⟩

/-- The digest of one text; what the others have does not matter. -/
def pinned (text digest : String) (h : isHexDigest digest = true) : Sha256 where
  hexdigest other := if other = text then digest else String.ofList (List.replicate 64 '0')
  isHex other := by
    split_ifs
    · exact h
    · decide +kernel

def sampleAuth : ApiKeyAuth := ⟨"X-API-Key", true, by decide +kernel⟩

/-- The record is found under the id `k`. -/
def sampleLookup (record : ApiKeyRecord) (keyId : String) :
    Except AuthError (Option ApiKeyRecord) :=
  .ok (if keyId = "k" then some record else none)

/-- `n` times the letter a. -/
def letters (n : ℕ) : String := String.ofList (List.replicate n 'a')

theorem length_letters (n : ℕ) : (letters n).length = n := by
  rw [letters, String.length_ofList, List.length_replicate]

theorem tokenText_letters {n : ℕ} (hpos : 1 ≤ n) (hle : n ≤ 4096) :
    tokenText (letters n) 4096 = true := by
  refine tokenText_eq_true.mpr ⟨?_, ?_, fun c hc => ?_⟩
  · rwa [length_letters]
  · rwa [length_letters]
  · rw [letters, String.toList_ofList] at hc
    obtain rfl := List.eq_of_mem_replicate hc
    decide

theorem fromSecret_letters (hash : Sha256) {n : ℕ} (hlong : 32 ≤ n) (hle : n ≤ 4096) :
    ∃ record, fromSecret hash "service" (letters n) none = .ok record := by
  have htext := tokenText_letters (Nat.le_trans (by decide) hlong) hle
  have hlength : ¬ (letters n).length < 32 := by
    rw [length_letters]
    omega
  have hidentity : identity "service" = true := by decide +kernel
  unfold fromSecret
  rw [dif_pos hidentity, if_neg (by simp [htext, hlength])]
  exact ⟨_, rfl⟩

theorem isKeyId_k : IsKeyId "k" := by
  refine ⟨by decide, by decide, fun c hc => ?_⟩
  obtain rfl : c = 'k' := by simpa using hc
  decide

theorem live_pinned {secret digest : String} {h : isHexDigest digest = true}
    {record : ApiKeyRecord} (hne : String.ofList (List.replicate 64 '0') ≠ digest)
    (hexpires : record.expiresAt = none) :
    Live (pinned secret digest h) (sampleLookup record) 0 "k" secret record where
  found := rfl
  others other hother := by simp [sampleLookup, hother]
  unexpired t ht := by simp [hexpires] at ht
  no_collision text hdigest := by
    by_contra hother
    simp only [pinned, if_neg hother, if_true] at hdigest
    exact hne hdigest

/-- A secret that is issued, of 4095 characters, and the digest it has. -/
theorem long_key_rejected :
    ∃ hash record, fromSecret hash "service" (letters 4095) none = .ok record ∧
      IsKeyId "k" ∧ Live hash (sampleLookup record) 0 "k" (letters 4095) record ∧
      (∃ headers, credentialHeaders none (some (keyText "k" (letters 4095))) "X-API-Key" =
        .ok headers) ∧
      ¬ Authenticates sampleAuth (validate hash (sampleLookup record) 0) true
        (keyText "k" (letters 4095)) "service" := by
  have htext := tokenText_letters (n := 4095) (by decide) (by decide)
  let hash := pinned (letters 4095)
    "e2e8bab8dad4a3879ffed30a624fee2310f39141d454c57f89e908e527dfd8cd" (by decide +kernel)
  obtain ⟨record, hissue⟩ := fromSecret_letters hash (n := 4095) (by decide) (by decide)
  refine ⟨hash, record, hissue, isKeyId_k, live_pinned (by decide +kernel)
    (issued_of_fromSecret hissue).expires_eq, ⟨_, credentialHeaders_keyText sampleAuth isKeyId_k
      htext⟩, ?_⟩
  apply not_authenticates_keyText sampleAuth _ isKeyId_k htext fun _ => rfl
  rw [length_letters]
  decide

/-- A key with a secret of 32 characters. -/
theorem issued_key_authenticates_iff_short : ∃ hash record,
    fromSecret hash "service" (letters 32) none = .ok record ∧
      Authenticates sampleAuth (validate hash (sampleLookup record) 0) true
        (keyText "k" (letters 32)) "service" := by
  let hash := pinned (letters 32)
    "3ba3f5f43b92602683c19aee62a20342b084dd5971ddd33808d81a328879a547" (by decide +kernel)
  obtain ⟨record, hissue⟩ := fromSecret_letters hash (n := 32) (by decide) (by decide)
  have hlive : Live hash (sampleLookup record) 0 "k" (letters 32) record :=
    live_pinned (by decide +kernel) (issued_of_fromSecret hissue).expires_eq
  have hiff := issued_key_authenticates_iff hash "service" (letters 32) "k" none record
    (sampleLookup record) 0 sampleAuth true hissue isKeyId_k hlive fun _ => rfl
  have hlength : "k".length + 1 + (letters 32).length ≤ 4096 := by
    rw [length_letters]
    decide
  exact ⟨hash, record, hissue, (hiff.mpr hlength).1⟩

end WireRpc.Credentials
