import WireRpc.Replies

/-!
# The reply always fits

Error envelopes are bounded because ids and messages are, and a batch keeps
room for the fallback of every item it has not finished. So whatever the
handlers return, the encoded reply stays within `maxResponseSize`.
-/
namespace WireRpc
open Library

namespace Codec

/-- The codec encodes the value in at most `n` bytes, if it encodes it at all. -/
def Costs (c : Codec) (v : Json) (n : ℕ) : Prop := ∀ b, c.encode v = some b → b.length ≤ n

variable {c : Codec}

namespace BoundedCost

variable (h : c.BoundedCost)
include h

/-- The bytes of a member, key and value together. -/
theorem length_fields_le {fs : List (String × Json)} {ns : List ℕ} {bs : List Bytes}
    (hns : List.Forall₂ (fun (f : String × Json) n => c.Costs f.2 n) fs ns)
    (hbs : List.Forall₂ (fun (f : String × Json) b =>
      ∃ k v, c.encode (.str f.1) = some k ∧ c.encode f.2 = some v ∧ b = k ++ v) fs bs) :
    (bs.map List.length).sum ≤ (fs.map fun f => 6 * f.1.length + 2).sum + ns.sum := by
  induction hns generalizing bs with
  | nil => cases hbs; simp
  | @cons f n fs ns hn _ ih =>
    cases hbs with
    | cons hb htail =>
      obtain ⟨k, v, hk, hv, rfl⟩ := hb
      have hkey := h.str _ _ hk
      have hvalue := hn _ hv
      have hrest := ih htail
      simp only [List.map_cons, List.sum_cons, List.length_append]
      omega

/-- An object costs what its members cost, and a few bytes for each. -/
theorem costs_obj {fs : List (String × Json)} (keys : List String) (ns : List ℕ) {n : ℕ}
    (hkeys : fs.map Prod.fst = keys)
    (hns : List.Forall₂ (fun (f : String × Json) n => c.Costs f.2 n) fs ns)
    (hn : (keys.map fun k => 6 * k.length + 2).sum + ns.sum + 2 * keys.length + 8 ≤ n) :
    c.Costs (.obj fs) n := by
  intro b hb
  subst hkeys
  obtain ⟨bs, hbs, hle⟩ := h.obj fs b hb
  have hsum := length_fields_le h hns hbs
  have hlen := hbs.length_eq
  simp only [List.map_map, Function.comp_def, List.length_map] at hn
  omega

theorem costs_id {i : RequestId} (hi : i.Allowed) : c.Costs i.toJson 1532 := by
  intro b hb
  cases i with
  | null => exact (h.null b hb).trans (by norm_num)
  | int n =>
    obtain ⟨hlo, hhi⟩ := hi
    exact (h.int n b hlo (by omega) hb).trans (by norm_num)
  | str s =>
    have hs : s.length ≤ 255 := hi
    have hb := h.str s b hb
    omega

theorem costs_code {n : ℤ} (hn : -40000 ≤ n ∧ n ≤ 0) : c.Costs (.int n) 20 :=
  fun b hb => h.int n b (by omega) (by omega) hb

/-- The longest message of the library has 34 characters. -/
theorem costs_message {m : String} (hm : m.length ≤ 34) : c.Costs (.str m) 206 := by
  intro b hb
  have hb := h.str m b hb
  omega

theorem costs_error {kind : ErrorKind} {m : String} (hk : -40000 ≤ kind.code ∧ kind.code ≤ 0)
    (hm : m.length ≤ 34) : c.Costs (WireError.toJson ⟨kind, m, .null⟩) 340 := by
  have hmessage := costs_message h hm
  have hcode := costs_code h hk
  have hnull : c.Costs .null 4 := h.null
  cases kind with
  | server code =>
    exact costs_obj h ["message", "code", "data"] [206, 20, 4] rfl
      (.cons hmessage (.cons hcode (.cons hnull .nil))) (by decide)
  | _ =>
    exact costs_obj h ["message", "data", "code"] [206, 4, 20] rfl
      (.cons hmessage (.cons hnull (.cons hcode .nil))) (by decide)

/-- Every error envelope fits the least response budget. -/
theorem costs_errorJson {kind : ErrorKind} {m : String} (i : RequestId)
    (hk : -40000 ≤ kind.code ∧ kind.code ≤ 0) (hm : m.length ≤ 34) (hi : i.Allowed) :
    c.Costs (WireResponse.errorJson ⟨kind, m, .null⟩ i) 2048 := by
  have hversion : c.Costs (.str "2.0") 20 := h.str "2.0"
  exact costs_obj h ["error", "id", "jsonrpc"] [340, 1532, 20] rfl
    (.cons (costs_error h hk hm) (.cons (costs_id h hi) (.cons hversion .nil))) (by decide)

/-- A list whose values cost what the replies they were decoded from cost. -/
theorem length_arr_le (hkeep : c.KeepsLength) {replies : List Bytes} {values : List Json}
    {b : Bytes} (henc : ∀ r ∈ replies, ∃ v, c.encode v = some r)
    (hdec : List.Forall₂ (fun r v => c.decode r = some v) replies values)
    (hb : c.encode (.arr values) = some b) :
    b.length ≤ (replies.map List.length).sum + replies.length + 8 := by
  obtain ⟨bs, hbs, hle⟩ := h.arr values b hb
  have hsame : replies.map List.length = bs.map List.length := by
    clear hb hle
    induction hdec generalizing bs with
    | nil => cases hbs; rfl
    | @cons r v replies values hv _ ih =>
      cases hbs with
      | cons hb htail =>
        obtain ⟨v₀, hv₀⟩ := henc r (by simp)
        have hhead := hkeep v₀ r v _ hv₀ hv hb
        have hrest := ih (fun r hr => henc r (List.mem_cons_of_mem _ hr)) _ htail
        simp only [List.map_cons, hhead, hrest]
  have hlen := hbs.length_eq.symm.trans hdec.length_eq.symm
  rw [hsame]
  omega

end BoundedCost
end Codec

namespace Execution

variable {W : Type} {app : ExecutionHost W} {dispatch : Dispatch W} {deadline : ℕ}
  {clientId : Option String}

/-- The sanitized errors have short messages and small codes. -/
theorem errorFor_bounds (e : Failure) :
    (errorFor e).data = .null ∧ (errorFor e).message.length ≤ 34 ∧
      -40000 ≤ (errorFor e).code ∧ (errorFor e).code ≤ 0 := by
  cases e <;> exact ⟨rfl, by decide⟩

theorem length_errorFor_le (h : app.codec.BoundedCost) {e : Failure} {i : RequestId} {b : Bytes}
    (hi : i.Allowed) (hb : app.codec.encodeResponse (.error (errorFor e) i) = some b) :
    b.length ≤ app.maxResponseSize := by
  obtain ⟨hdata, hmessage, hcode⟩ := errorFor_bounds e
  refine le_trans (Codec.BoundedCost.costs_errorJson h i hcode hmessage hi b ?_) app.response_budget
  rw [← hdata]
  exact hb

theorem length_answered_le (h : app.codec.BoundedCost) {request : RawWireRequest}
    {outcome : Outcome WireResponse} {b : Bytes} (hi : request.responseId.Allowed)
    (hb : app.codec.encodeResponse (answered app request outcome) = some b) :
    b.length ≤ app.maxResponseSize := by
  cases outcome with
  | cancelled => exact length_errorFor_le h hi hb
  | raised e => exact length_errorFor_le h hi hb
  | value response =>
    simp only [answered] at hb
    split at hb
    · split_ifs at hb with hlong
      · exact length_errorFor_le h hi hb
      · simp_all
    · exact length_errorFor_le h hi hb

theorem length_invalidRequest_le (h : app.codec.BoundedCost) {b : Bytes}
    (hb : app.codec.encodeResponse invalidRequest = some b) : b.length ≤ app.maxResponseSize :=
  (Codec.BoundedCost.costs_errorJson h .null (by decide) (by decide) trivial b hb).trans
    app.response_budget

theorem length_processOne_le (h : app.codec.BoundedCost) {item : Json} {s s' : State W} {b : Bytes}
    (hp : processOne app dispatch deadline clientId item s = (s', .value (some b))) :
    b.length ≤ app.maxResponseSize := by
  obtain ⟨-, hnone⟩ | ⟨a, own, ha, hb, hown⟩ := processOne_value hp
  · cases hnone
  · obtain rfl := Option.some.inj hown
    unfold answerOf at ha
    cases hv : validate item with
    | none =>
      simp only [hv, Option.some.injEq] at ha
      subst ha
      exact length_invalidRequest_le h hb
    | some request =>
      simp only [hv] at ha
      split_ifs at ha
      obtain rfl := Option.some.inj ha
      exact length_answered_le h (validate_allowed hv) hb

theorem length_processBatch_le (h : app.codec.BoundedCost) (hkeep : app.codec.KeepsLength)
    {items : List Json} {s s' : State W} {b : Bytes}
    (hp : processBatch app dispatch deadline clientId items s = (s', .value (some b))) :
    b.length ≤ app.maxResponseSize := by
  by_cases hr : Refused app items
  · rw [processBatch_of_refused hr, refuseBatch, Prod.mk.injEq] at hp
    obtain ⟨own, hown, hb⟩ := encodeReply_eq_value.mp hp.2
    obtain rfl := Option.some.inj hb
    exact length_invalidRequest_le h hown
  · obtain ⟨fallbacks, replies, hf, hsends, hsum, hjoin⟩ := processBatch_value hr hp
    obtain ⟨-, values, hdec, hb⟩ := joinReplies_eq_some.mp hjoin
    have hlen := Codec.BoundedCost.length_arr_le h hkeep (fun r hr => hsends.encoded hr) hdec hb
    have hcount : replies.length ≤ items.length :=
      hsends.length_le.trans_eq
        ((List.length_map ..).symm.trans (congrArg List.length (map_fst_answers items s)))
    omega

/-- Whatever arrives and however the handlers end, a reply that is sent fits. -/
theorem length_process_le (app : ExecutionHost W) (dispatch : Dispatch W)
    (clientId : Option String) (h : app.codec.BoundedCost) (hkeep : app.codec.KeepsLength)
    (data : Bytes) (s s' : State W) (b : Bytes)
    (hp : process app dispatch clientId data s = (s', .value (some b))) :
    b.length ≤ app.maxResponseSize := by
  cases hd : app.codec.decode data with
  | none =>
    rw [process_of_not_decode hd, Prod.mk.injEq] at hp
    obtain ⟨own, hown, hb⟩ := encodeReply_eq_value.mp hp.2
    obtain rfl := Option.some.inj hb
    exact (Codec.BoundedCost.costs_errorJson h .null (by decide) (by decide) trivial b hown).trans
      app.response_budget
  | some envelope =>
    rw [process_of_decode hd] at hp
    by_cases harr : ∃ items, envelope = .arr items
    · obtain ⟨items, rfl⟩ := harr
      exact length_processBatch_le h hkeep hp
    · rw [processEnvelope_of_ne_arr (not_exists.mp harr)] at hp
      exact length_processOne_le h hp

def internalErrors : Bytes :=
  Json.encode (.arr [
    WireResponse.errorJson ⟨.internal, "Internal server error", .null⟩ (.int 7),
    WireResponse.errorJson ⟨.internal, "Internal server error", .null⟩ (.int 8)])

/-- A batch of calls whose handler raises, at the least budget. -/
theorem length_process_le_call : ∃ s',
    process (leastHost 2) failing none (Json.encode (.arr [callItem 7, callItem 8])) initial =
      (s', .value (some internalErrors)) ∧ internalErrors.length ≤ 2048 := by
  have hrun : (process (leastHost 2) failing none
      (Json.encode (.arr [callItem 7, callItem 8])) initial).2 = .value (some internalErrors) := by
    rw [process_of_decode (msgSpecJsonCodec_roundTrips _ _ rfl)]
    decide +kernel
  cases hp : process (leastHost 2) failing none
      (Json.encode (.arr [callItem 7, callItem 8])) initial with
  | mk s' outcome =>
    rw [hp] at hrun
    obtain rfl : outcome = .value (some internalErrors) := hrun
    exact ⟨s', rfl, length_process_le (leastHost 2) failing none msgSpecJsonCodec_boundedCost
      msgSpecJsonCodec_keepsLength _ initial s' internalErrors hp⟩

end Execution
end WireRpc
