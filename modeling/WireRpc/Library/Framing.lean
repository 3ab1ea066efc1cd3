import Mathlib.Tactic

/-!
# Length-prefixed frames

A stream of codewords can be read in one way only when no codeword is a prefix
of another. Frames with a big-endian length in front are such a code, and
neither a frame that was cut short nor one with another length starts with one
of them.
-/
namespace WireRpc.Library.Framing

/-- The number in `width` bytes, the most significant byte first. -/
def toBytes : ℕ → ℕ → List UInt8
  | 0, _ => []
  | width + 1, n => toBytes width (n / 256) ++ [UInt8.ofNat n]

def fromBytes (bytes : List UInt8) : ℕ := bytes.foldl (fun n b => 256 * n + b.toNat) 0

@[simp] theorem length_toBytes (width n : ℕ) : (toBytes width n).length = width := by
  induction width generalizing n with
  | zero => rfl
  | succ width ih => simp [toBytes, ih]

theorem fromBytes_concat (bytes : List UInt8) (b : UInt8) :
    fromBytes (bytes ++ [b]) = 256 * fromBytes bytes + b.toNat := by
  simp [fromBytes]

theorem fromBytes_toBytes {width n : ℕ} (h : n < 256 ^ width) :
    fromBytes (toBytes width n) = n := by
  induction width generalizing n with
  | zero =>
    rw [pow_zero] at h
    show 0 = n
    omega
  | succ width ih =>
    have hdiv : n / 256 < 256 ^ width := by
      rw [pow_succ] at h
      omega
    rw [toBytes, fromBytes_concat, ih hdiv, UInt8.toNat_ofNat']
    omega

theorem toBytes_fromBytes (bytes : List UInt8) :
    toBytes bytes.length (fromBytes bytes) = bytes := by
  induction bytes using List.reverseRecOn with
  | nil => rfl
  | append_singleton bytes b ih =>
    have hb := b.toNat_lt
    have hdiv : (256 * fromBytes bytes + b.toNat) / 256 = fromBytes bytes := by omega
    have hbyte : UInt8.ofNat (256 * fromBytes bytes + b.toNat) = b := by
      apply UInt8.toNat_inj.mp
      rw [UInt8.toNat_ofNat']
      omega
    rw [fromBytes_concat, List.length_append, List.length_singleton, toBytes, hdiv, hbyte, ih]

section
variable {α β : Type*} {encode : α → List β} {Valid : α → Prop}

/-- No codeword is a prefix of another one. -/
def PrefixFree (encode : α → List β) (Valid : α → Prop) : Prop :=
  ∀ a b, Valid a → Valid b → encode a <+: encode b → a = b

/-- Whatever can be read from the front of a stream of codewords is what was
written there, when no codeword starts what follows them. -/
theorem PrefixFree.prefix_of_stream (hfree : PrefixFree encode Valid) {read written : List α}
    {tail : List β} (hread : ∀ a ∈ read, Valid a) (hwritten : ∀ a ∈ written, Valid a)
    (htail : ∀ a ∈ read, ¬ encode a <+: tail)
    (h : read.flatMap encode <+: written.flatMap encode ++ tail) : read <+: written := by
  induction read generalizing written with
  | nil => exact List.nil_prefix
  | cons a read ih =>
    rw [List.flatMap_cons] at h
    have hfirst := (List.prefix_append _ _).trans h
    cases written with
    | nil => exact absurd (by simpa using hfirst) (htail a List.mem_cons_self)
    | cons b written =>
      rw [List.flatMap_cons, List.append_assoc] at h hfirst
      have ha := hread a List.mem_cons_self
      have hb := hwritten b List.mem_cons_self
      have hab : a = b := by
        obtain hle | hle := List.prefix_or_prefix_of_prefix hfirst (List.prefix_append _ _)
        · exact hfree a b ha hb hle
        · exact (hfree b a hb ha hle).symm
      subst b
      rw [List.prefix_append_right_inj] at h
      have hrest := ih (fun x hx => hread x (List.mem_cons_of_mem _ hx))
        (fun x hx => hwritten x (List.mem_cons_of_mem _ hx))
        (fun x hx => htail x (List.mem_cons_of_mem _ hx)) h
      exact (List.prefix_cons_inj a).mpr hrest

end

/-- A payload behind its length. -/
def frame (width : ℕ) (payload : List UInt8) : List UInt8 :=
  toBytes width payload.length ++ payload

section
variable {width : ℕ} {payload : List UInt8}

@[simp] theorem length_frame : (frame width payload).length = width + payload.length := by
  simp [frame]

/-- The length in front of a stream that starts with a frame. -/
theorem fromBytes_take_of_frame_prefix {stream : List UInt8} (h : payload.length < 256 ^ width)
    (hpre : frame width payload <+: stream) :
    fromBytes (stream.take width) = payload.length := by
  obtain ⟨rest, rfl⟩ := hpre
  rw [frame, List.append_assoc, List.take_left' (length_toBytes ..), fromBytes_toBytes h]

theorem frame_prefixFree :
    PrefixFree (frame width) fun payload => payload.length < 256 ^ width := by
  intro a b ha hb hpre
  have hlen : a.length = b.length := by
    rw [← fromBytes_take_of_frame_prefix ha hpre,
      fromBytes_take_of_frame_prefix hb List.prefix_rfl]
  have hframes : frame width a = frame width b :=
    hpre.eq_of_length (by rw [length_frame, length_frame, hlen])
  rw [frame, frame, hlen] at hframes
  exact List.append_cancel_left hframes

/-- No frame starts a frame that was cut short. -/
theorem not_frame_prefix_take {other : List UInt8} {n : ℕ} (h : payload.length < 256 ^ width)
    (hother : other.length < 256 ^ width) (hn : n < (frame width other).length) :
    ¬ frame width payload <+: (frame width other).take n := by
  intro hpre
  have heq := frame_prefixFree _ _ h hother (hpre.trans (List.take_prefix ..))
  subst heq
  have hle := hpre.length_le
  rw [List.length_take] at hle
  omega

/-- No frame starts a stream with another length in front. -/
theorem not_frame_prefix_of_header {header rest : List UInt8} (h : payload.length < 256 ^ width)
    (hheader : header.length = width) (hlength : fromBytes header ≠ payload.length) :
    ¬ frame width payload <+: header ++ rest := by
  intro hpre
  have hfront := fromBytes_take_of_frame_prefix h hpre
  rw [List.take_left' hheader] at hfront
  exact hlength hfront

/-- A header and as many bytes as it says make a frame. -/
theorem frame_of_header {header : List UInt8} (hheader : header.length = width)
    (hpayload : payload.length = fromBytes header) : frame width payload = header ++ payload := by
  rw [frame, hpayload, ← hheader, toBytes_fromBytes]

end

end WireRpc.Library.Framing
