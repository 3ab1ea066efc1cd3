import WireRpc.Library.Json

/-!
# Codecs

A codec turns messages into bytes and back. `none` is the `CodecError` it
raises instead. Codecs are third-party code, so what the server and the client
rely on is stated as properties of a codec, and the JSON codec is shown to
have every one of them.
-/
namespace WireRpc
open Library

abbrev Bytes := List UInt8

structure Codec where
  encode : Json → Option Bytes
  decode : Bytes → Option Json

namespace Codec

/-- Whatever is encoded decodes to the same value. -/
def RoundTrips (c : Codec) : Prop :=
  ∀ v b, c.encode v = some b → c.decode b = some v

/-- A list of values the codec encodes is itself encoded. -/
def EncodesLists (c : Codec) : Prop :=
  ∀ vs, (∀ v ∈ vs, (c.encode v).isSome) → (c.encode (.arr vs)).isSome

/-- Decoding a message and encoding the value again keeps its length. -/
def KeepsLength (c : Codec) : Prop :=
  ∀ v b v' b', c.encode v = some b → c.decode b = some v' → c.encode v' = some b' →
    b'.length = b.length

/-- How many bytes a value costs at most. A list or an object is encoded with
its parts, and adds a bounded number of bytes for each part and for itself. -/
structure BoundedCost (c : Codec) : Prop where
  null : ∀ b, c.encode .null = some b → b.length ≤ 4
  int : ∀ n b, -2 ^ 63 ≤ n → n < 2 ^ 63 → c.encode (.int n) = some b → b.length ≤ 20
  str : ∀ s b, c.encode (.str s) = some b → b.length ≤ 6 * s.length + 2
  arr : ∀ vs b, c.encode (.arr vs) = some b → ∃ bs,
    List.Forall₂ (fun v b => c.encode v = some b) vs bs ∧
    b.length ≤ (bs.map List.length).sum + bs.length + 8
  obj : ∀ fs b, c.encode (.obj fs) = some b → ∃ bs, List.Forall₂ (fun (f : String × Json) b =>
      ∃ k v, c.encode (.str f.1) = some k ∧ c.encode f.2 = some v ∧ b = k ++ v) fs bs ∧
    b.length ≤ (bs.map List.length).sum + 2 * bs.length + 8

end Codec

/-- The JSON codec on the compact text that encoders write. Of a key that comes twice it finds the
first value where the library takes the last, and it writes and reads a float as an integer with
an exponent only. -/
def msgSpecJsonCodec : Codec where
  encode v := some (Json.encode v)
  decode := Json.decode

theorem msgSpecJsonCodec_roundTrips : msgSpecJsonCodec.RoundTrips := by
  rintro v b ⟨⟩
  exact Json.decode_encode v

theorem msgSpecJsonCodec_encodesLists : msgSpecJsonCodec.EncodesLists := fun _ _ => rfl

theorem msgSpecJsonCodec_keepsLength : msgSpecJsonCodec.KeepsLength := by
  rintro v b v' b' hb hv hb'
  obtain rfl : v = v' := Option.some.inj ((msgSpecJsonCodec_roundTrips v b hb).symm.trans hv)
  obtain rfl : b = b' := Option.some.inj (hb.symm.trans hb')
  rfl

theorem msgSpecJsonCodec_boundedCost : msgSpecJsonCodec.BoundedCost where
  null := by rintro b ⟨⟩; exact Json.length_encode_null.le
  int := by rintro n b hlo hhi ⟨⟩; exact Json.length_encode_int_le hlo (by omega)
  str := by rintro s b ⟨⟩; exact Json.length_encode_str_le s
  arr := by
    rintro vs b ⟨⟩
    refine ⟨vs.map Json.encode, ?_, ?_⟩
    · rw [List.forall₂_map_right_iff]
      exact List.forall₂_same.mpr fun v _ => rfl
    · rw [Json.length_encode_arr]
      simp only [List.map_map, Function.comp_def, List.length_map]
      omega
  obj := by
    rintro fs b ⟨⟩
    refine ⟨fs.map fun f => Json.encode (.str f.1) ++ Json.encode f.2, ?_, ?_⟩
    · rw [List.forall₂_map_right_iff]
      exact List.forall₂_same.mpr fun f _ => ⟨_, _, rfl, rfl, rfl⟩
    · have hsum : (fs.map fun f =>
            (Json.encode (.str f.1)).length + 1 + (Json.encode f.2).length).sum =
          (fs.map fun f => (Json.encode (.str f.1) ++ Json.encode f.2).length).sum + fs.length := by
        induction fs with
        | nil => rfl
        | cons f fs ih =>
          simp only [List.map_cons, List.sum_cons, ih, List.length_append, List.length_cons]
          omega
      rw [Json.length_encode_obj, hsum]
      simp only [List.map_map, Function.comp_def, List.length_map]
      omega

end WireRpc
