import Mathlib.Tactic

/-!
# JSON values and their compact text

A JSON value is a finite tree. `print` writes the compact text, without
insignificant space, and `encode` its UTF-8 bytes. `decode` reads compact text
back, `decode_encode` is the round trip. The cost lemmas bound the bytes of
each kind of value by the bytes of its parts.
-/
namespace WireRpc.Library

/-- A number with a fraction or an exponent is kept as `mantissa * 10 ^ exponent`. -/
inductive Json where
  | null
  | bool (b : Bool)
  | int (n : ℤ)
  | float (mantissa exponent : ℤ)
  | str (s : String)
  | arr (items : List Json)
  | obj (fields : List (String × Json))
  deriving Repr, Inhabited

namespace Json

/-- Induction on a value, with one hypothesis for every item and every field. -/
@[elab_as_elim] theorem induction {P : Json → Prop} (null : P .null) (bool : ∀ b, P (.bool b))
    (int : ∀ n, P (.int n)) (float : ∀ m e, P (.float m e)) (str : ∀ s, P (.str s))
    (arr : ∀ xs, (∀ x ∈ xs, P x) → P (.arr xs))
    (obj : ∀ fs, (∀ f ∈ fs, P f.2) → P (.obj fs)) (j : Json) : P j :=
  Json.rec (motive_1 := P) (motive_2 := fun xs => ∀ x ∈ xs, P x)
    (motive_3 := fun fs => ∀ f ∈ fs, P f.2) (motive_4 := fun f => P f.2)
    null bool int float str arr obj
    (List.forall_mem_nil _) (fun _ _ hx hxs => List.forall_mem_cons.mpr ⟨hx, hxs⟩)
    (List.forall_mem_nil _) (fun _ _ hf hfs => List.forall_mem_cons.mpr ⟨hf, hfs⟩)
    (fun _ _ h => h) j

/-- The first value under a key. -/
def get? (fields : List (String × Json)) (key : String) : Option Json := fields.lookup key

@[simp] theorem get?_nil (key : String) : get? [] key = none := rfl

@[simp] theorem get?_cons (k : String) (v : Json) (fields : List (String × Json)) (key : String) :
    get? ((k, v) :: fields) key = if key = k then some v else get? fields key := by
  by_cases h : key = k
  · simp [get?, h]
  · simp only [get?, List.lookup_cons, if_neg h]
    rw [beq_false_of_ne h]

/-- The member of an object; a value that is no object has none. -/
def member : Json → String → Option Json
  | .obj fields, key => get? fields key
  | _, _ => none

@[simp] theorem member_obj (fields : List (String × Json)) (key : String) :
    (obj fields).member key = get? fields key := rfl

/-- The letter of a two-character escape. -/
def shortEscape (c : Char) : Option Char :=
  if c = '"' then some '"'
  else if c = '\\' then some '\\'
  else if c = '\x08' then some 'b'
  else if c = '\t' then some 't'
  else if c = '\n' then some 'n'
  else if c = '\x0c' then some 'f'
  else if c = '\r' then some 'r'
  else none

/-- Control characters without a short escape take six characters. -/
def escape (c : Char) : List Char :=
  match shortEscape c with
  | some e => ['\\', e]
  | none =>
    if c.toNat < 32 then
      ['\\', 'u', '0', '0', Nat.digitChar (c.toNat / 16), Nat.digitChar (c.toNat % 16)]
    else [c]

def printStr (s : String) : List Char := '"' :: s.toList.flatMap escape ++ ['"']

def printInt : ℤ → List Char
  | .ofNat n => Nat.toDigits 10 n
  | .negSucc n => '-' :: Nat.toDigits 10 (n + 1)

def between (opening closing : Char) (parts : List (List Char)) : List Char :=
  opening :: List.intercalate [','] parts ++ [closing]

mutual

def print : Json → List Char
  | .null => ['n', 'u', 'l', 'l']
  | .bool true => ['t', 'r', 'u', 'e']
  | .bool false => ['f', 'a', 'l', 's', 'e']
  | .int n => printInt n
  | .float m e => printInt m ++ 'e' :: printInt e
  | .str s => printStr s
  | .arr items => between '[' ']' (printItems items)
  | .obj fields => between '{' '}' (printFields fields)

def printItems : List Json → List (List Char)
  | [] => []
  | x :: xs => print x :: printItems xs

def printFields : List (String × Json) → List (List Char)
  | [] => []
  | f :: fs => printField f :: printFields fs

def printField : String × Json → List Char
  | (k, v) => printStr k ++ ':' :: print v

end

@[simp] theorem printItems_eq (xs : List Json) : printItems xs = xs.map print := by
  induction xs with
  | nil => rfl
  | cons x xs ih => simp [printItems, ih]

@[simp] theorem printFields_eq (fs : List (String × Json)) :
    printFields fs = fs.map printField := by
  induction fs with
  | nil => rfl
  | cons f fs ih => simp [printFields, ih]

/-- The UTF-8 bytes of the compact text. -/
def encode (j : Json) : List UInt8 := (print j).flatMap String.utf8EncodeChar

example : print (.obj [("id", .int (-7)), ("ok", .arr [.null, .bool true])]) =
    "\x7b\"id\":-7,\"ok\":[null,true]\x7d".toList := by decide

/-- The character a two-character escape stands for. -/
def unescape (c : Char) : Option Char :=
  if c = '"' then some '"'
  else if c = '\\' then some '\\'
  else if c = '/' then some '/'
  else if c = 'b' then some '\x08'
  else if c = 't' then some '\t'
  else if c = 'n' then some '\n'
  else if c = 'f' then some '\x0c'
  else if c = 'r' then some '\r'
  else none

def hexValue (c : Char) : Option ℕ :=
  if c.isDigit then some (c.toNat - '0'.toNat)
  else if 'a' ≤ c ∧ c ≤ 'f' then some (c.toNat - 'a'.toNat + 10)
  else if 'A' ≤ c ∧ c ≤ 'F' then some (c.toNat - 'A'.toNat + 10)
  else none

/-- The text of a string after its opening quote, and what follows its closing one. -/
def readChars : List Char → Option (List Char × List Char)
  | [] => none
  | '"' :: rest => some ([], rest)
  | '\\' :: 'u' :: a :: b :: c :: d :: rest =>
    match hexValue a, hexValue b, hexValue c, hexValue d with
    | some a, some b, some c, some d =>
      (readChars rest).map fun r => (Char.ofNat (((a * 16 + b) * 16 + c) * 16 + d) :: r.1, r.2)
    | _, _, _, _ => none
  | '\\' :: e :: rest =>
    match unescape e with
    | some c => (readChars rest).map fun r => (c :: r.1, r.2)
    | none => none
  | c :: rest => (readChars rest).map fun r => (c :: r.1, r.2)

def readNat (cs : List Char) : Option (ℕ × List Char) :=
  match cs.takeWhile Char.isDigit with
  | [] => none
  | ds => some (Nat.ofDigitChars 10 ds 0, cs.dropWhile Char.isDigit)

def readInt : List Char → Option (ℤ × List Char)
  | '-' :: cs => (readNat cs).map fun r => (-r.1, r.2)
  | cs => (readNat cs).map fun r => (r.1, r.2)

def readNumber (cs : List Char) : Option (Json × List Char) :=
  match readInt cs with
  | none => none
  | some (m, 'e' :: rest) => (readInt rest).map fun r => (.float m r.1, r.2)
  | some (m, rest) => some (.int m, rest)

mutual

/-- Read one value from the front of a text. Each call spends one unit of fuel. -/
def read : ℕ → List Char → Option (Json × List Char)
  | 0, _ => none
  | _ + 1, 'n' :: 'u' :: 'l' :: 'l' :: rest => some (.null, rest)
  | _ + 1, 't' :: 'r' :: 'u' :: 'e' :: rest => some (.bool true, rest)
  | _ + 1, 'f' :: 'a' :: 'l' :: 's' :: 'e' :: rest => some (.bool false, rest)
  | _ + 1, '"' :: rest => (readChars rest).map fun r => (.str (String.ofList r.1), r.2)
  | _ + 1, '[' :: ']' :: rest => some (.arr [], rest)
  | fuel + 1, '[' :: rest => (readItems fuel rest).map fun r => (.arr r.1, r.2)
  | _ + 1, '{' :: '}' :: rest => some (.obj [], rest)
  | fuel + 1, '{' :: rest => (readFields fuel rest).map fun r => (.obj r.1, r.2)
  | _ + 1, cs => readNumber cs

def readItems : ℕ → List Char → Option (List Json × List Char)
  | 0, _ => none
  | fuel + 1, cs =>
    match read fuel cs with
    | some (x, ',' :: rest) => (readItems fuel rest).map fun r => (x :: r.1, r.2)
    | some (x, ']' :: rest) => some ([x], rest)
    | _ => none

def readFields : ℕ → List Char → Option (List (String × Json) × List Char)
  | 0, _ => none
  | fuel + 1, '"' :: cs =>
    match readChars cs with
    | some (k, ':' :: rest) =>
      match read fuel rest with
      | some (v, ',' :: rest) =>
        (readFields fuel rest).map fun r => ((String.ofList k, v) :: r.1, r.2)
      | some (v, '}' :: rest) => some ([(String.ofList k, v)], rest)
      | _ => none
    | _ => none
  | _ + 1, _ => none

end

/-- The value of a whole text. The text's own length is fuel enough for what `print` writes. -/
def parse (cs : List Char) : Option Json :=
  match read (cs.length + 1) cs with
  | some (j, []) => some j
  | _ => none

def decode (bytes : List UInt8) : Option Json :=
  bytes.toByteArray.utf8Decode?.bind fun cs => parse cs.toList

theorem readChars_plain {c : Char} (hq : c ≠ '"') (hb : c ≠ '\\') (rest : List Char) :
    readChars (c :: rest) = (readChars rest).map fun r => (c :: r.1, r.2) := by
  rw [readChars]
  · exact fun h => hq h
  · intro a b c d rest h
    exact fun _ => hb h
  · intro e rest h
    exact fun _ => hb h

/-- The control characters are finitely many, so each is read back by computation. -/
theorem readChars_control {n : ℕ} (hn : n < 32) (rest : List Char) :
    readChars (escape (Char.ofNat n) ++ rest) =
      (readChars rest).map fun r => (Char.ofNat n :: r.1, r.2) := by
  interval_cases n <;> rfl

theorem readChars_escape (c : Char) (rest : List Char) :
    readChars (escape c ++ rest) = (readChars rest).map fun r => (c :: r.1, r.2) := by
  by_cases hc : c.toNat < 32
  · simpa using readChars_control hc rest
  · by_cases hq : c = '"'
    · subst hq; rfl
    by_cases hb : c = '\\'
    · subst hb; rfl
    have hs : shortEscape c = none := by
      have h8 : c ≠ '\x08' := by rintro rfl; exact hc (by decide)
      have h9 : c ≠ '\t' := by rintro rfl; exact hc (by decide)
      have h10 : c ≠ '\n' := by rintro rfl; exact hc (by decide)
      have h12 : c ≠ '\x0c' := by rintro rfl; exact hc (by decide)
      have h13 : c ≠ '\r' := by rintro rfl; exact hc (by decide)
      simp [shortEscape, hq, hb, h8, h9, h10, h12, h13]
    simp only [escape, hs, if_neg hc, List.singleton_append]
    exact readChars_plain hq hb rest

theorem readChars_flatMap (cs rest : List Char) :
    readChars (cs.flatMap escape ++ '"' :: rest) = some (cs, rest) := by
  induction cs with
  | nil => simp [readChars]
  | cons c cs ih => simp [List.append_assoc, readChars_escape, ih]

/-- What may follow a number: neither a digit nor an exponent. -/
def Stops (rest : List Char) : Prop :=
  ∀ c ∈ rest.head?, c.isDigit = false ∧ c ≠ 'e'

theorem stops_nil : Stops [] := by simp [Stops]

theorem stops_cons {c : Char} (hd : c.isDigit = false) (he : c ≠ 'e') (rest : List Char) :
    Stops (c :: rest) := by simp [Stops, hd, he]

theorem readNat_toDigits (n : ℕ) {rest : List Char} (h : ∀ c ∈ rest.head?, c.isDigit = false) :
    readNat (Nat.toDigits 10 n ++ rest) = some (n, rest) := by
  have hd : ∀ c ∈ Nat.toDigits 10 n, c.isDigit = true := fun c hc =>
    Nat.isDigit_of_mem_toDigits (by decide) (by decide) hc
  have htake : (Nat.toDigits 10 n ++ rest).takeWhile Char.isDigit = Nat.toDigits 10 n := by
    rw [List.takeWhile_append_of_pos hd]
    cases rest with
    | nil => simp
    | cons c rest => simp [h c (by simp)]
  have hdrop : (Nat.toDigits 10 n ++ rest).dropWhile Char.isDigit = rest := by
    rw [List.dropWhile_append_of_pos hd]
    cases rest with
    | nil => simp
    | cons c rest => simp [h c (by simp)]
  rw [readNat, htake, hdrop]
  cases hds : Nat.toDigits 10 n with
  | nil => exact absurd hds Nat.toDigits_ne_nil
  | cons d ds => rw [← hds]; simp

/-- A printed number starts with a sign or a digit. -/
theorem toDigits_eq_cons (n : ℕ) :
    ∃ d ds, Nat.toDigits 10 n = d :: ds ∧ d.isDigit = true := by
  cases hds : Nat.toDigits 10 n with
  | nil => exact absurd hds Nat.toDigits_ne_nil
  | cons d ds =>
    refine ⟨d, ds, rfl, ?_⟩
    exact Nat.isDigit_of_mem_toDigits (b := 10) (n := n) (by decide) (by decide) (by simp [hds])

theorem readInt_printInt (n : ℤ) {rest : List Char}
    (h : ∀ c ∈ rest.head?, c.isDigit = false) :
    readInt (printInt n ++ rest) = some (n, rest) := by
  cases n with
  | ofNat n =>
    obtain ⟨d, ds, hds, hd⟩ := toDigits_eq_cons n
    have hne : d ≠ '-' := by rintro rfl; exact absurd hd (by decide)
    have hread := readNat_toDigits n h
    simp only [printInt]
    rw [hds, List.cons_append] at hread ⊢
    rw [readInt, hread]
    · simp
    · exact fun cs he => hne (List.cons.inj he).1
  | negSucc n =>
    have hread := readNat_toDigits (n + 1) h
    simp only [printInt, List.cons_append, readInt, hread, Option.map_some, Int.negSucc_eq]
    norm_cast

theorem readNumber_int (n : ℤ) {rest : List Char} (h : Stops rest) :
    readNumber (printInt n ++ rest) = some (.int n, rest) := by
  rw [readNumber, readInt_printInt n (fun c hc => (h c hc).1)]
  cases rest with
  | nil => rfl
  | cons c rest =>
    have he : c ≠ 'e' := (h c (by simp)).2
    simp [he]

theorem readNumber_float (m e : ℤ) {rest : List Char} (h : Stops rest) :
    readNumber (printInt m ++ 'e' :: printInt e ++ rest) = some (.float m e, rest) := by
  rw [readNumber, List.append_assoc, readInt_printInt m (by simp)]
  simp only [List.cons_append, readInt_printInt e (fun c hc => (h c hc).1), Option.map_some]

/-- A printed number is not taken for a keyword, a string or a container. -/
theorem read_number {cs : List Char} (fuel : ℕ)
    (h : ∃ d ds, cs = d :: ds ∧ (d.isDigit = true ∨ d = '-')) :
    read (fuel + 1) cs = readNumber cs := by
  obtain ⟨d, ds, rfl, hd⟩ := h
  have hne : ∀ c : Char, c.isDigit = false → c ≠ '-' → d ≠ c := by
    rintro c hc hm rfl
    rcases hd with hd | hd
    · simp [hd] at hc
    · exact hm hd
  rw [read]
  · exact fun rest he => hne 'n' (by decide) (by decide) (List.cons.inj he).1
  · exact fun rest he => hne 't' (by decide) (by decide) (List.cons.inj he).1
  · exact fun rest he => hne 'f' (by decide) (by decide) (List.cons.inj he).1
  · exact fun rest he => hne '"' (by decide) (by decide) (List.cons.inj he).1
  · exact fun rest he => hne '[' (by decide) (by decide) (List.cons.inj he).1
  · exact fun rest he => hne '[' (by decide) (by decide) (List.cons.inj he).1
  · exact fun rest he => hne '{' (by decide) (by decide) (List.cons.inj he).1
  · exact fun rest he => hne '{' (by decide) (by decide) (List.cons.inj he).1

theorem printInt_eq_cons (n : ℤ) :
    ∃ d ds, printInt n = d :: ds ∧ (d.isDigit = true ∨ d = '-') := by
  cases n with
  | ofNat n =>
    obtain ⟨d, ds, hds, hd⟩ := toDigits_eq_cons n
    exact ⟨d, ds, hds, .inl hd⟩
  | negSucc n => exact ⟨'-', _, rfl, .inr rfl⟩

/-- No printed value starts with a closing bracket. -/
theorem print_eq_cons (j : Json) : ∃ d ds, print j = d :: ds ∧ d ≠ ']' := by
  cases j with
  | null => exact ⟨_, _, rfl, by decide⟩
  | bool b => cases b <;> exact ⟨_, _, rfl, by decide⟩
  | int n =>
    obtain ⟨d, ds, hds, hd⟩ := printInt_eq_cons n
    refine ⟨d, ds, hds, ?_⟩
    rintro rfl
    exact absurd hd (by decide)
  | float m e =>
    obtain ⟨d, ds, hds, hd⟩ := printInt_eq_cons m
    refine ⟨d, ds ++ 'e' :: printInt e, by simp [print, hds], ?_⟩
    rintro rfl
    exact absurd hd (by decide)
  | str s => exact ⟨_, _, rfl, by decide⟩
  | arr xs => exact ⟨_, _, rfl, by decide⟩
  | obj fs => exact ⟨_, _, rfl, by decide⟩

/-- `read` undoes `print` on `j`, in front of any text that ends a number. -/
def Reads (j : Json) : Prop :=
  ∀ fuel rest, (print j).length ≤ fuel → Stops rest → read fuel (print j ++ rest) = some (j, rest)

theorem readItems_intercalate (x : Json) (xs : List Json) (h : ∀ y ∈ x :: xs, Reads y)
    (fuel : ℕ) (rest : List Char)
    (hf : (List.intercalate [','] ((x :: xs).map print)).length < fuel) :
    readItems fuel (List.intercalate [','] ((x :: xs).map print) ++ ']' :: rest) =
      some (x :: xs, rest) := by
  induction xs generalizing x fuel with
  | nil =>
    obtain ⟨k, rfl⟩ : ∃ k, fuel = k + 1 := ⟨fuel - 1, by omega⟩
    simp only [List.map_cons, List.map_nil, List.intercalate_singleton] at hf ⊢
    have hx := h x (by simp) k (']' :: rest) (by omega) (stops_cons (by decide) (by decide) _)
    simp only [readItems, hx]
  | cons y ys ih =>
    obtain ⟨k, rfl⟩ : ∃ k, fuel = k + 1 := ⟨fuel - 1, by omega⟩
    simp only [List.map_cons, List.intercalate_cons_cons] at hf ih ⊢
    simp only [List.length_append, List.length_singleton] at hf
    have hx := h x (by simp) k
      (',' :: (List.intercalate [','] (print y :: ys.map print) ++ ']' :: rest)) (by omega)
      (stops_cons (by decide) (by decide) _)
    have hys := ih y (fun z hz => h z (List.mem_cons_of_mem _ hz)) k (by omega)
    simp only [List.append_assoc, List.cons_append, List.nil_append, readItems, hx, hys,
      Option.map_some]

theorem readFields_intercalate (f : String × Json) (fs : List (String × Json))
    (h : ∀ g ∈ f :: fs, Reads g.2) (fuel : ℕ) (rest : List Char)
    (hf : (List.intercalate [','] ((f :: fs).map printField)).length < fuel) :
    readFields fuel (List.intercalate [','] ((f :: fs).map printField) ++ '}' :: rest) =
      some (f :: fs, rest) := by
  induction fs generalizing f fuel with
  | nil =>
    obtain ⟨k, v⟩ := f
    obtain ⟨n, rfl⟩ : ∃ n, fuel = n + 1 := ⟨fuel - 1, by omega⟩
    simp only [List.map_cons, List.map_nil, List.intercalate_singleton, printField, printStr,
      List.length_append, List.length_cons] at hf ⊢
    have hkv : Reads v := h (k, v) (by simp)
    have hv := hkv n ('}' :: rest) (by omega) (stops_cons (by decide) (by decide) _)
    simp only [List.append_assoc, List.cons_append, List.nil_append, readFields,
      readChars_flatMap, hv, String.ofList_toList]
  | cons g gs ih =>
    obtain ⟨k, v⟩ := f
    obtain ⟨n, rfl⟩ : ∃ n, fuel = n + 1 := ⟨fuel - 1, by omega⟩
    simp only [List.map_cons, List.intercalate_cons_cons] at hf ih ⊢
    simp only [printField, printStr, List.length_append, List.length_cons] at hf
    have hkv : Reads v := h (k, v) (by simp)
    have hv := hkv n
      (',' :: (List.intercalate [','] (printField g :: gs.map printField) ++ '}' :: rest))
      (by omega) (stops_cons (by decide) (by decide) _)
    have hgs := ih g (fun z hz => h z (List.mem_cons_of_mem _ hz)) n (by omega)
    simp only [List.append_assoc, List.cons_append, List.nil_append, printField, printStr,
      readFields, readChars_flatMap, hv, hgs, String.ofList_toList, Option.map_some]

theorem intercalate_cons_eq (sep a : List Char) (ls : List (List Char)) :
    ∃ tail, List.intercalate sep (a :: ls) = a ++ tail := by
  cases ls with
  | nil => exact ⟨[], by simp⟩
  | cons b ls => exact ⟨_, by rw [List.intercalate_cons_cons, List.append_assoc]⟩

theorem reads_arr (xs : List Json) (h : ∀ x ∈ xs, Reads x) : Reads (.arr xs) := by
  intro fuel rest hf _
  cases xs with
  | nil =>
    obtain ⟨k, rfl⟩ : ∃ k, fuel = k + 1 := ⟨fuel - 1, by simp [print, between] at hf; omega⟩
    rfl
  | cons x xs =>
    simp only [print, between, printItems_eq, List.length_append, List.length_cons] at hf
    obtain ⟨k, rfl⟩ : ∃ k, fuel = k + 1 := ⟨fuel - 1, by omega⟩
    have hitems := readItems_intercalate x xs h k rest (by omega)
    obtain ⟨tail, htail⟩ := intercalate_cons_eq [','] (print x) (xs.map print)
    obtain ⟨d, ds, hd, hne⟩ := print_eq_cons x
    simp only [print, between, printItems_eq, List.map_cons, List.append_assoc, List.cons_append,
      List.nil_append] at hitems ⊢
    rw [htail, hd] at hitems ⊢
    rw [List.cons_append, List.cons_append] at hitems ⊢
    rw [read, hitems]
    · rfl
    · exact fun r he => hne (List.cons.inj he).1

theorem reads_obj (fs : List (String × Json)) (h : ∀ f ∈ fs, Reads f.2) : Reads (.obj fs) := by
  intro fuel rest hf _
  cases fs with
  | nil =>
    obtain ⟨k, rfl⟩ : ∃ k, fuel = k + 1 := ⟨fuel - 1, by simp [print, between] at hf; omega⟩
    rfl
  | cons f fs =>
    simp only [print, between, printFields_eq, List.length_append, List.length_cons] at hf
    obtain ⟨k, rfl⟩ : ∃ k, fuel = k + 1 := ⟨fuel - 1, by omega⟩
    have hfields := readFields_intercalate f fs h k rest (by omega)
    obtain ⟨tail, htail⟩ := intercalate_cons_eq [','] (printField f) (fs.map printField)
    obtain ⟨name, v⟩ := f
    simp only [print, between, printFields_eq, List.map_cons, List.append_assoc, List.cons_append,
      List.nil_append] at hfields ⊢
    rw [htail] at hfields ⊢
    simp only [printField, printStr, List.cons_append] at hfields ⊢
    rw [read, hfields]
    · rfl
    · exact fun r he => absurd (List.cons.inj he).1 (by decide)

/-- Reading back a printed value gives that value, whatever it is. -/
theorem read_print (j : Json) : Reads j := by
  induction j using induction with
  | null =>
    intro fuel rest hf _
    obtain ⟨k, rfl⟩ : ∃ k, fuel = k + 1 := ⟨fuel - 1, by simp [print] at hf; omega⟩
    rfl
  | bool b =>
    intro fuel rest hf _
    obtain ⟨k, rfl⟩ : ∃ k, fuel = k + 1 := ⟨fuel - 1, by cases b <;> simp [print] at hf <;> omega⟩
    cases b <;> rfl
  | int n =>
    intro fuel rest hf hr
    obtain ⟨d, ds, hds, hd⟩ := printInt_eq_cons n
    obtain ⟨k, rfl⟩ : ∃ k, fuel = k + 1 := ⟨fuel - 1, by simp [print, hds] at hf; omega⟩
    rw [print, read_number k ⟨d, ds ++ rest, by simp [hds], hd⟩, readNumber_int n hr]
  | float m e =>
    intro fuel rest hf hr
    obtain ⟨d, ds, hds, hd⟩ := printInt_eq_cons m
    obtain ⟨k, rfl⟩ : ∃ k, fuel = k + 1 := ⟨fuel - 1, by simp [print, hds] at hf; omega⟩
    rw [print, read_number k ⟨d, _, by rw [hds]; rfl, hd⟩, readNumber_float m e hr]
  | str s =>
    intro fuel rest hf _
    obtain ⟨k, rfl⟩ : ∃ k, fuel = k + 1 := ⟨fuel - 1, by simp [print, printStr] at hf; omega⟩
    simp only [print, printStr, List.append_assoc, List.cons_append, List.nil_append, read,
      readChars_flatMap, Option.map_some, String.ofList_toList]
  | arr xs ih => exact reads_arr xs ih
  | obj fs ih => exact reads_obj fs ih

@[simp] theorem parse_print (j : Json) : parse (print j) = some j := by
  have h := read_print j ((print j).length + 1) [] (by omega) stops_nil
  rw [List.append_nil] at h
  rw [parse, h]

@[simp] theorem decode_encode (j : Json) : decode (encode j) = some j := by
  have h : (encode j).toByteArray = (print j).utf8Encode := rfl
  simp [decode, h]

def byteCount (cs : List Char) : ℕ := (cs.map Char.utf8Size).sum

@[simp] theorem byteCount_nil : byteCount [] = 0 := rfl

@[simp] theorem byteCount_cons (c : Char) (cs : List Char) :
    byteCount (c :: cs) = c.utf8Size + byteCount cs := by simp [byteCount]

@[simp] theorem byteCount_append (as bs : List Char) :
    byteCount (as ++ bs) = byteCount as + byteCount bs := by simp [byteCount]

theorem length_encode (j : Json) : (encode j).length = byteCount (print j) := by
  simp only [encode, byteCount, List.length_flatMap, String.length_utf8EncodeChar]

theorem utf8Size_shortEscape {c e : Char} (h : shortEscape c = some e) : e.utf8Size = 1 := by
  unfold shortEscape at h
  split_ifs at h <;> (obtain rfl := Option.some.inj h; rfl)

theorem utf8Size_digitChar {n : ℕ} (h : n < 16) : (Nat.digitChar n).utf8Size = 1 := by
  interval_cases n <;> rfl

/-- A character costs at most six bytes inside a string. -/
theorem byteCount_escape_le (c : Char) : byteCount (escape c) ≤ 6 := by
  unfold escape
  cases hs : shortEscape c with
  | some e =>
    have he := utf8Size_shortEscape hs
    have hb : ('\\' : Char).utf8Size = 1 := rfl
    simp only [byteCount_cons, byteCount_nil, hb, he]
    omega
  | none =>
    simp only
    split_ifs with hc
    · have h1 := utf8Size_digitChar (n := c.toNat / 16) (by omega)
      have h2 := utf8Size_digitChar (n := c.toNat % 16) (by omega)
      have hb : ('\\' : Char).utf8Size = 1 := rfl
      have hu : ('u' : Char).utf8Size = 1 := rfl
      have h0 : ('0' : Char).utf8Size = 1 := rfl
      simp only [byteCount_cons, byteCount_nil, hb, hu, h0, h1, h2]
      omega
    · have := Char.utf8Size_le_four c
      simp only [byteCount_cons, byteCount_nil]
      omega

theorem byteCount_flatMap_escape_le (cs : List Char) :
    byteCount (cs.flatMap escape) ≤ 6 * cs.length := by
  induction cs with
  | nil => simp
  | cons c cs ih =>
    have := byteCount_escape_le c
    simp only [List.flatMap_cons, byteCount_append, List.length_cons]
    omega

theorem byteCount_printStr (s : String) :
    byteCount (printStr s) = byteCount (s.toList.flatMap escape) + 2 := by
  have hq : ('"' : Char).utf8Size = 1 := rfl
  simp only [printStr, List.cons_append, byteCount_cons, byteCount_append, byteCount_nil, hq]
  omega

theorem length_encode_str_le (s : String) : (encode (.str s)).length ≤ 6 * s.length + 2 := by
  have h := byteCount_flatMap_escape_le s.toList
  rw [length_encode, print, byteCount_printStr]
  simp only [String.length_toList] at h
  omega

/-- Characters that are written as they are, one byte each. -/
theorem byteCount_flatMap_escape_of_plain {cs : List Char}
    (h : ∀ c ∈ cs, escape c = [c] ∧ c.utf8Size = 1) :
    byteCount (cs.flatMap escape) = cs.length := by
  induction cs with
  | nil => rfl
  | cons c cs ih =>
    obtain ⟨hescape, hsize⟩ := h c List.mem_cons_self
    have hrest := ih fun d hd => h d (List.mem_cons_of_mem _ hd)
    simp only [List.flatMap_cons, byteCount_append, hescape, byteCount_cons, byteCount_nil, hsize,
      hrest, List.length_cons]
    omega

theorem length_encode_str_replicate {c : Char} (hescape : escape c = [c]) (hsize : c.utf8Size = 1)
    (n : ℕ) : (encode (.str (String.ofList (List.replicate n c)))).length = n + 2 := by
  have hplain : ∀ d ∈ List.replicate n c, escape d = [d] ∧ d.utf8Size = 1 := by
    intro d hd
    obtain rfl := List.eq_of_mem_replicate hd
    exact ⟨hescape, hsize⟩
  rw [length_encode, print, byteCount_printStr, String.toList_ofList,
    byteCount_flatMap_escape_of_plain hplain, List.length_replicate]

@[simp] theorem length_encode_null : (encode .null).length = 4 := rfl

theorem byteCount_of_isDigit {cs : List Char} (h : ∀ c ∈ cs, c.isDigit = true) :
    byteCount cs = cs.length := by
  induction cs with
  | nil => rfl
  | cons c cs ih =>
    have hc : c.utf8Size = 1 := by
      have hd := h c (by simp)
      simp only [Char.isDigit, Bool.and_eq_true, decide_eq_true_eq] at hd
      have hle : c.val ≤ 127 := UInt32.le_trans hd.2 (by decide)
      exact Char.utf8Size_eq_one_iff.mpr hle
    simp only [byteCount_cons, hc, ih (fun d hd => h d (List.mem_cons_of_mem _ hd)),
      List.length_cons]
    omega

theorem byteCount_toDigits_le {n k : ℕ} (hk : 0 < k) (h : n < 10 ^ k) :
    byteCount (Nat.toDigits 10 n) ≤ k := by
  rw [byteCount_of_isDigit fun c hc =>
    Nat.isDigit_of_mem_toDigits (b := 10) (n := n) (by decide) (by decide) hc]
  exact Nat.toDigits_length 10 n k hk h

/-- A 64-bit integer, signed or not, takes at most twenty characters. -/
theorem length_encode_int_le {n : ℤ} (hlo : -2 ^ 63 ≤ n) (hhi : n < 2 ^ 64) :
    (encode (.int n)).length ≤ 20 := by
  rw [length_encode, print]
  cases n with
  | ofNat n => exact byteCount_toDigits_le (by decide) (by simp at hhi; omega)
  | negSucc n =>
    have hm : ('-' : Char).utf8Size = 1 := rfl
    have h : byteCount (Nat.toDigits 10 (n + 1)) ≤ 19 :=
      byteCount_toDigits_le (by decide) (by rw [Int.negSucc_eq] at hlo; omega)
    simp only [printInt, byteCount_cons, hm]
    omega

theorem byteCount_intercalate (parts : List (List Char)) :
    byteCount (List.intercalate [','] parts) =
      (parts.map byteCount).sum + (parts.length - 1) := by
  induction parts with
  | nil => rfl
  | cons a parts ih =>
    cases parts with
    | nil => simp
    | cons b parts =>
      have hc : (',' : Char).utf8Size = 1 := rfl
      simp only [List.intercalate_cons_cons, byteCount_append, byteCount_cons, byteCount_nil, hc,
        ih, List.map_cons, List.sum_cons, List.length_cons]
      omega

theorem byteCount_between {opening closing : Char} (ho : opening.utf8Size = 1)
    (hc : closing.utf8Size = 1) (parts : List (List Char)) :
    byteCount (between opening closing parts) =
      (parts.map byteCount).sum + (parts.length - 1) + 2 := by
  simp only [between, List.cons_append, byteCount_cons, byteCount_append, byteCount_nil, ho, hc,
    byteCount_intercalate]
  omega

theorem length_encode_pos (j : Json) : 0 < (encode j).length := by
  obtain ⟨d, ds, hd, -⟩ := print_eq_cons j
  rw [length_encode, hd, byteCount_cons]
  exact Nat.add_pos_left d.utf8Size_pos _

/-- A list costs its items, one comma between neighbours and two brackets. -/
theorem length_encode_arr (xs : List Json) :
    (encode (.arr xs)).length =
      (xs.map fun x => (encode x).length).sum + (xs.length - 1) + 2 := by
  rw [length_encode, print, byteCount_between rfl rfl]
  simp [Function.comp_def, length_encode]

/-- A field costs its key, a colon and its value. -/
theorem length_encode_obj (fs : List (String × Json)) :
    (encode (.obj fs)).length =
      (fs.map fun f => (encode (.str f.1)).length + 1 + (encode f.2).length).sum +
        (fs.length - 1) + 2 := by
  have hc : (':' : Char).utf8Size = 1 := rfl
  have hf : ∀ f : String × Json, byteCount (printField f) =
      (encode (.str f.1)).length + 1 + (encode f.2).length := by
    rintro ⟨k, v⟩
    simp only [printField, byteCount_append, byteCount_cons, hc, length_encode, print]
    omega
  rw [length_encode, print, byteCount_between rfl rfl]
  simp [Function.comp_def, hf]

end Json

end WireRpc.Library
