import Mathlib.Tactic.IntervalCases
import PrimalDual.Text.Utf8

/-!
# Text read back from its bytes

The bytes of a character are read as that character, whatever follows them, so that the bytes of a
text are read as the text. Bytes below 128 are characters of their own wherever they stand, and what
follows the bytes of a text starts at a boundary.
-/
namespace PrimalDual.Utf8

/-- The second of three bytes, whose first one is `0xE0 + n`. Overlong characters and surrogates are
kept out. -/
def secondOfThree (n : ℕ) : ByteRange :=
  if n = 0 then ⟨0xA0, 0xBF⟩ else if n = 0xD then ⟨0x80, 0x9F⟩ else tail

/-- The second of four bytes, whose first one is `0xF0 + n`. -/
def secondOfFour (n : ℕ) : ByteRange :=
  if n = 0 then ⟨0x90, 0xBF⟩ else if n = 4 then ⟨0x80, 0x8F⟩ else tail

section Bytes

variable {n m bits : ℕ} {r : ByteRange} {rs : List ByteRange} {rest : List UInt8}

theorem lead?_one (h : n < 0x80) : lead? (UInt8.ofNat n) = some (n, []) := by
  have hn : (UInt8.ofNat n).toNat = n := by simp; omega
  simp only [lead?, hn, if_pos h]

theorem lead?_two (h : 2 ≤ n) (h' : n < 0x20) :
    lead? (UInt8.ofNat (n + 0xC0)) = some (n, [tail]) := by
  have hn : (UInt8.ofNat (n + 0xC0)).toNat = n + 0xC0 := by simp; omega
  simp only [lead?, hn]
  rw [if_neg (by omega), if_neg (by omega), if_pos (by omega), Nat.add_sub_cancel]

theorem lead?_three (h : n < 0x10) :
    lead? (UInt8.ofNat (n + 0xE0)) = some (n, [secondOfThree n, tail]) := by
  interval_cases n <;> rfl

theorem lead?_four (h : n ≤ 4) :
    lead? (UInt8.ofNat (n + 0xF0)) = some (n, [secondOfFour n, tail, tail]) := by
  interval_cases n <;> rfl

/-- The range holds the byte with the six bits `m`. -/
def ByteRange.Takes (r : ByteRange) (m : ℕ) : Prop :=
  r.low ≤ m + 0x80 ∧ m + 0x80 ≤ r.high

theorem takes_tail (h : m < 0x40) : tail.Takes m := by
  simp only [ByteRange.Takes, tail]
  omega

theorem takes_secondOfThree (h : m < 0x40) (hlong : n = 0 → 0x20 ≤ m) (hpair : n = 0xD → m < 0x20) :
    (secondOfThree n).Takes m := by
  unfold secondOfThree
  split_ifs <;> simp only [ByteRange.Takes, tail] <;> omega

theorem takes_secondOfFour (h : m < 0x40) (hlong : n = 0 → 0x10 ≤ m) (hlast : n = 4 → m < 0x10) :
    (secondOfFour n).Takes m := by
  unfold secondOfFour
  split_ifs <;> simp only [ByteRange.Takes, tail] <;> omega

/-- A byte of the range adds its six bits. -/
theorem complete_cons (h : r.Takes m) (hm : m < 0x40) :
    complete bits (r :: rs) (UInt8.ofNat (m + 0x80) :: rest) =
      complete (64 * bits + m) rs rest := by
  have hbyte : (UInt8.ofNat (m + 0x80)).toNat = m + 0x80 := by simp; omega
  have hcontains : r.contains (UInt8.ofNat (m + 0x80)) = true := by
    rw [ByteRange.contains, hbyte]
    exact Bool.and_eq_true_iff.mpr ⟨decide_eq_true h.1, decide_eq_true h.2⟩
  rw [complete, if_pos hcontains, hbyte, Nat.add_sub_cancel]

end Bytes

/-- The first byte of a character announces the others, which complete its value. -/
theorem exists_lead (c : Char) : ∃ b bits rs bytes, String.utf8EncodeChar c = b :: bytes ∧
    lead? b = some (bits, rs) ∧
    ∀ rest, complete bits rs (bytes ++ rest) = (some c.toNat, rest) := by
  have hvalid : c.val.toNat < 0xD800 ∨ 0xDFFF < c.val.toNat ∧ c.val.toNat < 0x110000 := c.valid
  unfold String.utf8EncodeChar Char.toNat
  dsimp only
  generalize c.val.toNat = v at hvalid ⊢
  split_ifs with hone htwo hthree
  · exact ⟨_, _, _, _, rfl, lead?_one (by omega), fun rest => rfl⟩
  · refine ⟨_, _, _, _, rfl, lead?_two (n := v / 64 % 0x20) (by omega) (by omega), fun rest => ?_⟩
    rw [List.cons_append, complete_cons (takes_tail (by omega)) (by omega), complete]
    congr 2
    omega
  · refine ⟨_, _, _, _, rfl, lead?_three (n := v / 4096 % 0x10) (by omega), fun rest => ?_⟩
    have hsecond := @takes_secondOfThree (v / 4096 % 0x10) (v / 64 % 0x40) (by omega) (by omega)
      (by omega)
    rw [List.cons_append, List.cons_append, complete_cons hsecond (by omega),
      complete_cons (takes_tail (by omega)) (by omega), complete]
    congr 2
    omega
  · refine ⟨_, _, _, _, rfl, lead?_four (n := v / 262144 % 0x08) (by omega), fun rest => ?_⟩
    have hsecond := @takes_secondOfFour (v / 262144 % 0x08) (v / 4096 % 0x40) (by omega) (by omega)
      (by omega)
    rw [List.cons_append, List.cons_append, List.cons_append, complete_cons hsecond (by omega),
      complete_cons (takes_tail (by omega)) (by omega),
      complete_cons (takes_tail (by omega)) (by omega), complete]
    congr 2
    omega

theorem decodeOnto_encodeChar (c : Char) (done : List (Option Char)) (rest : List UInt8) :
    decodeOnto done (String.utf8EncodeChar c ++ rest) = decodeOnto (some c :: done) rest := by
  obtain ⟨b, bits, rs, bytes, hbytes, hlead, hcomplete⟩ := exists_lead c
  rw [hbytes, List.cons_append, decodeOnto]
  simp only [hlead, hcomplete, Option.map_some, Char.ofNat_toNat]

theorem decodeOnto_flatMap (cs : List Char) (done : List (Option Char)) :
    decodeOnto done (cs.flatMap String.utf8EncodeChar) = done.reverse ++ cs.map some := by
  induction cs generalizing done with
  | nil => simp [decodeOnto]
  | cons c cs ih =>
    rw [List.flatMap_cons, decodeOnto_encodeChar, ih]
    simp

theorem encode_ofList (cs : List Char) :
    encode (String.ofList cs) = cs.flatMap String.utf8EncodeChar := by
  rw [encode, String.toUTF8_eq_toByteArray, String.toByteArray_ofList, List.utf8Encode]
  simp

/-- A text is read back from its bytes. -/
theorem decode?_encode (cs : List Char) : decode? (encode (String.ofList cs)) = some cs := by
  rw [decode?, decode, encode_ofList, decodeOnto_flatMap, List.reverse_nil, List.nil_append]
  induction cs with
  | nil => rfl
  | cons c cs ih => simp [List.mapM_cons, ih]

theorem encode_append (cs ds : List Char) : encode (String.ofList (cs ++ ds)) =
    encode (String.ofList cs) ++ encode (String.ofList ds) := by
  rw [encode_ofList, encode_ofList, encode_ofList, List.flatMap_append]

/-- A character of a single byte. -/
def Ascii (c : Char) : Prop := c.toNat < 0x80

instance : DecidablePred Ascii := fun c => inferInstanceAs (Decidable (c.toNat < 0x80))

theorem encodeChar_ascii {c : Char} (h : Ascii c) : String.utf8EncodeChar c = [c.toUInt8] := by
  have hone : c.val.toNat ≤ 0x7F := Nat.le_of_lt_succ h
  unfold String.utf8EncodeChar
  dsimp only
  rw [if_pos hone]
  rfl

theorem encode_cons {c : Char} (h : Ascii c) (cs : List Char) :
    encode (String.ofList (c :: cs)) = c.toUInt8 :: encode (String.ofList cs) := by
  rw [encode_ofList, encode_ofList, List.flatMap_cons, encodeChar_ascii h, List.singleton_append]

/-- The byte of such a character is in no other character. -/
theorem eq_of_mem_encodeChar {c d : Char} (hd : Ascii d)
    (h : d.toUInt8 ∈ String.utf8EncodeChar c) : c = d := by
  have hbyte : d.toUInt8 = UInt8.ofNat d.toNat := rfl
  have hlow : d.toNat < 0x80 := hd
  rw [← Char.toNat_inj]
  rw [hbyte] at h
  unfold String.utf8EncodeChar at h
  unfold Char.toNat at hlow h ⊢
  dsimp only at h
  generalize c.val.toNat = v at h ⊢
  generalize d.val.toNat = n at h hlow ⊢
  have hvalue {m : ℕ} (heq : UInt8.ofNat n = UInt8.ofNat m) : n = m % 0x100 := by
    have hnat := congrArg UInt8.toNat heq
    simp only [UInt8.toNat_ofNat'] at hnat
    omega
  -- All bytes of a longer character are at least 128.
  split_ifs at h with hone htwo hthree
  · have heq := hvalue (List.mem_singleton.mp h)
    omega
  · simp only [List.mem_cons, List.not_mem_nil, or_false] at h
    rcases h with h | h <;> (have heq := hvalue h; omega)
  · simp only [List.mem_cons, List.not_mem_nil, or_false] at h
    rcases h with h | h | h <;> (have heq := hvalue h; omega)
  · simp only [List.mem_cons, List.not_mem_nil, or_false] at h
    rcases h with h | h | h | h <;> (have heq := hvalue h; omega)

theorem toUInt8_mem_encode_iff {d : Char} (hd : Ascii d) {cs : List Char} :
    d.toUInt8 ∈ encode (String.ofList cs) ↔ d ∈ cs := by
  rw [encode_ofList, List.mem_flatMap]
  constructor
  · rintro ⟨c, hc, hmem⟩
    exact eq_of_mem_encodeChar hd hmem ▸ hc
  · intro h
    exact ⟨d, h, by rw [encodeChar_ascii hd]; exact List.mem_singleton_self _⟩

theorem encode_ascii {cs : List Char} (h : ∀ c ∈ cs, Ascii c) :
    encode (String.ofList cs) = cs.map Char.toUInt8 := by
  induction cs with
  | nil => rfl
  | cons c cs ih =>
    obtain ⟨hc, hcs⟩ := List.forall_mem_cons.mp h
    rw [encode_cons hc, ih hcs, List.map_cons]

/-- No character starts with a byte that continues one. -/
theorem not_tail_of_lead? {b : UInt8} {announced : ℕ × List ByteRange}
    (h : lead? b = some announced) : tail.contains b = false := by
  refine Bool.eq_false_iff.mpr fun hmiddle => ?_
  obtain ⟨hlow, hhigh⟩ := Bool.and_eq_true_iff.mp hmiddle
  have hlow : 0x80 ≤ b.toNat := of_decide_eq_true hlow
  have hhigh : b.toNat ≤ 0xBF := of_decide_eq_true hhigh
  have hnone : lead? b = none := by
    simp only [lead?]
    rw [if_neg (by omega), if_pos (by omega)]
  rw [hnone] at h
  cases h

/-- What follows other bytes starts at a boundary. -/
theorem isBoundary_append (bytes : List UInt8) (cs : List Char) :
    isBoundary (bytes ++ encode (String.ofList cs)) bytes.length = true := by
  rw [encode_ofList]
  cases cs with
  | nil => simp [isBoundary]
  | cons c cs =>
    obtain ⟨b, bits, rs, rest, hbytes, hlead, -⟩ := exists_lead c
    simp [isBoundary, hbytes, not_tail_of_lead? hlead]

theorem cutFrom_append (bytes : List UInt8) (cs : List Char) :
    cutFrom (bytes ++ encode (String.ofList cs)) bytes.length =
      .ok (encode (String.ofList cs)) := by
  rw [cutFrom, if_pos (isBoundary_append bytes cs), List.drop_left]

theorem insertAt_append (bytes new : List UInt8) (cs : List Char) :
    insertAt (bytes ++ encode (String.ofList cs)) bytes.length new =
      .ok (bytes ++ new ++ encode (String.ofList cs)) := by
  rw [insertAt, if_pos (isBoundary_append bytes cs), List.take_left, List.drop_left]

end PrimalDual.Utf8
