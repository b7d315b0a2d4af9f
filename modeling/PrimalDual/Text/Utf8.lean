import PrimalDual.Fault

/-!
# Reading UTF-8

Bytes are read as text either strictly or with a replacement character for each maximal part of an
ill-formed sequence: a part ends where the byte that follows cannot continue any character. A text
in bytes is cut, and added to, between two characters only.
-/
namespace PrimalDual.Utf8

/-- The least and the greatest byte that may follow. -/
structure ByteRange where
  low : Nat
  high : Nat

def ByteRange.contains (r : ByteRange) (b : UInt8) : Bool :=
  r.low ≤ b.toNat && b.toNat ≤ r.high

def tail : ByteRange := ⟨0x80, 0xBF⟩

/-- What the first byte of a character leaves to be read: its bits, and the ranges of the bytes that
complete it. A byte that starts no character has none. -/
def lead? (b : UInt8) : Option (Nat × List ByteRange) :=
  let n := b.toNat
  if n < 0x80 then some (n, [])
  else if n < 0xC2 then none
  else if n < 0xE0 then some (n - 0xC0, [tail])
  else if n = 0xE0 then some (0, [⟨0xA0, 0xBF⟩, tail])
  else if n = 0xED then some (0xD, [⟨0x80, 0x9F⟩, tail])
  else if n < 0xF0 then some (n - 0xE0, [tail, tail])
  else if n = 0xF0 then some (0, [⟨0x90, 0xBF⟩, tail, tail])
  else if n < 0xF4 then some (n - 0xF0, [tail, tail, tail])
  else if n = 0xF4 then some (4, [⟨0x80, 0x8F⟩, tail, tail])
  else none

/-- Reads the bytes that complete a character. Without a value, the character broke off; either way
the rest starts at the first byte that was not read. -/
def complete (bits : Nat) : List ByteRange → List UInt8 → Option Nat × List UInt8
  | [], rest => (some bits, rest)
  | _ :: _, [] => (none, [])
  | r :: rs, b :: rest =>
    if r.contains b then complete (64 * bits + (b.toNat - 0x80)) rs rest else (none, b :: rest)

theorem length_complete_le (bits : Nat) (rs : List ByteRange) (bytes : List UInt8) :
    (complete bits rs bytes).2.length ≤ bytes.length := by
  induction rs generalizing bits bytes with
  | nil => simp [complete]
  | cons r rs ih =>
    cases bytes with
    | nil => simp [complete]
    | cons b rest =>
      unfold complete
      split
      · exact Nat.le_succ_of_le (ih _ _)
      · exact Nat.le_refl _

/-- Adds the characters of a byte sequence to those read before, the latest first; nothing stands in
the place of an ill-formed part. -/
def decodeOnto (done : List (Option Char)) : List UInt8 → List (Option Char)
  | [] => done.reverse
  | b :: rest =>
    match lead? b with
    | none => decodeOnto (none :: done) rest
    | some (bits, rs) =>
      decodeOnto ((complete bits rs rest).1.map Char.ofNat :: done) (complete bits rs rest).2
termination_by bytes => bytes.length
decreasing_by
  · simp
  · exact Nat.lt_succ_of_le (length_complete_le _ _ _)

def decode (bytes : List UInt8) : List (Option Char) := decodeOnto [] bytes

def replacement : Char := '\uFFFD'

def decodeLossy (bytes : List UInt8) : String :=
  String.ofList ((decode bytes).map (·.getD replacement))

/-- The text of well-formed bytes. -/
def decode? (bytes : List UInt8) : Option (List Char) :=
  (decode bytes).mapM id

def encode (s : String) : List UInt8 := s.toUTF8.data.toList

/-- Whether a character starts at the position, or the text ends there. -/
def isBoundary (bytes : List UInt8) (i : Nat) : Bool :=
  match bytes[i]? with
  | some b => !tail.contains b
  | none => i == bytes.length

/-- The text from a position on. -/
def cutFrom (bytes : List UInt8) (i : Nat) : Except Fault (List UInt8) :=
  if isBoundary bytes i then .ok (bytes.drop i) else .error .indexOutOfRange

def insertAt (bytes : List UInt8) (i : Nat) (new : List UInt8) : Except Fault (List UInt8) :=
  if isBoundary bytes i then .ok (bytes.take i ++ new ++ bytes.drop i) else .error .indexOutOfRange

end PrimalDual.Utf8
