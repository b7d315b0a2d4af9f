import PrimalDual.Json

/-!
# Reading JSON text

Each function reads what its name says from the front of a text. It returns what it read and the
text after it, or no text once the reading has broken off.
-/
namespace PrimalDual.Json

/-- What follows a part that was read to its end. -/
abbrev Rest := Option (List Char)

def isBlank (c : Char) : Bool := c == ' ' || c == '\n' || c == '\t' || c == '\r'

def skipBlanks (cs : List Char) : List Char := cs.dropWhile isBlank

/-- The flaw of a text at which one of several characters was due. -/
def flawAt : List Char → Flaw
  | [] => .truncated
  | _ :: _ => .malformed

def isDigit (c : Char) : Bool := '0' ≤ c && c ≤ '9'

def digitValue (c : Char) : Nat := c.toNat - '0'.toNat

def numeral (cs : List Char) : Nat := cs.foldl (fun n c => 10 * n + digitValue c) 0

/-- The remaining letters of a word, with the flaw where the text departs from them. -/
def word : List Char → List Char → Except Flaw (List Char)
  | [], rest => .ok rest
  | _ :: _, [] => .error .truncated
  | w :: ws, c :: rest => if w = c then word ws rest else .error .malformed

/-- One digit at least; a skipped number has to show it before the text ends. -/
def someDigits (cs : List Char) : Except Break (List Char × List Char) :=
  match cs.takeWhile isDigit with
  | [] => .error ⟨flawAt cs, .malformed⟩
  | ds => .ok (ds, cs.dropWhile isDigit)

/-- The digits before the point, without a leading zero. -/
def wholePart (cs : List Char) : Except Break (List Char × List Char) :=
  match cs with
  | '0' :: c :: rest => if isDigit c then .error (.both .malformed) else .ok (['0'], c :: rest)
  | _ => someDigits cs

def fractionPart (cs : List Char) : Except Break (List Char × List Char) :=
  match cs with
  | '.' :: rest => someDigits rest
  | _ => .ok ([], cs)

/-- The digits of a power of ten whose sign has been read. -/
def signedPower (sign : Int) (cs : List Char) : Except Break (Option Int × List Char) := do
  let (ds, rest) ← someDigits cs
  return (some (sign * numeral ds), rest)

/-- The power of ten written behind the digits. -/
def exponentPart (cs : List Char) : Except Break (Option Int × List Char) :=
  match cs with
  | e :: rest =>
    if e == 'e' || e == 'E' then
      match rest with
      | '+' :: rest => signedPower 1 rest
      | '-' :: rest => signedPower (-1) rest
      | _ => signedPower 1 rest
    else .ok (none, cs)
  | [] => .ok (none, cs)

def unsignedNumber (negative : Bool) (cs : List Char) : Except Break (Literal × List Char) := do
  let (whole, cs) ← wholePart cs
  let (places, cs) ← fractionPart cs
  let (power, cs) ← exponentPart cs
  return ({ negative
            digits := numeral (whole ++ places)
            power := power.getD 0 - places.length
            integral := places.isEmpty && power.isNone }, cs)

def signedNumber (cs : List Char) : Except Break (Literal × List Char) :=
  match cs with
  | '-' :: rest => unsignedNumber true rest
  | _ => unsignedNumber false cs

def scanNumber (cs : List Char) : Json × Rest :=
  match signedNumber cs with
  | .ok (n, rest) => (.number n, some rest)
  | .error b => (.broken b, none)

/-- A part of a string: a character, or a unit of sixteen bits from an escape. -/
inductive Piece where
  | char (c : Char)
  | unit (u : Nat)

def hexValue? (c : Char) : Option Nat :=
  if isDigit c then some (digitValue c)
  else if 'a' ≤ c ∧ c ≤ 'f' then some (c.toNat - 'a'.toNat + 10)
  else if 'A' ≤ c ∧ c ≤ 'F' then some (c.toNat - 'A'.toNat + 10)
  else none

/-- Four hexadecimal digits; without four bytes left, the text has ended too early. -/
def unitOf (cs : List Char) : Except Flaw Nat :=
  if (cs.take 4).foldl (fun size c => size + c.utf8Size) 0 < 4 then .error .truncated
  else
    match (cs.take 4).mapM hexValue? with
    | some [a, b, c, d] => .ok (((a * 16 + b) * 16 + c) * 16 + d)
    | _ => .error .malformed

def escape? : Char → Option Char
  | '"' => some '"'
  | '\\' => some '\\'
  | '/' => some '/'
  | 'b' => some '\x08'
  | 'f' => some '\x0c'
  | 'n' => some '\n'
  | 'r' => some '\r'
  | 't' => some '\t'
  | _ => none

/-- The pieces of a string up to its closing quote, the latest first, and what follows it or the
flaw that came before. -/
def pieces (done : List Piece) : List Char → List Piece × Except Flaw (List Char)
  | [] => (done, .error .truncated)
  | '"' :: rest => (done, .ok rest)
  | ['\\'] => (done, .error .truncated)
  | '\\' :: 'u' :: rest =>
    match unitOf rest with
    | .ok u =>
      match rest with
      | _ :: _ :: _ :: _ :: rest => pieces (.unit u :: done) rest
      | _ => (done, .error .malformed)
    | .error f => (done, .error f)
  | '\\' :: c :: rest =>
    match escape? c with
    | some d => pieces (.char d :: done) rest
    | none => (done, .error .malformed)
  | c :: rest => if c.toNat < 0x20 then (done, .error .malformed) else pieces (.char c :: done) rest

/-- The text of the pieces read up to a flaw or to the closing quote. Units that stand for a
character outside the basic plane come in pairs; a first one at the very end waits for the second,
and it is the flaw that decides. -/
def joinPieces (flaw : Option Flaw) : List Piece → Except Flaw (List Char)
  | [] => .ok []
  | .char c :: rest => (c :: ·) <$> joinPieces flaw rest
  | .unit u :: rest =>
    if 0xDC00 ≤ u ∧ u ≤ 0xDFFF then .error .malformed
    else if 0xD800 ≤ u ∧ u ≤ 0xDBFF then
      match rest with
      | .unit v :: rest =>
        if 0xDC00 ≤ v ∧ v ≤ 0xDFFF then
          (Char.ofNat (0x10000 + (u - 0xD800) * 0x400 + (v - 0xDC00)) :: ·) <$> joinPieces flaw rest
        else .error .malformed
      | .char _ :: _ => .error .malformed
      | [] => .error (flaw.getD .malformed)
    else (Char.ofNat u :: ·) <$> joinPieces flaw rest

/-- The content of a string after its opening quote. -/
def scanString (cs : List Char) : Except Break (Option (List Char) × List Char) :=
  match pieces [] cs with
  | (ps, .ok rest) => .ok ((joinPieces none ps.reverse).toOption, rest)
  | (ps, .error f) =>
    match joinPieces (some f) ps.reverse with
    | .ok _ => .error (.both f)
    | .error strict => .error ⟨strict, f⟩

def ofWord (node : Json) (letters cs : List Char) : Json × Rest :=
  match word letters cs with
  | .ok rest => (node, some rest)
  | .error f => (.broken (.both f), none)

mutual

/-- A value. Twice the characters left and one more is fuel enough: an opening bracket uses up a
step for the list and one for its first item. -/
def scanValue : Nat → List Char → Json × Rest
  | 0, _ => (.broken (.both .malformed), none)
  | fuel + 1, cs =>
    match skipBlanks cs with
    | [] => (.broken (.both .truncated), none)
    | 'n' :: rest => ofWord .null ['u', 'l', 'l'] rest
    | 't' :: rest => ofWord (.bool true) ['r', 'u', 'e'] rest
    | 'f' :: rest => ofWord (.bool false) ['a', 'l', 's', 'e'] rest
    | '"' :: rest =>
      match scanString rest with
      | .ok (s, rest) => (.string s, some rest)
      | .error b => (.broken b, none)
    | '[' :: rest =>
      match skipBlanks rest with
      | ']' :: rest => (.array [] none, some rest)
      | [] => (.array [] (some (.both .truncated)), none)
      | rest =>
        let (items, ending, rest) := scanElements fuel rest
        (.array items ending, rest)
    | '\x7b' :: rest =>
      match skipBlanks rest with
      | '\x7d' :: rest => (.object [] none, some rest)
      | rest =>
        let (fields, ending, rest) := scanMembers fuel rest
        (.object fields ending, rest)
    | c :: rest =>
      if c == '-' || isDigit c then scanNumber (c :: rest) else (.broken (.both .malformed), none)

/-- The items of a list from one item on. -/
def scanElements : Nat → List Char → List Json × Option Break × Rest
  | 0, _ => ([], some (.both .malformed), none)
  | fuel + 1, cs =>
    match scanValue fuel cs with
    | (item, none) => ([item], none, none)
    | (item, some rest) =>
      match skipBlanks rest with
      | ']' :: rest => ([item], none, some rest)
      | ',' :: rest =>
        let (items, ending, rest) := scanElements fuel rest
        (item :: items, ending, rest)
      | rest => ([item], some (.both (flawAt rest)), none)

/-- The members of an object from one member on. -/
def scanMembers : Nat → List Char → List (Option (List Char) × Json) × Option Break × Rest
  | 0, _ => ([], some (.both .malformed), none)
  | fuel + 1, cs =>
    match skipBlanks cs with
    | '"' :: rest =>
      match scanString rest with
      | .error b => ([], some b, none)
      | .ok (key, rest) =>
        match skipBlanks rest with
        | ':' :: rest =>
          match scanValue fuel rest with
          | (item, none) => ([(key, item)], none, none)
          | (item, some rest) =>
            match skipBlanks rest with
            | '\x7d' :: rest => ([(key, item)], none, some rest)
            | ',' :: rest =>
              let (fields, ending, rest) := scanMembers fuel rest
              ((key, item) :: fields, ending, rest)
            | rest => ([(key, item)], some (.both (flawAt rest)), none)
        | rest => ([(key, .broken (.both (flawAt rest)))], none, none)
    | rest => ([], some (.both (flawAt rest)), none)

end

/-- The document of a text, and whether anything but blanks follows it. -/
def ofText (cs : List Char) : Json × Bool :=
  match scanValue (2 * cs.length + 1) cs with
  | (doc, some rest) => (doc, !(skipBlanks rest).isEmpty)
  | (doc, none) => (doc, false)

end PrimalDual.Json
