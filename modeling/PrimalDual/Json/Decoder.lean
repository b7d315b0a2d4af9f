import PrimalDual.Json.Reader
import PrimalDual.Json.Number

/-!
# Decoding JSON documents

A decoder walks a document in the order of its text and stops at the first fault: a break of the
text or a value other than the one expected.
-/
namespace PrimalDual.Json

/-- Why a text is refused. -/
inductive Error where
  | malformed
  | truncated
  | mismatched
  deriving DecidableEq

def Flaw.toError : Flaw → Error
  | .malformed => .malformed
  | .truncated => .truncated

/-- The fault found where a value of another kind was expected. Lists and objects are not looked
into, other values are read first. -/
def unexpected : Json → Error
  | .broken b => b.read.toError
  | .number n => if n.inRange then .mismatched else .malformed
  | .string none => .malformed
  | _ => .mismatched

/-- Passes the closing bracket of a list or an object. -/
def closed : Option Break → Except Error Unit
  | none => .ok ()
  | some b => .error b.read.toError

def readNat (bound : Nat) : Json → Except Error Nat
  | .number n =>
    if n.integral && !n.negative && n.digits < bound then .ok n.digits
    else .error (unexpected (.number n))
  | d => .error (unexpected d)

def readBool : Json → Except Error Bool
  | .bool b => .ok b
  | d => .error (unexpected d)

def readText : Json → Except Error String
  | .string (some s) => .ok (String.ofList s)
  | d => .error (unexpected d)

/-- Reads a scalar from the text of the literal, unless that is an integer which is held first. -/
def readScalar {T : Type} [Number T] : Json → Except Error T
  | .number n =>
    if n.integral && n.digits < wordBound then .ok n.heldScalar
    else
      match (n.toScalar? : Option T) with
      | some x => .ok x
      | none => .error .malformed
  | d => .error (unexpected d)

def readList {α : Type} (item : Json → Except Error α) : Json → Except Error (List α)
  | .array items ending => do
    let xs ← items.mapM item
    closed ending
    return xs
  | d => .error (unexpected d)

mutual

/-- Passes over a value of which only the grammar matters. -/
def skip : Json → Except Error Unit
  | .broken b => .error b.skipped.toError
  | .array items ending => do
    skipItems items
    skipEnd ending
  | .object fields ending => do
    skipFields fields
    skipEnd ending
  | _ => .ok ()

def skipItems : List Json → Except Error Unit
  | [] => .ok ()
  | item :: rest => do
    skip item
    skipItems rest

def skipFields : List (Option (List Char) × Json) → Except Error Unit
  | [] => .ok ()
  | (_, item) :: rest => do
    skip item
    skipFields rest

def skipEnd : Option Break → Except Error Unit
  | none => .ok ()
  | some b => .error b.skipped.toError

end

mutual

/-- Checks a value that is held to be looked at later: its strings and numbers have to be readable,
and lists and objects may be nested less than `depth` times. -/
def hold (depth : Nat) : Json → Except Error Unit
  | .broken b => .error b.read.toError
  | .number n => if n.inRange then .ok () else .error .malformed
  | .string none => .error .malformed
  | .array items ending =>
    if depth ≤ 1 then .error .malformed
    else do
      holdItems (depth - 1) items
      closed ending
  | .object fields ending =>
    if depth ≤ 1 then .error .malformed
    else do
      holdFields (depth - 1) fields
      closed ending
  | _ => .ok ()

def holdItems (depth : Nat) : List Json → Except Error Unit
  | [] => .ok ()
  | item :: rest => do
    hold depth item
    holdItems depth rest

def holdFields (depth : Nat) : List (Option (List Char) × Json) → Except Error Unit
  | [] => .ok ()
  | (none, _) :: _ => .error .malformed
  | (some _, item) :: rest => do
    hold depth item
    holdFields depth rest

end

/-- Reads the fields of a record into a draft. An object names its fields, each at most once, and
may hold others, which are passed over; a list gives them in order and may stop early. -/
def readRecord {D : Type} (names : List String) (field : String → Json → D → Except Error D)
    (draft : D) : Json → Except Error D
  | .object fields ending => do
    let (d, _) ← fields.foldlM (fun (d, seen) (key, item) => do
      match key.map String.ofList with
      | none => throw .malformed
      | some name =>
        if names.contains name then
          if seen.contains name then throw .mismatched
          return (← field name item d, name :: seen)
        skip item
        return (d, seen)) (draft, ([] : List String))
    closed ending
    return d
  | .array items ending => do
    let d ← (names.zip items).foldlM (fun d (name, item) => field name item d) draft
    if names.length < items.length then throw .malformed
    closed ending
    return d
  | d => .error (unexpected d)

/-- A field that has to be there. -/
def required {α : Type} : Option α → Except Error α
  | some a => .ok a
  | none => .error .mismatched

/-- Decodes a text that holds one value and nothing else. -/
def decodeText {α : Type} (decode : Json → Except Error α) (text : List Char) : Except Error α := do
  let (doc, trailing) := ofText text
  let a ← decode doc
  if trailing then throw .malformed
  return a

end PrimalDual.Json
