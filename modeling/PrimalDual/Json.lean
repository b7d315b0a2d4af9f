/-!
# JSON documents that may break off

Reading never fails: a text is turned into the document it holds up to the first place where it
stops being JSON, and that place is kept as a break inside the document. Whoever decodes a document
walks it in order and therefore meets the first fault of a text, whether it lies in its grammar or
in what the decoder expected.
-/
namespace PrimalDual

/-- How a text stops being JSON: at a character that cannot stand there, or at its end. -/
inductive Json.Flaw where
  | malformed
  | truncated
  deriving DecidableEq

/-- A place at which a text breaks off. A part of which no value is wanted is read with less care,
so that the flaw found can be another one. -/
structure Json.Break where
  read : Json.Flaw
  skipped : Json.Flaw
  deriving DecidableEq

def Json.Break.both (f : Json.Flaw) : Json.Break := ⟨f, f⟩

/-- A number as written: `± digits * 10 ^ power`, integral if it has neither point nor exponent. -/
structure Json.Literal where
  negative : Bool
  digits : Nat
  power : Int
  integral : Bool
  deriving DecidableEq

/-- A document. A string is missing where its escapes do not pair up; a list or an object carries
the break that took the place of its closing bracket. -/
inductive Json where
  | null
  | bool (b : Bool)
  | number (n : Json.Literal)
  | string (s : Option (List Char))
  | array (items : List Json) (ending : Option Json.Break)
  | object (fields : List (Option (List Char) × Json)) (ending : Option Json.Break)
  | broken (b : Json.Break)

end PrimalDual
