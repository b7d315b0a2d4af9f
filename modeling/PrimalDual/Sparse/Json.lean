import PrimalDual.Sparse
import PrimalDual.Json.Decoder
import PrimalDual.Json.Writer

/-!
# Sparse matrices as JSON

The text holds the parts of a matrix as they are; whether they belong together is not looked at.
-/
namespace PrimalDual.SparseMatrix

variable {T : Type} [Json.Number T]

def jsonText (A : SparseMatrix T) : List Char :=
  Json.recordText [
    ("m", Json.natText A.rows),
    ("n", Json.natText A.cols),
    ("colptr", Json.listText Json.natText A.colStarts),
    ("rowval", Json.listText Json.natText A.rowIndices),
    ("nzval", Json.listText Json.numberText A.values)]

/-- The parts read so far. -/
structure Draft (T : Type) where
  rows : Option Nat := none
  cols : Option Nat := none
  colStarts : Option (List Nat) := none
  rowIndices : Option (List Nat) := none
  values : Option (List T) := none

/-- Indices are words of 64 bits. -/
def readIndex : Json → Except Json.Error Nat := Json.readNat Json.wordBound

def readField (name : String) (item : Json) (d : Draft T) : Except Json.Error (Draft T) :=
  match name with
  | "m" => do return { d with rows := some (← readIndex item) }
  | "n" => do return { d with cols := some (← readIndex item) }
  | "colptr" => do return { d with colStarts := some (← Json.readList readIndex item) }
  | "rowval" => do return { d with rowIndices := some (← Json.readList readIndex item) }
  | "nzval" => do return { d with values := some (← Json.readList Json.readScalar item) }
  | _ => .ok d

def readJson (doc : Json) : Except Json.Error (SparseMatrix T) := do
  let d ← Json.readRecord ["m", "n", "colptr", "rowval", "nzval"] readField ({} : Draft T) doc
  return {
    rows := ← Json.required d.rows
    cols := ← Json.required d.cols
    colStarts := ← Json.required d.colStarts
    rowIndices := ← Json.required d.rowIndices
    values := ← Json.required d.values }

end PrimalDual.SparseMatrix
