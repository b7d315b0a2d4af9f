/-!
# Folders and the paths through them

A path is a text of steps between slashes. Which files can be written depends on the folders there
are: a path leads from one to the next, and its last step names the file. Folders are made step by
step, so those above a new folder are made before it.
-/
namespace PrimalDual

/-- Why a file cannot be saved. -/
inductive SaveError where
  /-- The output folder cannot hold anything. -/
  | blocked
  /-- The path leads through a folder that does not exist. -/
  | notFound
  /-- The path holds a character that no path may hold. -/
  | invalidName
  /-- A step, or the path as a whole, is too long. -/
  | nameTooLong
  /-- A folder stands where the file should go. -/
  | isFolder
  deriving DecidableEq

def SaveError.message : SaveError → String
  | .blocked => "Not a directory"
  | .notFound => "No such file or directory"
  | .invalidName => "file name contained an unexpected NUL byte"
  | .nameTooLong => "File name too long"
  | .isFolder => "Is a directory"

/-- One path below another. A path from the root stands for itself. -/
def joinPath (path part : String) : String :=
  if part.startsWith "/" then part
  else if path.isEmpty || path.endsWith "/" then path ++ part
  else path ++ "/" ++ part

/-- Slashes next to each other count as one. -/
def pathSteps (path : String) : List String := (path.splitOn "/").filter fun step => step ≠ ""

/-- What is left of a path after the slashes and single points that it opens with. -/
def withoutOpening : List Char → List Char
  | '/' :: rest => withoutOpening rest
  | '.' :: '/' :: rest => withoutOpening rest
  | path => path

/-- A path as it reads from a folder above it; any other path is left alone. -/
def pathBelow (folder path : String) : String :=
  if path.startsWith (folder ++ "/") then
    String.ofList (withoutOpening (path.toList.drop folder.length))
  else path

def longestPath : Nat := 4095

def longestStep : Nat := 255

/-- Only the text of a path is looked at here, not where it leads. -/
def checkPath (path : String) : Except SaveError Unit :=
  if path.contains '\x00' then .error .invalidName
  else if longestPath < path.utf8ByteSize then .error .nameTooLong
  else .ok ()

/-- The folders there are. The root is number zero, and folder `k + 1` is described by entry `k`:
the number of the folder it lies in and its name there. -/
structure Folders where
  entries : Array (Nat × String)

namespace Folders

def root : Nat := 0

/-- The folders on the way down to one that is known to exist. -/
def leadingTo (path : String) : Folders :=
  ⟨((pathSteps path).mapIdx fun depth name => (depth, name)).toArray⟩

def below? (f : Folders) (here : Nat) (name : String) : Option Nat :=
  (f.entries.idxOf? (here, name)).map (· + 1)

/-- The folder that a folder lies in; the root lies in itself. -/
def above (f : Folders) : Nat → Nat
  | 0 => root
  | k + 1 => (f.entries[k]?.map Prod.fst).getD root

/-- Where one step leads: a single point stays in the folder and two points go up. -/
def step (f : Folders) (here : Nat) (name : String) : Except SaveError Nat :=
  if name = "." then .ok here
  else if name = ".." then .ok (f.above here)
  else if longestStep < name.utf8ByteSize then .error .nameTooLong
  else
    match f.below? here name with
    | some there => .ok there
    | none => .error .notFound

def walk (f : Folders) (here : Nat) (steps : List String) : Except SaveError Nat :=
  steps.foldlM f.step here

/-- A step that makes the folder it leads to, unless there is one. -/
def makeStep (f : Folders) (here : Nat) (name : String) : Except SaveError (Folders × Nat) :=
  match f.step here name with
  | .ok there => .ok (f, there)
  | .error .notFound => .ok (⟨f.entries.push (here, name)⟩, f.entries.size + 1)
  | .error e => .error e

/-- Makes the folders of a path from the root. A single point at its end asks for a folder that is
there before, so the step in front of it is not made. -/
def make (f : Folders) (path : String) : Except SaveError Folders := do
  checkPath path
  let steps := pathSteps path
  let named := steps.filter fun step => step ≠ "."
  let made := if steps.getLast? = some "." then named.dropLast else named
  let (f, here) ← made.foldlM (fun (f, here) name => f.makeStep here name) (f, root)
  discard (f.walk here (named.drop made.length))
  return f

/-- Checks that a file can be written at a path from the root. -/
def checkFile (f : Folders) (path : String) : Except SaveError Unit := do
  checkPath path
  let steps := pathSteps path
  let here ← f.walk root steps.dropLast
  match f.walk here (steps.drop (steps.length - 1)) with
  | .ok _ => throw .isFolder
  | .error .notFound => return ()
  | .error e => throw e

end Folders

end PrimalDual
