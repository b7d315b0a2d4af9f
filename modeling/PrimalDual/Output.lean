import PrimalDual.Text.Utf8

/-!
# Print targets

Where the text of a run goes: the standard output, a file, a stream, a buffer that can be read back,
or nowhere. A target remembers the bytes that it has taken; a sink forgets them. A target may refuse
bytes, which ends the text being printed and nothing else.
-/
namespace PrimalDual

inductive TargetKind where
  | stdout
  | file
  | buffer
  | stream
  | sink
  deriving DecidableEq

structure PrintTarget where
  kind : TargetKind
  received : Array UInt8
  /-- Whether the target, having received the first bytes, takes the second ones. -/
  accepts : Array UInt8 → Array UInt8 → Bool

inductive PrintError where
  | refused
  | notBuffered
  deriving DecidableEq

def PrintError.message : PrintError → String
  | .refused => "The print target refused the text."
  | .notBuffered => "Print buffering is not configured."

namespace PrintTarget

/-- A fresh target that takes everything. -/
def new (kind : TargetKind) : PrintTarget := ⟨kind, #[], fun _ _ => true⟩

def default : PrintTarget := new .stdout

def name (t : PrintTarget) : String :=
  match t.kind with
  | .stdout => "PrintTarget::Stdout"
  | .file => "PrintTarget::File"
  | .buffer => "PrintTarget::Buffer"
  | .stream => "PrintTarget::Stream"
  | .sink => "PrintTarget::Sink"

/-- The target after some bytes, and how many of them it took. -/
def write (t : PrintTarget) (bytes : Array UInt8) : Except PrintError Nat × PrintTarget :=
  if t.kind = .sink then (.ok bytes.size, t)
  else if t.accepts t.received bytes then
    (.ok bytes.size, { t with received := t.received ++ bytes })
  else (.error .refused, t)

/-- The target after a text. -/
def print (t : PrintTarget) (text : String) : PrintTarget := (t.write text.toUTF8.data).2

/-- What a target has received, as text. -/
def text (t : PrintTarget) : String := Utf8.decodeLossy t.received.toList

/-- Only a buffer can be read back. -/
def bufferText (t : PrintTarget) : Except PrintError String :=
  if t.kind = .buffer then .ok t.text else .error .notBuffered

end PrintTarget

end PrimalDual
