import PrimalDual.Scalar

/-!
# Random start vectors

A generator with four words of state and a stream of samples, uniform on the interval from -1 to 1.
A seed determines the whole stream: its four words are consecutive outputs of a counter run through
a mixing function.
-/
namespace PrimalDual

structure Generator where
  s0 : UInt64
  s1 : UInt64
  s2 : UInt64
  s3 : UInt64
  deriving DecidableEq

namespace Generator

def seedIncrement : UInt64 := 0x9e3779b97f4a7c15

/-- A bijection of the words that spreads each input bit over the whole output. -/
def mix (x : UInt64) : UInt64 :=
  let z := (x ^^^ (x >>> 30)) * 0xbf58476d1ce4e5b9
  let z := (z ^^^ (z >>> 27)) * 0x94d049bb133111eb
  z ^^^ (z >>> 31)

def ofSeed (seed : UInt64) : Generator where
  s0 := mix (seed + seedIncrement)
  s1 := mix (seed + 2 * seedIncrement)
  s2 := mix (seed + 3 * seedIncrement)
  s3 := mix (seed + 4 * seedIncrement)

def rotateLeft (x : UInt64) (k : UInt64) : UInt64 :=
  (x <<< k) ||| (x >>> (64 - k))

/-- One output word and the state after it. -/
def next (g : Generator) : UInt64 × Generator :=
  let output := rotateLeft (g.s1 * 5) 7 * 9
  let s2 := g.s2 ^^^ g.s0
  let s3 := g.s3 ^^^ g.s1
  (output,
    { s0 := g.s0 ^^^ s3
      s1 := g.s1 ^^^ s2
      s2 := s2 ^^^ (g.s1 <<< 17)
      s3 := rotateLeft s3 45 })

/-- The sample that a word stands for: its upper bits are the fraction of a number between one and
two, which is shifted and stretched so that both ends of the interval can be reached. -/
def sampleOf (word : UInt64) : Float :=
  let unit := Float.ofBits ((0x3ff0000000000000 : UInt64) ||| (word >>> 12)) - 1
  unit * Float.ofBits 0x4000000000000001 + -1

def samples : Nat → Generator → List Float
  | 0, _ => []
  | n + 1, g => sampleOf g.next.1 :: samples n g.next.2

theorem length_samples (n : Nat) (g : Generator) : (samples n g).length = n := by
  induction n generalizing g with
  | zero => rfl
  | succ n ih => simp [samples, ih]

end Generator

/-- A vector of `n` samples, one output of the generator each, in index order. -/
def randomVector {T : Type} [Scalar T] (n : Nat) (seed : UInt64) : List T :=
  (Generator.samples n (.ofSeed seed)).map Scalar.ofDouble

theorem length_randomVector {T : Type} [Scalar T] (n : Nat) (seed : UInt64) :
    (randomVector (T := T) n seed).length = n := by
  simp [randomVector, Generator.length_samples]

end PrimalDual
