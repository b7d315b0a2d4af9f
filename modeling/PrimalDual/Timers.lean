import PrimalDual.Decimal

/-!
# Timers

Named timers run on a clock that advances with every operation on them. They are started and stopped
as a stack: it is always the timer started last that is stopped next. While timing is suspended, no
running timer gains time.
-/
namespace PrimalDual

structure Timer where
  startedAt : Option Nat := none
  elapsed : Nat := 0
  calls : Nat := 0
  deriving DecidableEq

namespace Timer

/-- Starting a running timer restarts its clock. -/
def start (now : Nat) (t : Timer) : Timer :=
  { t with startedAt := some now, calls := t.calls + 1 }

/-- Adds the time since the start, of a timer that runs. -/
def accrue (now : Nat) (t : Timer) : Timer :=
  match t.startedAt with
  | some start => { t with elapsed := t.elapsed + (now - start) }
  | none => t

def stop (now : Nat) (t : Timer) : Timer := { t.accrue now with startedAt := none }

def resume (now : Nat) (t : Timer) : Timer :=
  { t with startedAt := t.startedAt.map fun _ => now }

end Timer

structure Timers where
  now : Nat := 0
  /-- The keys of the timers started and not stopped, the latest first. -/
  stack : List String := []
  timers : List (String × Timer) := []

namespace Timers

def get? (t : Timers) (key : String) : Option Timer := t.timers.lookup key

/-- Changes the timer of a key, which starts out unused. -/
def modify (key : String) (f : Timer → Timer) : List (String × Timer) → List (String × Timer)
  | [] => [(key, f {})]
  | (k, t) :: rest => if k = key then (k, f t) :: rest else (k, t) :: modify key f rest

def tick (t : Timers) : Timers := { t with now := t.now + 1 }

def resetTimer (t : Timers) (key : String) : Timers :=
  { t.tick with timers := modify key (fun _ => {}) t.timers }

def start (t : Timers) (key : String) : Timers :=
  { t.tick with
    stack := key :: t.stack
    timers := modify key (Timer.start t.now) t.timers }

def stop (t : Timers) : Timers :=
  match t.stack with
  | [] => t.tick
  | key :: stack => { t.tick with stack, timers := modify key (Timer.stop t.now) t.timers }

def suspend (t : Timers) : Timers :=
  { t.tick with timers := t.timers.map fun (key, timer) => (key, timer.accrue t.now) }

def resume (t : Timers) : Timers :=
  { t.tick with timers := t.timers.map fun (key, timer) => (key, timer.resume t.now) }

def elapsed (t : Timers) (key : String) : Nat := ((t.get? key).map (·.elapsed)).getD 0

def calls (t : Timers) (key : String) : Nat := ((t.get? key).map (·.calls)).getD 0

/-- A span of the clock, whose unit is written as a nanosecond. -/
def spanText (span : Nat) : String := toString span ++ "ns"

/-- One line for each timer, sorted by key. -/
def report (t : Timers) : List String :=
  (t.timers.mergeSort fun a b => !(b.1 < a.1)).map fun (key, timer) =>
    String.ofList (Decimal.padRight 16 key.toList) ++ " : " ++
      spanText timer.elapsed ++ " (" ++ toString timer.calls ++ " calls)"

end Timers

end PrimalDual
