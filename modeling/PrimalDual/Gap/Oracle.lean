import PrimalDual.Problem

/-!
# Duality gap oracles

An oracle evaluates the normalized duality gap of a problem over the ball of radius `r` around a
point `(x₀, y₀)`: the greatest value of
`(b - A x₀) · y + (Aᵀ y₀ - c) · x + c · x₀ - b · y₀` over the `(x, y)` in the ball with `x ≥ 0`,
divided by `r`. It may keep a state from one query to the next.
-/
namespace PrimalDual

inductive GapError where
  | subproblemFailed (reason : String)
  | illPosed (reason : String)
  | unavailable
  deriving DecidableEq

def GapError.message : GapError → String
  | .subproblemFailed reason => "Duality gap subproblem failed: " ++ reason
  | .illPosed reason => "Duality gap subproblem is ill-posed: " ++ reason
  | .unavailable => "No duality gap oracle is configured"

class GapOracle (ω T : Type) where
  /-- The answer to a query, and the state after it. -/
  ask : ω → List T → T → Problem T → Except Fault (Except GapError T × ω)

end PrimalDual
