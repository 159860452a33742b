/-! What a run of the analysis takes for granted about the program. -/
namespace QualifierFlow

structure Assumptions where
  /-- Other threads may change shared state at any time. -/
  concurrent : Bool := false
  /-- No invoked method has side effects. -/
  sideEffectFree : Bool := false
  deriving DecidableEq, Repr, Inhabited

def Assumptions.sequential (assumptions : Assumptions) : Bool := !assumptions.concurrent

end QualifierFlow
