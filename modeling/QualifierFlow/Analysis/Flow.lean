import QualifierFlow.Store.Basic

/-! What flows between nodes: one store, or one store for each outcome of a condition. -/
namespace QualifierFlow

inductive Branch
  | whenTrue | whenFalse
  deriving DecidableEq, Repr

def Branch.name : Branch → String
  | .whenTrue => "then"
  | .whenFalse => "else"

inductive Flow (V : Type)
  | plain (store : Store V)
  | split (whenTrue whenFalse : Store V)
  deriving DecidableEq

namespace Flow
variable {V : Type}

def isSplit : Flow V → Bool
  | .plain _ => false
  | .split .. => true

/-- The store of a branch; a plain flow has the same on both. -/
def on : Flow V → Branch → Store V
  | .plain store, _ => store
  | .split whenTrue _, .whenTrue => whenTrue
  | .split _ whenFalse, .whenFalse => whenFalse

def diverge (flow : Flow V) : Flow V := .split (flow.on .whenTrue) (flow.on .whenFalse)

def adjust (flow : Flow V) (branch : Branch) (change : Store V → Store V) : Flow V :=
  match branch with
  | .whenTrue => .split (change (flow.on .whenTrue)) (flow.on .whenFalse)
  | .whenFalse => .split (flow.on .whenTrue) (change (flow.on .whenFalse))

def swap (flow : Flow V) : Flow V := .split (flow.on .whenFalse) (flow.on .whenTrue)

def merge [Domain V] : Flow V → Store V
  | .plain store => store
  | .split whenTrue whenFalse => whenTrue.join whenFalse

end Flow

structure Outcome (V : Type) where
  value : Option V
  flow : Flow V
  deriving DecidableEq

end QualifierFlow
