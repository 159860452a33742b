/-! Abstract values. The analysis knows a value by two operations only: the join of two values and
the more precise of two values. Absent values stand for a lack of knowledge. -/
namespace QualifierFlow

class Domain (V : Type) where
  join : V → V → V
  /-- The more precise of two values; `fallback` is the answer when neither is. -/
  finer (first second : V) (fallback : Option V) : Option V
  text : V → String

/-- Two values of which neither is more precise, though a fallback was given. -/
structure Violation (V : Type) where
  first : V
  second : V
  deriving DecidableEq, Repr

namespace Violation

def messageOf (first second : String) : String :=
  "lattice violation: no most specific value of " ++ first ++ " and " ++ second ++
    " despite a default"

def message {V : Type} [Domain V] (violation : Violation V) : String :=
  messageOf (Domain.text violation.first) (Domain.text violation.second)

end Violation

inductive Side
  | first | second
  deriving DecidableEq, Repr

def Side.pick {α : Type} (side : Side) (first second : α) : α :=
  match side with
  | .first => first
  | .second => second

namespace Domain
variable {V : Type} [Domain V]

def joinBoth : Option V → Option V → Option V
  | some a, some b => some (join a b)
  | _, _ => none

/-- The more precise of two values that may be absent; the preferred side settles
incomparable values. -/
def finerOf (first second : Option V) (preferred : Side) :
    Except (Violation V) (Option V) :=
  match first, second with
  | none, none => .ok none
  | some v, none => .ok (some v)
  | none, some v => .ok (some v)
  | some a, some b =>
    match finer a b (some (preferred.pick a b)) with
    | some v => .ok (some v)
    | none => .error ⟨a, b⟩

end Domain
end QualifierFlow
