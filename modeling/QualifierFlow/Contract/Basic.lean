import QualifierFlow.Id
import QualifierFlow.SortedMap

/-! Method contracts: what holds on entry, on normal exit, and on normal exit with a given result.
Every clause names an expression and the qualifier claimed for it; clauses are kept as sets and
always listed in increasing order. -/
namespace QualifierFlow

structure Clause where
  expression : String
  qualifier : String
  deriving DecidableEq, Repr

/-- A clause that holds when the method returns the given result. -/
structure ResultClause extends Clause where
  result : Bool
  deriving DecidableEq, Repr

namespace Clause

instance : Ord Clause := ⟨compareLex (compareOn expression) (compareOn qualifier)⟩

instance : Std.TransOrd Clause :=
  inferInstanceAs (Std.TransCmp (compareLex (compareOn expression) (compareOn qualifier)))

instance : Std.LawfulEqOrd Clause where
  eq_of_compare {a b} equal := by
    obtain ⟨expressions, qualifiers⟩ := Ordering.then_eq_eq.1 equal
    cases a; cases b
    simp_all [compareOn]

end Clause

namespace ResultClause

instance : Ord ResultClause := ⟨compareLex (compareOn toClause) (compareOn result)⟩

instance : Std.TransOrd ResultClause :=
  inferInstanceAs (Std.TransCmp (compareLex (compareOn toClause) (compareOn result)))

instance : Std.LawfulEqOrd ResultClause where
  eq_of_compare {a b} equal := by
    obtain ⟨clauses, results⟩ := Ordering.then_eq_eq.1 equal
    cases a; cases b
    simp_all [compareOn]

end ResultClause

abbrev ClauseSet (κ : Type) [Ord κ] := SortedMap κ Unit

structure Contract where
  requires : ClauseSet Clause := {}
  ensures : ClauseSet Clause := {}
  ensuresIf : ClauseSet ResultClause := {}

instance : Inhabited Contract := ⟨{}⟩

abbrev Contracts := Id .method → Contract

structure Specification where
  methods : SortedMap (Id .method) Contract := {}

namespace Specification

def empty : Specification := {}

def contractOf (spec : Specification) : Contracts := fun method =>
  (spec.methods.get? method).getD {}

private def revise (spec : Specification) (method : Id .method) (change : Contract → Contract) :
    Specification :=
  ⟨spec.methods.insert method (change (spec.contractOf method))⟩

theorem contractOf_revise (spec : Specification) (method : Id .method)
    (change : Contract → Contract) (other : Id .method) :
    (spec.revise method change).contractOf other =
      if other = method then change (spec.contractOf method) else spec.contractOf other := by
  unfold revise contractOf
  rw [SortedMap.get?_insert]
  split <;> rfl

def require (spec : Specification) (method : Id .method) (clause : Clause) : Specification :=
  spec.revise method fun c => { c with requires := c.requires.insert clause () }

def ensure (spec : Specification) (method : Id .method) (clause : Clause) : Specification :=
  spec.revise method fun c => { c with ensures := c.ensures.insert clause () }

def ensureIf (spec : Specification) (method : Id .method) (clause : ResultClause) :
    Specification :=
  spec.revise method fun c => { c with ensuresIf := c.ensuresIf.insert clause () }

end Specification
end QualifierFlow
