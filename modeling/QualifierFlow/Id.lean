/-! Numbered handles. Nodes, trees, variables, fields, types and methods are numbered
separately, so each kind of entity has handles of its own type. -/
namespace QualifierFlow

inductive Entity
  | node | tree | var | field | type | method
  deriving DecidableEq, Repr

def Entity.letter : Entity → String
  | .node => "n"
  | .tree => "t"
  | .var => "l"
  | .field => "f"
  | .type => "T"
  | .method => "m"

structure Id (entity : Entity) where
  index : Nat
  deriving DecidableEq, Repr

namespace Id

def text {entity : Entity} (id : Id entity) : String :=
  entity.letter ++ toString id.index

instance (entity : Entity) : ToString (Id entity) := ⟨text⟩

instance (entity : Entity) : Ord (Id entity) := ⟨compareOn index⟩

instance (entity : Entity) : Std.TransOrd (Id entity) :=
  inferInstanceAs (Std.TransCmp (compareOn index))

instance (entity : Entity) : Std.LawfulEqOrd (Id entity) where
  eq_of_compare {a b} equal := by
    cases a; cases b
    exact congrArg Id.mk (Std.LawfulEqOrd.eq_of_compare equal)

end Id
end QualifierFlow
