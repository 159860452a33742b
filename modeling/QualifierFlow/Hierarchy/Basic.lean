import QualifierFlow.Closure
import QualifierFlow.Domain

/-! Hierarchies of qualifiers. A hierarchy is a list of declarations, each a name with its direct
supertypes; declarations of one name act together and undeclared supertypes have no effect. One
qualifier is below another when a chain of declarations leads up to it. -/
namespace QualifierFlow

structure Declaration where
  name : String
  supers : List String
  deriving DecidableEq, Repr

/-- The first declaration names the top. -/
structure Hierarchy where
  declarations : List Declaration
  nonempty : declarations ≠ []

namespace Hierarchy

def ofDeclarations? (declarations : List Declaration) : Option Hierarchy :=
  if nonempty : declarations ≠ [] then some ⟨declarations, nonempty⟩ else none

def names (H : Hierarchy) : List String := H.declarations.map (·.name)

end Hierarchy

structure Qualifier (H : Hierarchy) where
  name : String
  declared : name ∈ H.names

namespace Hierarchy

def qualifier? (H : Hierarchy) (name : String) : Option (Qualifier H) :=
  if declared : name ∈ H.names then some ⟨name, declared⟩ else none

def contains (H : Hierarchy) (name : String) : Bool := H.names.contains name

def top (H : Hierarchy) : Qualifier H where
  name := (H.declarations.head H.nonempty).name
  declared := List.mem_map.2 ⟨_, List.head_mem H.nonempty, rfl⟩

end Hierarchy

namespace Qualifier
variable {H : Hierarchy}

instance : DecidableEq (Qualifier H) := fun a b =>
  decidable_of_iff (a.name = b.name) (by cases a; cases b; simp)

def text (a : Qualifier H) : String := "@" ++ a.name

def directSupers (a : Qualifier H) : List (Qualifier H) :=
  (H.declarations.filter (·.name == a.name)).flatMap fun declaration =>
    declaration.supers.filterMap H.qualifier?

/-- The qualifiers that a qualifier is below, itself first. -/
def supers (a : Qualifier H) : List (Qualifier H) :=
  Closure.reachable directSupers H.declarations.length a

instance : LE (Qualifier H) := ⟨fun a b => b ∈ a.supers⟩

instance (a b : Qualifier H) : Decidable (a ≤ b) := inferInstanceAs (Decidable (b ∈ a.supers))

def commonSupers (a b : Qualifier H) : List (Qualifier H) :=
  let aboveB := b.supers
  a.supers.filter (aboveB.contains ·)

/-- Those of an upward closed list that no other member has as a direct supertype, which are those
that no other member is below. -/
def lowest (members : List (Qualifier H)) : List (Qualifier H) :=
  let covered := members.flatMap fun member => member.directSupers.filter (· ≠ member)
  members.filter (!covered.contains ·)

/-- The join of two qualifiers: the larger of comparable ones, else the one lowest common
supertype, else the top. -/
def join (a b : Qualifier H) : Qualifier H :=
  if a ≤ b then b
  else if b ≤ a then a
  else
    match lowest (commonSupers a b) with
    | [least] => least
    | _ => H.top

/-- The smaller of comparable qualifiers, else the fallback. -/
def finer (a b : Qualifier H) (fallback : Option (Qualifier H)) : Option (Qualifier H) :=
  if a ≤ b then some a else if b ≤ a then some b else fallback

instance : Domain (Qualifier H) := ⟨join, finer, text⟩

end Qualifier
end QualifierFlow
