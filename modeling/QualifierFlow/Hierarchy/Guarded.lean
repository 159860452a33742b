import QualifierFlow.Hierarchy.Basic

/-! Qualifiers of a hierarchy of which some ordered pairs refuse to be compared. They show what an
analysis does when a domain breaks its laws; with no refused pairs they are the qualifiers. -/
namespace QualifierFlow

structure Guarded (H : Hierarchy) (refused : List (String × String)) where
  qualifier : Qualifier H
  deriving DecidableEq

namespace Guarded
variable {H : Hierarchy} {refused : List (String × String)}

def join (a b : Guarded H refused) : Guarded H refused := ⟨a.qualifier.join b.qualifier⟩

/-- The more precise of two qualifiers, unless the pair is refused. -/
def finer (a b : Guarded H refused) (fallback : Option (Guarded H refused)) :
    Option (Guarded H refused) :=
  if refused.contains (a.qualifier.name, b.qualifier.name) then none
  else (a.qualifier.finer b.qualifier (fallback.map qualifier)).map Guarded.mk

def text (a : Guarded H refused) : String := a.qualifier.text

instance : Domain (Guarded H refused) := ⟨join, finer, text⟩

end Guarded
end QualifierFlow
