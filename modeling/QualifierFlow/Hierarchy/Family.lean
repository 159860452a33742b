import QualifierFlow.Hierarchy.Basic

/-! Several hierarchies side by side. Qualifiers of different hierarchies are never equal; when they
are compared, each hierarchy reads the other's qualifier as its own one declared at the same
position. Within one hierarchy this is the hierarchy's own comparison. A join needs the position to
be one of the hierarchy's, which it is for the hierarchy's own qualifiers. -/
namespace QualifierFlow

namespace Qualifier
variable {H : Hierarchy}

def position (a : Qualifier H) : Nat :=
  H.declarations.length - 1 - H.declarations.reverse.findIdx (·.name == a.name)

theorem position_lt (a : Qualifier H) : a.position < H.declarations.length := by
  have := List.length_pos_iff.2 H.nonempty
  simp only [position]
  omega

end Qualifier

/-- The qualifier whose last declaration stands at the position. -/
def Hierarchy.atPosition? (H : Hierarchy) (position : Nat) : Option (Qualifier H) :=
  (H.names[position]?.bind H.qualifier?).filter (·.position == position)

/-- At the position of a qualifier the hierarchy has the last declaration of its name. -/
theorem Qualifier.atPosition?_position {H : Hierarchy} (a : Qualifier H) :
    H.atPosition? a.position = some a := by
  obtain ⟨declaration, member, named⟩ := List.mem_map.1 a.declared
  have found : H.declarations.reverse.findIdx (·.name == a.name) < H.declarations.reverse.length :=
    List.findIdx_lt_length_of_exists ⟨declaration, by simpa using member, by simp [named]⟩
  have last : (H.declarations.reverse[H.declarations.reverse.findIdx (·.name == a.name)]).name =
      a.name := by
    simpa using List.findIdx_getElem (w := found)
  rw [List.getElem_reverse] at last
  have name : H.names[a.position]? = some a.name := by
    rw [Hierarchy.names, List.getElem?_map, List.getElem?_eq_getElem a.position_lt]
    exact congrArg some last
  simp [Hierarchy.atPosition?, name, Hierarchy.qualifier?, a.declared]

structure Member (family : List Hierarchy) where
  origin : Fin family.length
  value : Qualifier family[origin]

namespace Member
variable {family : List Hierarchy}

instance : DecidableEq (Member family)
  | ⟨i, a⟩, ⟨j, b⟩ =>
    if same : i = j then
      decidable_of_iff (same ▸ a = b) (by subst same; simp)
    else isFalse fun equal => same (congrArg origin equal)

def text (a : Member family) : String := a.value.text

def readAs (a b : Member family) : Option (Qualifier family[a.origin]) :=
  family[a.origin].atPosition? b.value.position

def isBelow (a b : Member family) : Bool :=
  (a.readAs b).any (a.value ≤ ·)

/-- The join in the hierarchy of `a`; a position that no qualifier has for its own is above
nothing. -/
def join (a b : Member family) : Member family where
  origin := a.origin
  value :=
    match a.readAs b with
    | some other => a.value.join other
    | none => family[a.origin].top

/-- A member whose position lies past the last declaration of a hierarchy. -/
structure Unplaced (family : List Hierarchy) where
  member : Member family
  origin : Fin family.length
  deriving DecidableEq

/-- The join, where the hierarchy of `a` has a declaration at the position of `b`. -/
def join? (a b : Member family) : Except (Unplaced family) (Member family) :=
  if b.value.position < family[a.origin].declarations.length then .ok (a.join b)
  else .error ⟨b, a.origin⟩

theorem join?_of_origin_eq {a b : Member family} (same : a.origin = b.origin) :
    a.join? b = .ok (a.join b) := by
  have sizes : family[b.origin].declarations.length = family[a.origin].declarations.length :=
    congrArg (fun origin => family[origin].declarations.length) same.symm
  exact if_pos (Nat.lt_of_lt_of_eq b.value.position_lt sizes)

/-- The join of two members that may be absent, absent when one of them is. -/
def joinBoth? : Option (Member family) → Option (Member family) →
    Except (Unplaced family) (Option (Member family))
  | some a, some b => some <$> a.join? b
  | _, _ => .ok none

def finer (a b : Member family) (fallback : Option (Member family)) : Option (Member family) :=
  if a.isBelow b then some a else if b.isBelow a then some b else fallback

instance : Domain (Member family) := ⟨join, finer, text⟩

end Member
end QualifierFlow
