import QualifierFlow.Hierarchy.Basic

/-! The order of a hierarchy is reachability: one qualifier is below another exactly when a chain of
listed supertypes leads from it to the other. Hence the order is reflexive and transitive, with
cycles or without. -/
namespace QualifierFlow
variable {H : Hierarchy}

def Hierarchy.qualifiers (H : Hierarchy) : List (Qualifier H) :=
  H.names.attach.map fun name => ⟨name.1, name.2⟩

namespace Qualifier

theorem mem_qualifiers (a : Qualifier H) : a ∈ H.qualifiers :=
  List.mem_map.2 ⟨⟨a.name, a.declared⟩, List.mem_attach _ _, rfl⟩

theorem le_iff_reaches {a b : Qualifier H} : a ≤ b ↔ Closure.Reaches directSupers a b :=
  Closure.mem_reachable_iff (fun _ _ b _ => b.mem_qualifiers) a.mem_qualifiers
    (by simp [Hierarchy.qualifiers, Hierarchy.names])

theorem le_refl (a : Qualifier H) : a ≤ a := le_iff_reaches.2 (.refl a)

theorem le_trans {a b c : Qualifier H} (first : a ≤ b) (second : b ≤ c) : a ≤ c :=
  le_iff_reaches.2 ((le_iff_reaches.1 first).trans (le_iff_reaches.1 second))

/-- The direct supertypes of a qualifier are the declared names listed in a declaration of it. -/
theorem mem_directSupers {a b : Qualifier H} : b ∈ a.directSupers ↔
    ∃ declaration ∈ H.declarations, declaration.name = a.name ∧ b.name ∈ declaration.supers := by
  simp only [directSupers, List.mem_flatMap, List.mem_filter, List.mem_filterMap, beq_iff_eq,
    Hierarchy.qualifier?, and_assoc]
  refine exists_congr fun declaration => and_congr_right fun _ => and_congr_right fun _ => ?_
  constructor
  · rintro ⟨name, listed, found⟩
    split at found
    · cases found
      exact listed
    · contradiction
  · exact fun listed => ⟨b.name, listed, by simp [b.declared]⟩

end Qualifier
end QualifierFlow
