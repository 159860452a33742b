import Mathlib.Data.Fintype.EquivFin
import Mathlib.Order.Minimal
import Mathlib.Tactic.TFAE
import QualifierFlow.Hierarchy.Family
import QualifierFlow.Proofs.Hierarchy.Join

/-! Joins as least upper bounds. In an acyclic hierarchy with all qualifiers below the top, two
qualifiers are joined to their least common supertype if there is one, and to the top if there is
none. Falling back to the top keeps the join symmetric and an upper bound. Associative and monotone
it is only in hierarchies that never fall back. -/
namespace QualifierFlow
variable {H : Hierarchy}

namespace Hierarchy

def IsTopped (H : Hierarchy) : Prop := ∀ a : Qualifier H, a ≤ H.top

instance (H : Hierarchy) : Decidable H.IsTopped :=
  inferInstanceAs (Decidable (∀ a : Qualifier H, a ≤ H.top))

end Hierarchy

namespace Qualifier

instance : Preorder (Qualifier H) where
  le_refl := le_refl
  le_trans _ _ _ := le_trans

instance : Finite (Qualifier H) :=
  (Fintype.ofList H.qualifiers mem_qualifiers).finite

theorem IsJoin.symm {a b least : Qualifier H} (join : a.IsJoin b least) : b.IsJoin a least :=
  ⟨join.right, join.left, fun other right left => join.below other left right⟩

theorem isJoin_of_le {a b : Qualifier H} (up : a ≤ b) : a.IsJoin b b :=
  ⟨up, le_refl b, fun _ _ right => right⟩

theorem join_of_le {a b : Qualifier H} (up : a ≤ b) : a.join b = b :=
  if_pos up

section Topped
variable (topped : H.IsTopped)
include topped

theorem le_join (a b : Qualifier H) : a ≤ a.join b ∧ b ≤ a.join b := by
  unfold join
  split
  · next up => exact ⟨up, le_refl b⟩
  split
  · next down => exact ⟨le_refl a, down⟩
  split
  · next least single =>
    have member : least ∈ lowest (commonSupers a b) := by simp [single]
    exact mem_commonSupers.1 (mem_lowest.1 member).1
  · exact ⟨topped a, topped b⟩

private theorem hasJoins_of_join_le (least : ∀ a b c : Qualifier H, a ≤ c → b ≤ c → a.join b ≤ c) :
    H.HasJoins := by
  intro a b
  obtain ⟨left, right⟩ := le_join topped a b
  exact ⟨a.join b, left, right, least a b⟩

/-- A common supertype takes up both qualifiers one after the other, so it takes up their join. -/
private theorem hasJoins_of_assoc
    (assoc : ∀ a b c : Qualifier H, (a.join b).join c = a.join (b.join c)) : H.HasJoins := by
  apply hasJoins_of_join_le topped
  intro a b c left right
  have taken : (a.join b).join c = c := by rw [assoc, join_of_le right, join_of_le left]
  have below : a.join b ≤ (a.join b).join c := (le_join topped _ c).1
  rwa [taken] at below

private theorem hasJoins_of_mono
    (mono : ∀ a a' b b' : Qualifier H, a ≤ a' → b ≤ b' → a.join b ≤ a'.join b') : H.HasJoins := by
  apply hasJoins_of_join_le topped
  intro a b c left right
  have below : a.join b ≤ c.join c := mono a c b c left right
  rwa [join_of_le (le_refl c)] at below

end Topped

section Acyclic
variable (acyclic : H.IsAcyclic)
include acyclic

/-- Since a hierarchy is finite, there is a lowest common supertype below every common one. -/
private theorem exists_mem_lowest_le {a b c : Qualifier H} (left : a ≤ c) (right : b ≤ c) :
    ∃ low ∈ lowest (commonSupers a b), low ≤ c := by
  obtain ⟨low, below, common, minimal⟩ :=
    exists_minimal_le_of_wellFoundedLT (fun c => a ≤ c ∧ b ≤ c) c ⟨left, right⟩
  refine ⟨low, mem_lowest.2 ⟨mem_commonSupers.2 common, ?_⟩, below⟩
  intro member inside edge
  have down : member ≤ low := le_iff_reaches.2 (.step edge (.refl low))
  have up : low ≤ member := minimal (mem_commonSupers.1 inside) down
  exact acyclic low member up down

private theorem isJoin_of_lowest_eq {a b least : Qualifier H}
    (single : lowest (commonSupers a b) = [least]) : a.IsJoin b least := by
  have member : least ∈ lowest (commonSupers a b) := by simp [single]
  obtain ⟨left, right⟩ := mem_commonSupers.1 (mem_lowest.1 member).1
  refine ⟨left, right, fun other left right => ?_⟩
  obtain ⟨low, inside, below⟩ := exists_mem_lowest_le acyclic left right
  have same : low = least := by simpa [single] using inside
  exact same ▸ below

theorem join_eq_top {a b : Qualifier H} (none : ¬ ∃ least, a.IsJoin b least) :
    a.join b = H.top := by
  unfold join
  split
  · next up => exact absurd ⟨b, isJoin_of_le up⟩ none
  split
  · next down => exact absurd ⟨a, (isJoin_of_le down).symm⟩ none
  split
  · next least single => exact absurd ⟨least, isJoin_of_lowest_eq acyclic single⟩ none
  · rfl

theorem join_comm (a b : Qualifier H) : a.join b = b.join a := by
  by_cases found : ∃ least, a.IsJoin b least
  · obtain ⟨least, join⟩ := found
    rw [join.join_eq acyclic, join.symm.join_eq acyclic]
  · have none : ¬ ∃ least, b.IsJoin a least := fun ⟨least, join⟩ => found ⟨least, join.symm⟩
    rw [join_eq_top acyclic found, join_eq_top acyclic none]

theorem join_assoc (joins : H.HasJoins) (a b c : Qualifier H) :
    (a.join b).join c = a.join (b.join c) := by
  have first := isJoin_join acyclic joins a b
  have last := isJoin_join acyclic joins b c
  have left := isJoin_join acyclic joins (a.join b) c
  have right := isJoin_join acyclic joins a (b.join c)
  apply acyclic
  · apply left.below
    · exact first.below _ right.left (le_trans last.left right.right)
    · exact le_trans last.right right.right
  · apply right.below
    · exact le_trans first.left left.left
    · exact last.below _ (le_trans first.right left.left) left.right

variable (topped : H.IsTopped)
include topped

/-- Whatever the declarations, the join is an upper bound, the least one if there is a least one and
the top if not, in whichever order it is asked for. It is the qualifier that its own name denotes,
which stands for the last declaration of that name and never for an earlier one. -/
theorem join_isLeast_or_top (a b : Qualifier H) :
    (a ≤ a.join b ∧ b ≤ a.join b) ∧
    (∀ least, a.IsJoin b least → a.join b = least) ∧
    ((¬ ∃ least, a.IsJoin b least) → a.join b = H.top) ∧
    a.join b = b.join a ∧
    H.qualifier? (a.join b).name = some (a.join b) ∧
    H.atPosition? (a.join b).position = some (a.join b) := by
  have named : H.qualifier? (a.join b).name = some (a.join b) := dif_pos (a.join b).declared
  refine ⟨le_join topped a b, ?_, join_eq_top acyclic, join_comm acyclic a b, named, ?_⟩
  · exact fun least join => join.join_eq acyclic
  · exact atPosition?_position _

/-- The join is associative, and is monotone, exactly if every two qualifiers have a least common
supertype. -/
theorem hasJoins_tfae : List.TFAE [
    H.HasJoins,
    ∀ a b c : Qualifier H, (a.join b).join c = a.join (b.join c),
    ∀ a a' b b' : Qualifier H, a ≤ a' → b ≤ b' → a.join b ≤ a'.join b'] := by
  tfae_have 1 → 2 := join_assoc acyclic
  tfae_have 2 → 1 := hasJoins_of_assoc topped
  tfae_have 1 → 3 := fun joins _ _ _ _ left right => join_mono acyclic joins left right
  tfae_have 3 → 1 := hasJoins_of_mono topped
  tfae_finish

end Acyclic
end Qualifier

/-- The first qualifier is declared in two parts, and one of its supertypes not at all. -/
def Hierarchy.crossed : Hierarchy where
  declarations := [⟨"Top", []⟩, ⟨"Left", ["Top"]⟩, ⟨"Right", ["Top"]⟩, ⟨"First", ["Left"]⟩,
    ⟨"Second", ["Left", "Right"]⟩, ⟨"First", ["Right", "Undeclared"]⟩]
  nonempty := by simp

namespace Qualifier

def first : Qualifier .crossed := ⟨"First", by decide⟩

def second : Qualifier .crossed := ⟨"Second", by decide⟩

theorem join_isLeast_or_top_crossed :
    Hierarchy.crossed.IsAcyclic ∧ Hierarchy.crossed.IsTopped ∧
      (¬ ∃ least, first.IsJoin second least) ∧ first.join second = Hierarchy.crossed.top ∧
      first.join second = second.join first := by
  have acyclic : Hierarchy.crossed.IsAcyclic := by decide +kernel
  have topped : Hierarchy.crossed.IsTopped := by decide +kernel
  have none : ¬ ∃ least, first.IsJoin second least := by decide +kernel
  obtain ⟨-, -, top, symmetric, -⟩ := join_isLeast_or_top acyclic topped first second
  exact ⟨acyclic, topped, none, top none, symmetric⟩

theorem hasJoins_tfae_crossed :
    Hierarchy.crossed.IsAcyclic ∧ Hierarchy.crossed.IsTopped ∧ ¬ Hierarchy.crossed.HasJoins ∧
      ¬ ∀ a b c : Qualifier .crossed, (a.join b).join c = a.join (b.join c) := by
  have acyclic : Hierarchy.crossed.IsAcyclic := by decide +kernel
  have topped : Hierarchy.crossed.IsTopped := by decide +kernel
  have falls : ¬ Hierarchy.crossed.HasJoins := by decide +kernel
  have equivalent := (hasJoins_tfae acyclic topped).out 0 1
  exact ⟨acyclic, topped, falls, fun assoc => falls (equivalent.2 assoc)⟩

end Qualifier
end QualifierFlow
