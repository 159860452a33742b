import QualifierFlow.Proofs.Store.Precision

/-! Merging stores where many paths of a program meet. In a hierarchy that is acyclic and has all
joins, the join of two stores is their least upper bound in the precision order. So any number of
stores is merged to one and the same store, in whichever order and grouping they are joined. -/
namespace QualifierFlow
variable {V : Type} {H : Hierarchy}

/-- A way to merge stores, with the stores at the leaves and a join at every fork. -/
inductive Merging (V : Type)
  | single (store : Store V)
  | join (first second : Merging V)

namespace Merging

def stores : Merging V → List (Store V)
  | .single store => [store]
  | .join first second => first.stores ++ second.stores

def merged [Domain V] : Merging V → Store V
  | .single store => store
  | .join first second => first.merged.join second.merged

end Merging

namespace Store
variable {store other upper : Store (Qualifier H)}

section Joins
variable (acyclic : H.IsAcyclic) (joins : H.HasJoins)
include acyclic joins

theorem refines_join_left (store other : Store (Qualifier H)) :
    store.Refines (store.join other) where
  assumptions := rfl
  facts path c known := by
    rw [get?_join] at known
    obtain ⟨a, first, rest⟩ := Option.bind_eq_some_iff.1 known
    obtain ⟨b, _, rfl⟩ := Option.map_eq_some_iff.1 rest
    exact ⟨a, first, (Qualifier.isJoin_join acyclic joins a b).left⟩

theorem refines_join_right (alike : store.assumptions = other.assumptions) :
    other.Refines (store.join other) where
  assumptions := alike.symm
  facts path c known := by
    rw [get?_join] at known
    obtain ⟨a, _, rest⟩ := Option.bind_eq_some_iff.1 known
    obtain ⟨b, second, rfl⟩ := Option.map_eq_some_iff.1 rest
    exact ⟨b, second, (Qualifier.isJoin_join acyclic joins a b).right⟩

theorem join_refines (left : store.Refines upper) (right : other.Refines upper) :
    (store.join other).Refines upper where
  assumptions := left.assumptions
  facts path c known := by
    obtain ⟨a, first, below⟩ := left.facts path c known
    obtain ⟨b, second, below'⟩ := right.facts path c known
    have least : a.join b ≤ c := (Qualifier.isJoin_join acyclic joins a b).below c below below'
    exact ⟨a.join b, by rw [get?_join, first, second]; rfl, least⟩

end Joins
end Store

namespace Merging
variable {p q : Merging (Qualifier H)} {assumptions : Assumptions}

private theorem assumptions_merged (alike : ∀ store ∈ p.stores, store.assumptions = assumptions) :
    p.merged.assumptions = assumptions := by
  induction p with
  | single store => exact alike store (by simp [stores])
  | join first second ihFirst _ =>
    exact ihFirst fun store member => alike store (List.mem_append_left _ member)

section Joins
variable (acyclic : H.IsAcyclic) (joins : H.HasJoins)
include acyclic joins

/-- The merged store is the most precise one that is above all stores at the leaves. -/
theorem merged_refines_iff (alike : ∀ store ∈ p.stores, store.assumptions = assumptions)
    {upper : Store (Qualifier H)} :
    p.merged.Refines upper ↔ ∀ store ∈ p.stores, store.Refines upper := by
  induction p with
  | single store => simp [merged, stores]
  | join first second ihFirst ihSecond =>
    obtain ⟨alikeFirst, alikeSecond⟩ := List.forall_mem_append.1 alike
    have same : first.merged.assumptions = second.merged.assumptions := by
      rw [assumptions_merged alikeFirst, assumptions_merged alikeSecond]
    have left := first.merged.refines_join_left acyclic joins second.merged
    have right := Store.refines_join_right acyclic joins same
    rw [stores, List.forall_mem_append, ← ihFirst alikeFirst, ← ihSecond alikeSecond]
    constructor
    · intro above
      exact ⟨left.trans above, right.trans above⟩
    · rintro ⟨aboveFirst, aboveSecond⟩
      exact Store.join_refines acyclic joins aboveFirst aboveSecond

private theorem merged_refines_of_subset
    (alike : ∀ store ∈ p.stores, store.assumptions = assumptions)
    (alike' : ∀ store ∈ q.stores, store.assumptions = assumptions)
    (subset : p.stores ⊆ q.stores) : p.merged.Refines q.merged := by
  rw [merged_refines_iff acyclic joins alike]
  intro store member
  have above := (merged_refines_iff acyclic joins alike').1 (Store.refines_refl q.merged)
  exact above store (subset member)

/-- Not even how often a store is merged makes a difference. -/
private theorem merged_eq_of_mem_iff (alike : ∀ store ∈ p.stores, store.assumptions = assumptions)
    (same : ∀ store, store ∈ p.stores ↔ store ∈ q.stores) : p.merged = q.merged := by
  have alike' : ∀ store ∈ q.stores, store.assumptions = assumptions :=
    fun store member => alike store ((same store).2 member)
  apply Store.Refines.antisymm acyclic
  · exact merged_refines_of_subset acyclic joins alike alike' fun store => (same store).1
  · exact merged_refines_of_subset acyclic joins alike' alike fun store => (same store).2

/-- Among stores with the same assumptions the join is the least upper bound, every way to merge
the same stores gives the same store, and a store joined with itself stays what it is. -/
theorem join_isLeast_merged_unique :
    (∀ store other : Store (Qualifier H), store.assumptions = other.assumptions →
      store.Refines (store.join other) ∧ other.Refines (store.join other) ∧
        ∀ upper, store.Refines upper → other.Refines upper → (store.join other).Refines upper) ∧
    (∀ (assumptions : Assumptions) (p q : Merging (Qualifier H)),
      (∀ store ∈ p.stores, store.assumptions = assumptions) → p.stores.Perm q.stores →
        p.merged = q.merged) ∧
    ∀ store : Store (Qualifier H), store.join store = store := by
  refine ⟨fun store other alike => ?_, fun assumptions p q alike perm => ?_, fun store => ?_⟩
  · refine ⟨store.refines_join_left acyclic joins other, ?_, fun upper => ?_⟩
    · exact Store.refines_join_right acyclic joins alike
    · exact Store.join_refines acyclic joins
  · exact merged_eq_of_mem_iff acyclic joins alike fun store => perm.mem_iff
  · have alike : ∀ leaf ∈ (join (single store) (single store)).stores,
        leaf.assumptions = store.assumptions := by simp [stores]
    have twice : (join (single store) (single store)).merged = (single store).merged :=
      merged_eq_of_mem_iff acyclic joins alike fun leaf => by simp [stores]
    exact twice

end Joins

/-- Three stores in two orders and groupings. Of the two variables, one is known in all of them, with
qualifiers that only the top is above. -/
theorem join_isLeast_merged_unique_three :
    let x : Path := .var ⟨⟨0⟩, "x"⟩
    let y : Path := .var ⟨⟨1⟩, "y"⟩
    let before : Store (Qualifier .diamond) := (Store.empty {}).record x .left
    let once := before.record y .right
    let twice := once.record x .right
    let p := join (join (single before) (single once)) (single twice)
    let q := join (single twice) (join (single once) (single before))
    Hierarchy.diamond.IsAcyclic ∧ Hierarchy.diamond.HasJoins ∧
      (∀ store ∈ p.stores, store.assumptions = {}) ∧ p.stores.Perm q.stores ∧
      p.merged = q.merged ∧ p.merged.get? x = some Hierarchy.diamond.top ∧
      p.merged.get? y = none ∧ once.Refines (once.join twice) := by
  intro x y before once twice p q
  have acyclic : Hierarchy.diamond.IsAcyclic := by decide
  have joins : Hierarchy.diamond.HasJoins := by decide
  have alike : ∀ store ∈ p.stores, store.assumptions = {} := by decide
  have perm : p.stores.Perm q.stores := (List.reverse_perm p.stores).symm
  obtain ⟨least, unique, -⟩ := join_isLeast_merged_unique acyclic joins
  refine ⟨acyclic, joins, alike, perm, unique {} p q alike perm, by decide, by decide, ?_⟩
  exact (least once twice rfl).1

end Merging
end QualifierFlow
