import QualifierFlow.Hierarchy.Order

/-! Joins of qualifiers. The join of two incomparable qualifiers is found by a search for the lowest
of their common supertypes. In an acyclic hierarchy that search finds the least common supertype
wherever there is one, and where there always is one the join is monotone. -/
namespace QualifierFlow
variable {H : Hierarchy}

/-- A common supertype that is below all others. -/
structure Qualifier.IsJoin (a b least : Qualifier H) : Prop where
  left : a ≤ least
  right : b ≤ least
  below : ∀ other, a ≤ other → b ≤ other → least ≤ other

namespace Hierarchy

/-- No two different qualifiers are below each other. -/
def IsAcyclic (H : Hierarchy) : Prop := ∀ a b : Qualifier H, a ≤ b → b ≤ a → a = b

def HasJoins (H : Hierarchy) : Prop := ∀ a b : Qualifier H, ∃ least, a.IsJoin b least

end Hierarchy

namespace Qualifier

private theorem forall_iff_forall_mem (p : Qualifier H → Prop) :
    (∀ a, p a) ↔ ∀ a ∈ H.qualifiers, p a :=
  ⟨fun all a _ => all a, fun all a => all a a.mem_qualifiers⟩

private theorem exists_iff_exists_mem (p : Qualifier H → Prop) :
    (∃ a, p a) ↔ ∃ a ∈ H.qualifiers, p a :=
  ⟨fun ⟨a, holds⟩ => ⟨a, a.mem_qualifiers, holds⟩, fun ⟨a, _, holds⟩ => ⟨a, holds⟩⟩

instance decidableForall (p : Qualifier H → Prop) [DecidablePred p] : Decidable (∀ a, p a) :=
  decidable_of_iff _ (forall_iff_forall_mem p).symm

instance decidableExists (p : Qualifier H → Prop) [DecidablePred p] : Decidable (∃ a, p a) :=
  decidable_of_iff _ (exists_iff_exists_mem p).symm

private theorem isJoin_iff {a b least : Qualifier H} : a.IsJoin b least ↔
    a ≤ least ∧ b ≤ least ∧ ∀ other, a ≤ other → b ≤ other → least ≤ other :=
  ⟨fun ⟨left, right, below⟩ => ⟨left, right, below⟩,
    fun ⟨left, right, below⟩ => ⟨left, right, below⟩⟩

instance (a b least : Qualifier H) : Decidable (a.IsJoin b least) :=
  decidable_of_iff _ isJoin_iff.symm

instance (H : Hierarchy) : Decidable H.IsAcyclic :=
  inferInstanceAs (Decidable (∀ a b : Qualifier H, a ≤ b → b ≤ a → a = b))

instance (H : Hierarchy) : Decidable H.HasJoins :=
  inferInstanceAs (Decidable (∀ a b : Qualifier H, ∃ least, a.IsJoin b least))

theorem mem_commonSupers {a b c : Qualifier H} : c ∈ commonSupers a b ↔ a ≤ c ∧ b ≤ c := by
  simp [commonSupers, LE.le]

private theorem commonSupers_nodup (a b : Qualifier H) : (commonSupers a b).Nodup :=
  (Closure.reachable_nodup directSupers H.declarations.length a).filter _

theorem mem_lowest {members : List (Qualifier H)} {a : Qualifier H} : a ∈ lowest members ↔
    a ∈ members ∧ ∀ member ∈ members, a ∈ member.directSupers → a = member := by
  simp only [lowest, List.mem_filter, List.contains_eq_mem, Bool.not_eq_true',
    decide_eq_false_iff_not, List.mem_flatMap, not_exists, not_and, decide_eq_true_eq, ne_eq,
    Decidable.not_not]

/-- A common supertype above the least one has a direct subtype that is a common supertype too. -/
private theorem IsJoin.eq_of_mem_lowest {a b least c : Qualifier H} (join : a.IsJoin b least)
    (member : c ∈ lowest (commonSupers a b)) : c = least := by
  obtain ⟨common, uncovered⟩ := mem_lowest.1 member
  obtain ⟨left, right⟩ := mem_commonSupers.1 common
  refine Decidable.byContradiction fun apart => ?_
  have path := le_iff_reaches.1 (join.below c left right)
  obtain ⟨before, reached, edge, different⟩ := path.last_step fun same => apart same.symm
  have above : least ≤ before := le_iff_reaches.2 reached
  have inside : before ∈ commonSupers a b :=
    mem_commonSupers.2 ⟨le_trans join.left above, le_trans join.right above⟩
  exact different (uncovered before inside edge).symm

private theorem IsJoin.mem_lowest {a b least : Qualifier H} (acyclic : H.IsAcyclic)
    (join : a.IsJoin b least) : least ∈ lowest (commonSupers a b) := by
  refine Qualifier.mem_lowest.2 ⟨mem_commonSupers.2 ⟨join.left, join.right⟩, ?_⟩
  intro member common edge
  obtain ⟨left, right⟩ := mem_commonSupers.1 common
  have up : member ≤ least := le_iff_reaches.2 (.step edge (.refl least))
  exact acyclic least member (join.below member left right) up

private theorem IsJoin.lowest_eq {a b least : Qualifier H} (acyclic : H.IsAcyclic)
    (join : a.IsJoin b least) : lowest (commonSupers a b) = [least] := by
  have nodup : (lowest (commonSupers a b)).Nodup := (commonSupers_nodup a b).filter _
  have member : ∀ c, c ∈ lowest (commonSupers a b) ↔ c ∈ [least] := by
    intro c
    rw [List.mem_singleton]
    exact ⟨join.eq_of_mem_lowest, fun same => same ▸ join.mem_lowest acyclic⟩
  exact List.perm_singleton.1 ((List.perm_ext_iff_of_nodup nodup (by simp)).2 member)

/-- The join of an acyclic hierarchy is the least common supertype wherever there is one. -/
theorem IsJoin.join_eq {a b least : Qualifier H} (acyclic : H.IsAcyclic)
    (join : a.IsJoin b least) : a.join b = least := by
  unfold Qualifier.join
  split
  · next up => exact acyclic b least join.right (join.below b up (le_refl b))
  split
  · next down => exact acyclic a least join.left (join.below a (le_refl a) down)
  · rw [join.lowest_eq acyclic]

theorem isJoin_join (acyclic : H.IsAcyclic) (joins : H.HasJoins) (a b : Qualifier H) :
    a.IsJoin b (a.join b) := by
  obtain ⟨least, join⟩ := joins a b
  rw [join.join_eq acyclic]
  exact join

theorem join_mono (acyclic : H.IsAcyclic) (joins : H.HasJoins) {a a' b b' : Qualifier H}
    (left : a ≤ a') (right : b ≤ b') : a.join b ≤ a'.join b' := by
  have upper := isJoin_join acyclic joins a' b'
  have lower := isJoin_join acyclic joins a b
  exact lower.below _ (le_trans left upper.left) (le_trans right upper.right)

end Qualifier

/-- Two incomparable qualifiers between a top and a bottom. -/
def Hierarchy.diamond : Hierarchy where
  declarations := [⟨"Top", []⟩, ⟨"Left", ["Top"]⟩, ⟨"Right", ["Top"]⟩, ⟨"Bottom", ["Left", "Right"]⟩]
  nonempty := by simp

namespace Qualifier

def left : Qualifier .diamond := ⟨"Left", by decide⟩

def right : Qualifier .diamond := ⟨"Right", by decide⟩

example : left.join right = Hierarchy.diamond.top := by decide

end Qualifier
end QualifierFlow
