import QualifierFlow.Proofs.Hierarchy.LeastBound
import QualifierFlow.Proofs.Store.Effects

/-! Operations in another order. Two operations can be exchanged if their effects on every path can.
So stores may be updated before they are merged or after, in a hierarchy that is acyclic and has all
joins; and assignments to targets that have nothing to do with each other may be made in either
order. -/
namespace QualifierFlow
variable {V : Type} {H : Hierarchy}

section Joins
variable (acyclic : H.IsAcyclic) (joins : H.HasJoins)
include acyclic joins

private theorem Qualifier.join_join_distrib (a b c : Qualifier H) :
    (a.join b).join c = (a.join c).join (b.join c) := by
  have twice : c.join c = c := join_of_le (le_refl c)
  calc (a.join b).join c
      = a.join (b.join (c.join c)) := by rw [twice, join_assoc acyclic joins]
    _ = a.join ((b.join c).join c) := by rw [join_assoc acyclic joins b c c]
    _ = a.join (c.join (b.join c)) := by rw [join_comm acyclic (b.join c) c]
    _ = (a.join c).join (b.join c) := (join_assoc acyclic joins a c (b.join c)).symm

private theorem Effect.act_joinBoth (effect : Effect (Qualifier H)) (a b : Option (Qualifier H)) :
    effect.act (Domain.joinBoth a b) = Domain.joinBoth (effect.act a) (effect.act b) := by
  cases effect with
  | leave => rfl
  | drop => rfl
  | set value =>
    have twice : value.join value = value := Qualifier.join_of_le (Qualifier.le_refl value)
    exact congrArg some twice.symm
  | weaken value =>
    cases a with
    | none => rfl
    | some a =>
      cases b with
      | none => rfl
      | some b => exact congrArg some (a.join_join_distrib acyclic joins b value)

namespace Store
variable {store other : Store (Qualifier H)}

omit acyclic joins in
private theorem get?_join_eq_joinBoth (store other : Store (Qualifier H)) (path : Path) :
    (store.join other).get? path = Domain.joinBoth (store.get? path) (other.get? path) := by
  rw [get?_join]
  cases store.get? path <;> cases other.get? path <;> rfl

theorem apply_join (alike : store.assumptions = other.assumptions)
    (operation : Operation (Qualifier H)) :
    (store.join other).apply operation = (store.apply operation).join (other.apply operation) := by
  have merged : (store.join other).effect = store.effect := effect_eq_of_assumptions rfl
  have second : other.effect = store.effect := effect_eq_of_assumptions alike.symm
  apply eq_of_get?
  · rw [assumptions_apply]
    exact (assumptions_apply store operation).symm
  · intro path
    rw [get?_apply, get?_join_eq_joinBoth, get?_join_eq_joinBoth, get?_apply, get?_apply, merged,
      second, Effect.act_joinBoth acyclic joins]

/-- Whatever is done to a merged store can as well be done to the stores before they are merged. -/
theorem perform_join (alike : store.assumptions = other.assumptions)
    (operations : List (Operation (Qualifier H))) :
    (store.join other).perform operations =
      (store.perform operations).join (other.perform operations) := by
  induction operations generalizing store other with
  | nil => rfl
  | cons operation operations ih =>
    have alike' : (store.apply operation).assumptions = (other.apply operation).assumptions := by
      rw [assumptions_apply, assumptions_apply, alike]
    calc (store.join other).perform (operation :: operations)
        = ((store.join other).apply operation).perform operations := rfl
      _ = ((store.apply operation).join (other.apply operation)).perform operations := by
        rw [apply_join acyclic joins alike]
      _ = _ := ih alike'

omit acyclic joins in
/-- Two branches have assigned a field of `x` differently, and only one knows the parameter. Then
the same field of an alias is assigned and the parameter is bound. -/
theorem perform_join_branches :
    let x : Path := .var ⟨⟨0⟩, "x"⟩
    let y : Path := .var ⟨⟨1⟩, "y"⟩
    let parameter : Variable := ⟨⟨2⟩, "p"⟩
    let f : Field := ⟨⟨0⟩, "f", false⟩
    let store : Store (Qualifier .diamond) := (empty {}).record (.field x f) .left
    let other := ((empty {}).record (.field x f) .right).record (.var parameter) .right
    let operations := [.assign (.field y f) (some .left), .bindParameter parameter (some .left)]
    let after := (store.join other).perform operations
    Hierarchy.diamond.IsAcyclic ∧ Hierarchy.diamond.HasJoins ∧
      store.assumptions = other.assumptions ∧
      after = (store.perform operations).join (other.perform operations) ∧
      after.get? (.field x f) = some Hierarchy.diamond.top ∧
      after.get? (.field y f) = some .left ∧ after.get? (.var parameter) = some .left := by
  intro x y parameter f store other operations after
  have acyclic : Hierarchy.diamond.IsAcyclic := by decide
  have joins : Hierarchy.diamond.HasJoins := by decide
  have alike : store.assumptions = other.assumptions := rfl
  exact ⟨acyclic, joins, alike, perform_join acyclic joins alike operations, by decide, by decide,
    by decide⟩

end Store
end Joins

namespace Effect
variable [Domain V]

private theorem act_comm_of_leave {first second : Effect V}
    (idle : first = .leave ∨ second = .leave) (known : Option V) :
    second.act (first.act known) = first.act (second.act known) := by
  rcases idle with rfl | rfl <;> rfl

private theorem act_drop_comm {effect : Effect V} (adds : effect.act none = none)
    (known : Option V) :
    Effect.drop.act (effect.act known) = effect.act (Effect.drop.act known) :=
  adds.symm

end Effect

/-- Neither path mentions the other, and they are no accesses of one field. -/
structure Path.Independent (path other : Path) : Prop where
  silent : path.mentions other = false
  silent' : other.mentions path = false
  fields : ∀ f, path.field? = some f → other.field? ≠ some f

namespace Path.Independent
variable {path other : Path}

theorem symm (independent : path.Independent other) : other.Independent path where
  silent := independent.silent'
  silent' := independent.silent
  fields f access access' := independent.fields f access' access

private theorem not_mayAlias (independent : path.Independent other) :
    ¬ path.mayAlias other = true := by
  intro aliased
  obtain ⟨f, access, access'⟩ := mayAlias_iff.1 aliased
  exact independent.fields f access access'

private theorem not_mayAlias_both (independent : path.Independent other) {third : Path}
    (aliased : third.mayAlias path = true) : ¬ third.mayAlias other = true := by
  intro aliased'
  obtain ⟨f, access, first⟩ := mayAlias_iff.1 aliased
  obtain ⟨g, access', second⟩ := mayAlias_iff.1 aliased'
  obtain rfl : f = g := Option.some.inj (access.symm.trans access')
  exact independent.fields f first second

end Path.Independent

namespace Store

variable [Domain V]

private theorem apply_comm {store : Store V} (first second : Operation V)
    (exchange : ∀ path known,
      (store.effect path second).act ((store.effect path first).act known) =
        (store.effect path first).act ((store.effect path second).act known)) :
    (store.apply first).apply second = (store.apply second).apply first := by
  have unchanged (operation : Operation V) : (store.apply operation).effect = store.effect :=
    effect_eq_of_assumptions (assumptions_apply store operation)
  apply eq_of_get?
  · rw [assumptions_apply, assumptions_apply, assumptions_apply, assumptions_apply]
  · intro path
    rw [get?_apply, get?_apply, get?_apply, get?_apply, unchanged, unchanged]
    exact exchange path (store.get? path)

private theorem act_assignEffect_none (store : Store V) {target path : Path} (value : Option V)
    (apart : path ≠ target) : (store.assignEffect target value path).act none = none := by
  rw [act_assignEffect_of_ne store value apart, Option.bind_none]

/-- On every path one of two independent assignments leaves or drops what is known. -/
private theorem assignEffect_comm (store : Store V) {target other : Path}
    (independent : target.Independent other) (value value' : Option V) (path : Path)
    (known : Option V) :
    (store.assignEffect other value' path).act ((store.assignEffect target value path).act known) =
      (store.assignEffect target value path).act
        ((store.assignEffect other value' path).act known) := by
  by_cases own : path = target
  · have idle : store.assignEffect other value' path = .leave := by
      rw [own]
      exact store.assignEffect_of_silent value' (by simp [independent.silent])
        independent.not_mayAlias
    exact Effect.act_comm_of_leave (.inr idle) known
  by_cases own' : path = other
  · have idle : store.assignEffect target value path = .leave := by
      rw [own']
      exact store.assignEffect_of_silent value (by simp [independent.silent'])
        independent.symm.not_mayAlias
    exact Effect.act_comm_of_leave (.inl idle) known
  have adds := store.act_assignEffect_none value own
  have adds' := store.act_assignEffect_none value' own'
  by_cases mentioned : path.mentions target = true
  · rw [store.assignEffect_of_mentions value own mentioned]
    exact (Effect.act_drop_comm adds' known).symm
  by_cases mentioned' : path.mentions other = true
  · rw [store.assignEffect_of_mentions value' own' mentioned']
    exact Effect.act_drop_comm adds known
  by_cases aliased : path.mayAlias target = true
  · have idle := store.assignEffect_of_silent value' mentioned'
      (independent.not_mayAlias_both aliased)
    exact Effect.act_comm_of_leave (.inr idle) known
  · have idle := store.assignEffect_of_silent value mentioned aliased
    exact Effect.act_comm_of_leave (.inl idle) known

theorem assign_comm (store : Store V) {target other : Path}
    (independent : target.Independent other) (value value' : Option V) :
    (store.assign target value).assign other value' =
      (store.assign other value').assign target value :=
  apply_comm (.assign target value) (.assign other value')
    (store.assignEffect_comm independent value value')

/-- The second target is found through an access of its own field. A call that mentions both targets
is dropped, and an alias of the first one is weakened. -/
theorem assign_comm_nested :
    let x : Path := .var ⟨⟨0⟩, "x"⟩
    let y : Path := .var ⟨⟨1⟩, "y"⟩
    let f : Field := ⟨⟨0⟩, "f", false⟩
    let g : Field := ⟨⟨1⟩, "g", false⟩
    let target : Path := .field x f
    let other : Path := .field (.field y g) g
    let both : Path := .call target ⟨0⟩ [other]
    let store : Store (Qualifier .diamond) :=
      ((empty {}).record both .left).record (.field y f) .left
    let after := (store.assign target (some .right)).assign other (some .left)
    target.Independent other ∧
      after = (store.assign other (some .left)).assign target (some .right) ∧
      after.get? target = some .right ∧ after.get? other = some .left ∧ after.get? both = none ∧
      after.get? (.field y f) = some Hierarchy.diamond.top := by
  intro x y f g target other both store after
  have independent : target.Independent other :=
    ⟨by decide, by decide, fun _ access access' => absurd (access.trans access'.symm) (by decide)⟩
  exact ⟨independent, store.assign_comm independent (some .right) (some .left), by decide,
    by decide, by decide, by decide⟩

end Store
end QualifierFlow
