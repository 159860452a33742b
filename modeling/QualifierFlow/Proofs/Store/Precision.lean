import QualifierFlow.Analysis.Flow
import QualifierFlow.Proofs.Hierarchy.Join
import QualifierFlow.Store.Lookup

/-! The precision order. One store is at least as precise as another when it knows of every path what
the other knows, with a qualifier that is below the other's. All operations on stores keep the order;
those that join qualifiers need a hierarchy that is acyclic and has all joins. -/
namespace QualifierFlow
variable {H : Hierarchy}

namespace Qualifier

def Refines (fine coarse : Option (Qualifier H)) : Prop :=
  ∀ b, coarse = some b → ∃ a, fine = some a ∧ a ≤ b

theorem refines_refl (a : Option (Qualifier H)) : Refines a a :=
  fun b known => ⟨b, known, le_refl b⟩

theorem refines_none (a : Option (Qualifier H)) : Refines a none :=
  fun _ known => nomatch known

theorem refines_some_iff {a b : Qualifier H} : Refines (some a) (some b) ↔ a ≤ b := by
  simp [Refines]

theorem Refines.trans {a b c : Option (Qualifier H)} (first : Refines a b) (second : Refines b c) :
    Refines a c := by
  intro z known
  obtain ⟨y, between, upper⟩ := second z known
  obtain ⟨x, found, lower⟩ := first y between
  exact ⟨x, found, le_trans lower upper⟩

theorem Refines.antisymm (acyclic : H.IsAcyclic) {a b : Option (Qualifier H)}
    (first : Refines a b) (second : Refines b a) : a = b := by
  cases b with
  | none =>
    cases a with
    | none => rfl
    | some x => obtain ⟨_, absent, _⟩ := second x rfl; contradiction
  | some y =>
    obtain ⟨x, rfl, below⟩ := first y rfl
    have above : y ≤ x := refines_some_iff.1 second
    exact congrArg some (acyclic x y below above)

/-- The more precise of two values that may be absent, the first one if neither is. -/
def sharper : Option (Qualifier H) → Option (Qualifier H) → Option (Qualifier H)
  | some a, some b => some (if b ≤ a ∧ ¬ a ≤ b then b else a)
  | some a, none => some a
  | none, b => b

theorem finerOf_eq_sharper (a b : Option (Qualifier H)) :
    Domain.finerOf a b .first = .ok (sharper a b) := by
  cases a with
  | none => cases b <;> rfl
  | some a =>
    cases b with
    | none => rfl
    | some b =>
      simp only [Domain.finerOf, Domain.finer, Side.pick, finer, sharper]
      by_cases up : a ≤ b <;> by_cases down : b ≤ a <;> simp [up, down]

theorem exists_sharper_some (a : Qualifier H) (b : Option (Qualifier H)) :
    ∃ c, sharper (some a) b = some c := by
  cases b with
  | none => exact ⟨a, rfl⟩
  | some b => exact ⟨_, rfl⟩

theorem eq_none_of_sharper {a b : Option (Qualifier H)} (absent : sharper a b = none) :
    b = none := by
  cases a with
  | none => exact absent
  | some a => cases b <;> simp_all [sharper]

private theorem sharper_refines_left (a b : Option (Qualifier H)) : Refines (sharper a b) a := by
  cases a with
  | none => exact refines_none _
  | some a =>
    cases b with
    | none => exact refines_refl _
    | some b =>
      refine refines_some_iff.2 ?_
      split
      · next down => exact down.1
      · exact le_refl a

/-- A more precise second value never gives a less precise result. The first value has no such
property, since it settles what is incomparable. -/
theorem sharper_mono (a : Option (Qualifier H)) {b b' : Option (Qualifier H)}
    (order : Refines b b') : Refines (sharper a b) (sharper a b') := by
  cases a with
  | none => exact order
  | some a =>
    cases b' with
    | none => exact sharper_refines_left (some a) b
    | some upper =>
      obtain ⟨lower, rfl, below⟩ := order upper rfl
      refine refines_some_iff.2 ?_
      by_cases above : upper ≤ a ∧ ¬ a ≤ upper
      · have down : lower ≤ a := le_trans below above.1
        have strict : ¬ a ≤ lower := fun up => above.2 (le_trans up below)
        rw [if_pos above, if_pos ⟨down, strict⟩]
        exact below
      · rw [if_neg above]
        exact refines_some_iff.1 (sharper_refines_left (some a) (some lower))

example : left ≤ Hierarchy.diamond.top ∧ ¬ Refines (sharper (some left) (some right))
    (sharper (some Hierarchy.diamond.top) (some right)) := by
  have first : sharper (some left) (some right) = some left := by decide
  have second : sharper (some Hierarchy.diamond.top) (some right) = some right := by decide
  rw [first, second, refines_some_iff]
  decide

end Qualifier
open Qualifier (Refines)

/-- The first store is at least as precise as the second, under the same assumptions. -/
structure Store.Refines (fine coarse : Store (Qualifier H)) : Prop where
  assumptions : fine.assumptions = coarse.assumptions
  facts : ∀ path, Qualifier.Refines (fine.get? path) (coarse.get? path)

inductive Flow.Refines : Flow (Qualifier H) → Flow (Qualifier H) → Prop
  | plain {fine coarse : Store (Qualifier H)} (store : fine.Refines coarse) :
    Refines (.plain fine) (.plain coarse)
  | split {fine coarse fine' coarse' : Store (Qualifier H)} (whenTrue : fine.Refines coarse)
    (whenFalse : fine'.Refines coarse') : Refines (.split fine fine') (.split coarse coarse')

structure Outcome.Refines (fine coarse : Outcome (Qualifier H)) : Prop where
  value : Qualifier.Refines fine.value coarse.value
  flow : fine.flow.Refines coarse.flow

namespace Store
variable {fine coarse fine' coarse' : Store (Qualifier H)}

theorem refines_refl (store : Store (Qualifier H)) : store.Refines store :=
  ⟨rfl, fun _ => Qualifier.refines_refl _⟩

theorem Refines.trans {between : Store (Qualifier H)} (first : fine.Refines between)
    (second : between.Refines coarse) : fine.Refines coarse where
  assumptions := first.assumptions.trans second.assumptions
  facts path := (first.facts path).trans (second.facts path)

theorem Refines.antisymm (acyclic : H.IsAcyclic) (first : fine.Refines coarse)
    (second : coarse.Refines fine) : fine = coarse := by
  apply eq_of_get? first.assumptions
  intro path
  exact (first.facts path).antisymm acyclic (second.facts path)

private theorem Refines.tracks (order : fine.Refines coarse) (path : Path) :
    fine.tracks path = coarse.tracks path := by
  simp only [Store.tracks, order.assumptions]

theorem Refines.asksAboutCallee (order : fine.Refines coarse) :
    fine.asksAboutCallee = coarse.asksAboutCallee := by
  simp only [Store.asksAboutCallee, order.assumptions]

private theorem Refines.trustsCallee (order : fine.Refines coarse) (calleePure : Bool) :
    fine.trustsCallee calleePure = coarse.trustsCallee calleePure := by
  simp only [Store.trustsCallee, order.assumptions]

theorem Refines.put (order : fine.Refines coarse) (path : Path) {a b : Qualifier H}
    (below : a ≤ b) : (fine.put path a).Refines (coarse.put path b) where
  assumptions := order.assumptions
  facts other := by
    rw [get?_put, get?_put]
    split
    · exact Qualifier.refines_some_iff.2 below
    · exact order.facts other

/-- A fact that only the more precise store gains leaves it the more precise one. -/
private theorem Refines.put_left (order : fine.Refines coarse) {path : Path} (a : Qualifier H)
    (unknown : coarse.get? path = none) : (fine.put path a).Refines coarse where
  assumptions := order.assumptions
  facts other := by
    rw [get?_put]
    split
    · next same => exact same ▸ unknown ▸ Qualifier.refines_none _
    · exact order.facts other

theorem Refines.record_left (order : fine.Refines coarse) {path : Path} (a : Qualifier H)
    (unknown : coarse.get? path = none) : (fine.record path a).Refines coarse := by
  unfold Store.record
  split
  · exact order.put_left a unknown
  · exact order

theorem Refines.record (order : fine.Refines coarse) (path : Path) {a b : Qualifier H}
    (below : a ≤ b) : (fine.record path a).Refines (coarse.record path b) := by
  unfold Store.record
  rw [order.tracks]
  split
  · exact order.put path below
  · exact order

theorem Refines.forget (order : fine.Refines coarse) (path : Path) :
    (fine.forget path).Refines (coarse.forget path) where
  assumptions := order.assumptions
  facts other := by
    rw [get?_forget, get?_forget]
    split
    · exact Qualifier.refines_none _
    · exact order.facts other

private theorem Refines.forget_right (order : fine.Refines coarse) {path : Path} :
    fine.Refines (coarse.forget path) where
  assumptions := order.assumptions
  facts other := by
    rw [get?_forget]
    split
    · exact Qualifier.refines_none _
    · exact order.facts other

theorem Refines.keep (order : fine.Refines coarse) (survives : Path → Bool) :
    (fine.keep survives).Refines (coarse.keep survives) where
  assumptions := order.assumptions
  facts path := by
    rw [get?_keep, get?_keep]
    split
    · exact order.facts path
    · exact Qualifier.refines_none _

theorem Refines.assignUnnamed (order : fine.Refines coarse) (target : Path) :
    (fine.assignUnnamed target).Refines (coarse.assignUnnamed target) :=
  (order.keep _).forget target

/-- A call records its result only when there is one, which can be in the more precise store
alone. Then the other store knows nothing of the call. -/
theorem Refines.afterCall (order : fine.Refines coarse) (call : Call) (calleePure : Bool)
    {result result' : Option (Qualifier H)} (results : Qualifier.Refines result result')
    (unknown : result' = none → coarse.get? call.path = none) :
    (fine.afterCall call calleePure result).Refines (coarse.afterCall call calleePure result') := by
  have kept : (if fine.trustsCallee calleePure then fine else fine.keep Path.survivesEffects).Refines
      (if coarse.trustsCallee calleePure then coarse else coarse.keep Path.survivesEffects) := by
    rw [order.trustsCallee]
    split
    · exact order
    · exact order.keep _
  have forgotten : result' = none → (if coarse.trustsCallee calleePure then coarse
      else coarse.keep Path.survivesEffects).get? call.path = none := by
    intro absent
    split
    · exact unknown absent
    · rw [get?_keep, unknown absent, ite_self]
  unfold Store.afterCall
  cases result' with
  | some b =>
    obtain ⟨a, rfl, below⟩ := results b rfl
    dsimp only
    split
    · exact kept.put call.path below
    · exact kept
  | none =>
    cases result with
    | none => exact kept
    | some a =>
      dsimp only
      split
      · exact kept.put_left a (forgotten rfl)
      · exact kept

section Joins
variable (acyclic : H.IsAcyclic) (joins : H.HasJoins)
include acyclic joins

private theorem assigned_mono (target path : Path) {value value' : Option (Qualifier H)}
    (values : Qualifier.Refines value value') {a b : Qualifier H} (below : a ≤ b) :
    Qualifier.Refines (assigned target value path a) (assigned target value' path b) := by
  unfold assigned
  split
  · exact Qualifier.refines_some_iff.2 below
  split
  · exact Qualifier.refines_none _
  split
  · cases value' with
    | none => exact Qualifier.refines_none _
    | some w =>
      obtain ⟨v, rfl, lower⟩ := values w rfl
      exact Qualifier.refines_some_iff.2 (Qualifier.join_mono acyclic joins below lower)
  · exact Qualifier.refines_some_iff.2 below

theorem Refines.assign (order : fine.Refines coarse) (target : Path)
    {value value' : Option (Qualifier H)} (values : Qualifier.Refines value value') :
    (fine.assign target value).Refines (coarse.assign target value') := by
  have weakened : (fine.revise (assigned target value)).Refines
      (coarse.revise (assigned target value')) := by
    refine ⟨order.assumptions, fun path b known => ?_⟩
    rw [get?_revise] at known ⊢
    obtain ⟨old, before, after⟩ := Option.bind_eq_some_iff.1 known
    obtain ⟨a, found, below⟩ := order.facts path old before
    rw [found]
    exact assigned_mono acyclic joins target path values below b after
  unfold Store.assign
  cases value' with
  | some w =>
    obtain ⟨v, rfl, below⟩ := values w rfl
    exact weakened.record target below
  | none =>
    cases value with
    | none => exact weakened.forget target
    | some v => exact weakened.forget_right.record_left v (by rw [get?_forget, if_pos rfl])

theorem Refines.join (left : fine.Refines coarse) (right : fine'.Refines coarse') :
    (fine.join fine').Refines (coarse.join coarse') where
  assumptions := left.assumptions
  facts path b known := by
    rw [get?_join] at known ⊢
    obtain ⟨x, first, rest⟩ := Option.bind_eq_some_iff.1 known
    obtain ⟨y, second, rfl⟩ := Option.map_eq_some_iff.1 rest
    obtain ⟨x', found, below⟩ := left.facts path x first
    obtain ⟨y', found', below'⟩ := right.facts path y second
    rw [found, found']
    exact ⟨x'.join y', rfl, Qualifier.join_mono acyclic joins below below'⟩

end Joins
end Store

namespace Flow
variable {fine coarse : Flow (Qualifier H)}

theorem Refines.on (order : fine.Refines coarse) (branch : Branch) :
    (fine.on branch).Refines (coarse.on branch) := by
  cases order with
  | plain store => exact store
  | split whenTrue whenFalse => cases branch with
    | whenTrue => exact whenTrue
    | whenFalse => exact whenFalse

theorem Refines.diverge (order : fine.Refines coarse) : fine.diverge.Refines coarse.diverge :=
  .split (order.on .whenTrue) (order.on .whenFalse)

theorem Refines.swap (order : fine.Refines coarse) : fine.swap.Refines coarse.swap :=
  .split (order.on .whenFalse) (order.on .whenTrue)

theorem Refines.adjust (order : fine.Refines coarse) (branch : Branch)
    {change change' : Store (Qualifier H) → Store (Qualifier H)}
    (changed : (change (fine.on branch)).Refines (change' (coarse.on branch))) :
    (fine.adjust branch change).Refines (coarse.adjust branch change') := by
  cases branch with
  | whenTrue => exact .split changed (order.on .whenFalse)
  | whenFalse => exact .split (order.on .whenTrue) changed

theorem Refines.merge (acyclic : H.IsAcyclic) (joins : H.HasJoins) (order : fine.Refines coarse) :
    fine.merge.Refines coarse.merge := by
  cases order with
  | plain store => exact store
  | split whenTrue whenFalse => exact whenTrue.join acyclic joins whenFalse

end Flow
end QualifierFlow
