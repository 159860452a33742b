import Mathlib.Tactic.Tauto
import QualifierFlow.Program
import QualifierFlow.Proofs.Store.Precision

/-! What the operands of a comparison learn of each other, on the branch on which they are found
equal. The stores of both branches, and whether there are two, follow from the flow that comes in:
exchanging its branches, splitting it and learning elsewhere all commute with learning. -/
namespace QualifierFlow
variable {V : Type} {H : Hierarchy}

namespace Qualifier

/-- What is known is given up for nothing that is less precise. -/
theorem eq_of_le_sharper (acyclic : H.IsAcyclic) {a known refined : Qualifier H}
    (found : sharper (some a) (some known) = some refined) (up : known ≤ refined) :
    refined = known := by
  obtain rfl := Option.some.inj found
  by_cases sharp : known ≤ a ∧ ¬ a ≤ known
  · rw [if_pos sharp]
  · rw [if_neg sharp] at up ⊢
    have down : a ≤ known := Decidable.byContradiction fun strict => sharp ⟨up, strict⟩
    exact acyclic a known down up

end Qualifier

namespace Store

/-- The path takes over a value, unless a more precise one is known of it. -/
def learn (store : Store (Qualifier H)) (path : Path) (value : Option (Qualifier H)) :
    Store (Qualifier H) :=
  (Qualifier.sharper value (store.get? path)).elim store (store.record path)

@[simp] theorem assumptions_learn (store : Store (Qualifier H)) (path : Path)
    (value : Option (Qualifier H)) : (store.learn path value).assumptions = store.assumptions := by
  unfold learn
  cases Qualifier.sharper value (store.get? path) with
  | none => rfl
  | some refined => exact assumptions_record store path refined

theorem get?_learn (store : Store (Qualifier H)) (path : Path) (value : Option (Qualifier H))
    (other : Path) : (store.learn path value).get? other =
      if other = path ∧ store.tracks path then Qualifier.sharper value (store.get? path)
      else store.get? other := by
  unfold learn
  cases learned : Qualifier.sharper value (store.get? path) with
  | none =>
    have unknown : store.get? path = none := Qualifier.eq_none_of_sharper learned
    split
    · next same => rw [same.1, Option.elim_none, unknown]
    · rfl
  | some refined => exact get?_record store path refined other

private theorem get?_learn_of_ne (store : Store (Qualifier H)) {path other : Path}
    (value : Option (Qualifier H)) (apart : other ≠ path) :
    (store.learn path value).get? other = store.get? other := by
  rw [get?_learn, if_neg fun same => apart same.1]

private theorem get?_learn_congr {store other : Store (Qualifier H)} {path : Path}
    (assumptions : store.assumptions = other.assumptions)
    (known : store.get? path = other.get? path) (value : Option (Qualifier H)) :
    (store.learn path value).get? path = (other.learn path value).get? path := by
  rw [get?_learn, get?_learn, tracks, tracks, assumptions, known]

theorem learn_comm (store : Store (Qualifier H)) {path other : Path} (apart : path ≠ other)
    (value value' : Option (Qualifier H)) :
    (store.learn path value).learn other value' = (store.learn other value').learn path value := by
  apply eq_of_get?
  · simp only [assumptions_learn]
  · intro third
    by_cases first : third = path
    · rw [first, get?_learn_of_ne _ value' apart]
      apply get?_learn_congr (assumptions_learn store other value').symm
      exact (get?_learn_of_ne store value' apart).symm
    by_cases second : third = other
    · rw [second, get?_learn_of_ne _ value apart.symm]
      apply get?_learn_congr (assumptions_learn store path value)
      exact get?_learn_of_ne store value apart.symm
    · rw [get?_learn_of_ne _ value' second, get?_learn_of_ne store value first,
        get?_learn_of_ne _ value first, get?_learn_of_ne store value' second]

end Store

def Branch.opposite : Branch → Branch
  | .whenTrue => .whenFalse
  | .whenFalse => .whenTrue

@[simp] theorem Branch.opposite_opposite (branch : Branch) : branch.opposite.opposite = branch := by
  cases branch <;> rfl

namespace Flow

theorem eq_of_on {flow other : Flow V} (shape : flow.isSplit = other.isSplit)
    (stores : ∀ branch, flow.on branch = other.on branch) : flow = other := by
  cases flow with
  | plain store =>
    cases other with
    | plain _ => exact congrArg plain (stores .whenTrue)
    | split _ _ => exact absurd shape Bool.false_ne_true
  | split whenTrue whenFalse =>
    cases other with
    | plain _ => exact absurd shape.symm Bool.false_ne_true
    | split _ _ =>
      obtain rfl : whenTrue = _ := stores .whenTrue
      obtain rfl : whenFalse = _ := stores .whenFalse
      rfl

theorem on_swap (flow : Flow V) (branch : Branch) :
    flow.swap.on branch = flow.on branch.opposite := by
  cases branch <;> rfl

theorem on_diverge (flow : Flow V) (branch : Branch) : flow.diverge.on branch = flow.on branch := by
  cases branch <;> rfl

private theorem diverge_of_isSplit {flow : Flow V} (divided : flow.isSplit = true) :
    flow.diverge = flow := by
  cases flow with
  | plain _ => exact absurd divided Bool.false_ne_true
  | split _ _ => rfl

theorem on_adjust (flow : Flow V) (branch : Branch) (change : Store V → Store V) (other : Branch) :
    (flow.adjust branch change).on other =
      if other = branch then change (flow.on branch) else flow.on other := by
  cases branch <;> cases other <;> rfl

theorem isSplit_adjust (flow : Flow V) (branch : Branch) (change : Store V → Store V) :
    (flow.adjust branch change).isSplit = true := by
  cases branch <;> rfl

theorem adjust_congr {flow : Flow V} {branch : Branch} {change change' : Store V → Store V}
    (same : change (flow.on branch) = change' (flow.on branch)) :
    flow.adjust branch change = flow.adjust branch change' := by
  cases branch with
  | whenTrue => exact congrArg (split · _) same
  | whenFalse => exact congrArg (split _) same

end Flow

namespace Operand

/-- The first operand has a value, the second not the same, and a path of which facts may be
recorded. -/
def Teaches (values : Id .node → Option V) (first second : Operand) : Prop :=
  (values first.node).isSome = true ∧ values first.node ≠ values second.node ∧
    second.path.isRecordable = true

instance [DecidableEq V] (values : Id .node → Option V) (first second : Operand) :
    Decidable (first.Teaches values second) :=
  inferInstanceAs (Decidable (_ ∧ _))

def lessons [DecidableEq V] (values : Id .node → Option V) (left right : Operand) :
    List (Operand × Operand) :=
  [(left, right), (right, left)].filter fun pair => pair.1.Teaches values pair.2

variable [DecidableEq V] {values : Id .node → Option V} {left right : Operand}

theorem teaches_iff {first second : Operand} : first.Teaches values second ↔
    ¬ ((values first.node).isNone || values first.node = values second.node ||
      !second.path.isRecordable) = true := by
  unfold Teaches
  cases values first.node <;> simp

theorem mem_lessons {pair : Operand × Operand} : pair ∈ lessons values left right ↔
    (pair = (left, right) ∨ pair = (right, left)) ∧ pair.1.Teaches values pair.2 := by
  simp [lessons]

private theorem lessons_eq_nil_iff : lessons values left right = [] ↔
    ¬ left.Teaches values right ∧ ¬ right.Teaches values left := by
  simp [lessons]

end Operand

namespace Flow
variable (branch : Branch) (values : Id .node → Option (Qualifier H))

/-- On the branch the second operand takes over the value of the first, if that teaches it. -/
def taught (flow : Flow (Qualifier H)) (first second : Operand) : Flow (Qualifier H) :=
  if first.Teaches values second then
    flow.adjust branch (·.learn second.path (values first.node))
  else flow

/-- What flows out of a comparison that finds its operands equal on the branch. -/
def compared (flow : Flow (Qualifier H)) (left right : Operand) : Flow (Qualifier H) :=
  (flow.taught branch values left right).taught branch values right left

variable (flow : Flow (Qualifier H)) (first second : Operand)

theorem on_taught (other : Branch) : (flow.taught branch values first second).on other =
    if first.Teaches values second ∧ other = branch then
      (flow.on branch).learn second.path (values first.node)
    else flow.on other := by
  unfold taught
  by_cases teaches : first.Teaches values second
  · simp [teaches, on_adjust]
  · simp [teaches]

private theorem isSplit_taught : (flow.taught branch values first second).isSplit =
    (decide (first.Teaches values second) || flow.isSplit) := by
  unfold taught
  by_cases teaches : first.Teaches values second
  · simp [teaches, isSplit_adjust]
  · simp [teaches]

private theorem taught_swap : flow.swap.taught branch.opposite values first second =
    (flow.taught branch values first second).swap := by
  apply eq_of_on
  · rw [isSplit_taught]
    exact Bool.or_true _
  · intro other
    have same : other = branch.opposite ↔ other.opposite = branch := by
      cases other <;> cases branch <;> decide
    rw [on_taught, on_swap, on_swap, on_swap, on_taught, Branch.opposite_opposite]
    simp only [same]

private theorem taught_diverge : flow.diverge.taught branch values first second =
    (flow.taught branch values first second).diverge := by
  apply eq_of_on
  · rw [isSplit_taught]
    exact Bool.or_true _
  · intro other
    rw [on_taught, on_diverge, on_diverge, on_diverge, on_taught]

private theorem taught_comm {first second third fourth : Operand}
    (apart : second.path ≠ fourth.path) :
    (flow.taught branch values first second).taught branch values third fourth =
      (flow.taught branch values third fourth).taught branch values first second := by
  apply eq_of_on
  · simp only [isSplit_taught]
    exact Bool.or_left_comm _ _ _
  · intro other
    simp only [on_taught]
    by_cases own : other = branch
    · by_cases teaches : first.Teaches values second
      · by_cases teaches' : third.Teaches values fourth
        · simp only [own, teaches, teaches', and_self, if_true]
          exact Store.learn_comm _ apart _ _
        · simp [own, teaches, teaches']
      · simp [own, teaches]
    · simp [own]

variable (left right : Operand)

theorem compared_swap : flow.swap.compared branch.opposite values left right =
    (flow.compared branch values left right).swap := by
  rw [compared, taught_swap, taught_swap, compared]

theorem compared_diverge : flow.diverge.compared branch values left right =
    (flow.compared branch values left right).diverge := by
  rw [compared, taught_diverge, taught_diverge, compared]

theorem compared_comm {left right : Operand} (apart : left.path ≠ right.path) :
    flow.compared branch values left right = flow.compared branch values right left :=
  flow.taught_comm branch values apart.symm

theorem compared_eq_self {left right : Operand} (nothing : Operand.lessons values left right = []) :
    flow.compared branch values left right = flow := by
  obtain ⟨silent, silent'⟩ := Operand.lessons_eq_nil_iff.1 nothing
  rw [compared, taught, if_neg silent', taught, if_neg silent]

theorem isSplit_compared : (flow.compared branch values left right).isSplit = true ↔
    flow.isSplit = true ∨ Operand.lessons values left right ≠ [] := by
  simp only [compared, isSplit_taught, Bool.or_eq_true, decide_eq_true_iff, ne_eq,
    Operand.lessons_eq_nil_iff]
  tauto

theorem compared_opposite_plain (store : Store (Qualifier H)) :
    ((plain store).compared branch.opposite values left right).diverge =
      ((plain store).compared branch values left right).swap := by
  -- Exchanging the branches of a plain flow is splitting it.
  calc
    _ = (plain store).diverge.compared branch.opposite values left right :=
      (compared_diverge _ values _ left right).symm
    _ = (plain store).swap.compared branch.opposite values left right := rfl
    _ = _ := compared_swap branch values _ left right

theorem exists_compared_split (whenTrue whenFalse : Store (Qualifier H)) :
    ∃ whenTrue' whenFalse',
      (split whenFalse whenTrue).compared .whenTrue values left right =
        split whenFalse' whenTrue' ∧
      (split whenTrue whenFalse).compared .whenFalse values left right =
        split whenTrue' whenFalse' := by
  let outgoing := (split whenFalse whenTrue).compared .whenTrue values left right
  have divided : outgoing.isSplit = true :=
    (isSplit_compared .whenTrue values _ left right).2 (.inl rfl)
  refine ⟨outgoing.on .whenFalse, outgoing.on .whenTrue, (diverge_of_isSplit divided).symm, ?_⟩
  exact compared_swap .whenTrue values (split whenFalse whenTrue) left right

theorem compared_plain (store : Store (Qualifier H)) :
    (∀ branch, (plain store).compared branch values left right = plain store) ∨
    ∃ whenTrue whenFalse,
      (plain store).compared .whenTrue values left right = split whenTrue whenFalse ∧
      (plain store).compared .whenFalse values left right = split whenFalse whenTrue := by
  by_cases nothing : Operand.lessons values left right = []
  · exact .inl fun branch => compared_eq_self branch values _ nothing
  · have divided (branch : Branch) :
        ((plain store).compared branch values left right).isSplit = true :=
      (isSplit_compared branch values _ left right).2 (.inr nothing)
    refine .inr ⟨_, _, (diverge_of_isSplit (divided .whenTrue)).symm, ?_⟩
    rw [← diverge_of_isSplit (divided .whenFalse)]
    exact compared_opposite_plain .whenTrue values left right store

theorem on_opposite_compared : (flow.compared branch values left right).on branch.opposite =
    flow.on branch.opposite := by
  have apart : branch.opposite ≠ branch := by cases branch <;> decide
  simp [compared, on_taught, apart]

private theorem assumptions_taught (first second : Operand) :
    ((flow.taught branch values first second).on branch).assumptions =
      (flow.on branch).assumptions := by
  rw [on_taught]
  split
  · exact Store.assumptions_learn _ _ _
  · rfl

private theorem get?_taught_of_ne {first second : Operand} {path : Path}
    (unmoved : first.Teaches values second → path ≠ second.path) :
    ((flow.taught branch values first second).on branch).get? path =
      (flow.on branch).get? path := by
  rw [on_taught]
  split
  · next teaches => exact Store.get?_learn_of_ne _ _ (unmoved teaches.1)
  · rfl

theorem assumptions_compared : ((flow.compared branch values left right).on branch).assumptions =
    (flow.on branch).assumptions := by
  rw [compared, assumptions_taught, assumptions_taught]

theorem get?_compared_of_ne {path : Path}
    (unmoved : ∀ pair ∈ Operand.lessons values left right, path ≠ pair.2.path) :
    ((flow.compared branch values left right).on branch).get? path =
      (flow.on branch).get? path := by
  rw [compared, get?_taught_of_ne, get?_taught_of_ne]
  · exact fun teaches => unmoved _ (Operand.mem_lessons.2 ⟨.inl rfl, teaches⟩)
  · exact fun teaches => unmoved _ (Operand.mem_lessons.2 ⟨.inr rfl, teaches⟩)

private theorem get?_compared_of_teaches {left right : Operand} (apart : left.path ≠ right.path)
    (teaches : left.Teaches values right) (tracked : (flow.on branch).tracks right.path = true) :
    ((flow.compared branch values left right).on branch).get? right.path =
      Qualifier.sharper (values left.node) ((flow.on branch).get? right.path) := by
  have later : right.Teaches values left → right.path ≠ left.path := fun _ => apart.symm
  rw [compared, get?_taught_of_ne _ _ _ later, on_taught, if_pos ⟨teaches, rfl⟩, Store.get?_learn,
    if_pos ⟨rfl, tracked⟩]

theorem get?_compared_of_mem {left right : Operand} (apart : left.path ≠ right.path)
    {pair : Operand × Operand} (member : pair ∈ Operand.lessons values left right)
    (tracked : (flow.on branch).tracks pair.2.path = true) :
    ((flow.compared branch values left right).on branch).get? pair.2.path =
      Qualifier.sharper (values pair.1.node) ((flow.on branch).get? pair.2.path) := by
  obtain ⟨rfl | rfl, teaches⟩ := Operand.mem_lessons.1 member
  · exact flow.get?_compared_of_teaches branch values apart teaches tracked
  · -- The second lesson reads its path after the first was taught, so it is moved to the front.
    rw [flow.compared_comm branch values apart]
    exact flow.get?_compared_of_teaches branch values apart.symm teaches tracked

end Flow
end QualifierFlow
