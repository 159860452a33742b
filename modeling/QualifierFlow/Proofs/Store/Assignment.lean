import QualifierFlow.Proofs.Hierarchy.LeastBound
import QualifierFlow.Proofs.Path.Meaning
import QualifierFlow.Proofs.Store.Effects

/-! What an assignment does to each fact, and what it is right to keep. The target takes the value if
it is tracked; facts that rest on the target go; other accesses of the assigned field may be aliases
and are weakened to hold for both values, or go; all else stays. For a variable this drops just those
facts whose paths may denote something else afterwards, whatever paths denote. -/
namespace QualifierFlow
variable {V : Type}

namespace Store

structure Assigns [Domain V] (store : Store V) (target : Path) (value : Option V)
    (after : Store V) : Prop where
  assumptions : after.assumptions = store.assumptions
  itself : after.get? target = if store.tracks target then value else none
  dependents : ∀ path, path ≠ target → target ∈ path.subpaths → after.get? path = none
  sameField : ∀ path f, target ∉ path.subpaths → path.field? = some f → target.field? = some f →
    after.get? path = Domain.joinBoth (store.get? path) value
  others : ∀ path, target ∉ path.subpaths →
    (∀ f, path.field? = some f → target.field? ≠ some f) → after.get? path = store.get? path
  keys : ∀ path, after.contains path = true → path = target ∨ store.contains path = true

private theorem KnowsTracked.get?_eq_none {store : Store V} (tracked : store.KnowsTracked)
    {path : Path} (untracked : ¬ store.tracks path = true) : store.get? path = none := by
  have field : path.isField = true := by
    refine Decidable.byContradiction fun plain => untracked ?_
    simp [tracks, plain]
  have unknown : ¬ store.contains path = true := fun known => untracked (tracked path field known)
  rwa [contains_eq_isSome, Option.not_isSome_iff_eq_none] at unknown

section Facts
variable [Domain V] {store after other : Store V} {target path : Path} {value : Option V}

private theorem get?_assign_target (tracked : store.KnowsTracked) (target : Path)
    (value : Option V) :
    (store.assign target value).get? target = if store.tracks target then value else none := by
  rw [get?_assign_self]
  cases value with
  | none => simp
  | some value =>
    rw [Option.elim_some]
    split
    · rfl
    · next untracked => exact tracked.get?_eq_none untracked

private theorem get?_assign_of_mem (apart : path ≠ target) (mentioned : target ∈ path.subpaths) :
    (store.assign target value).get? path = none := by
  rw [get?_assign, assignEffect_of_mentions store value apart (Path.mentions_iff.2 mentioned)]
  rfl

private theorem get?_assign_of_mayAlias (silent : target ∉ path.subpaths)
    (aliased : path.mayAlias target = true) :
    (store.assign target value).get? path = Domain.joinBoth (store.get? path) value := by
  rw [get?_assign, assignEffect_of_mayAlias store value (mt Path.mentions_iff.1 silent) aliased]
  cases value <;> cases store.get? path <;> rfl

private theorem get?_assign_of_silent (silent : target ∉ path.subpaths)
    (distinct : ¬ path.mayAlias target = true) :
    (store.assign target value).get? path = store.get? path := by
  rw [get?_assign, assignEffect_of_silent store value (mt Path.mentions_iff.1 silent) distinct]
  rfl

theorem assigns_assign (tracked : store.KnowsTracked) (target : Path) (value : Option V) :
    store.Assigns target value (store.assign target value) where
  assumptions := assumptions_apply store (.assign target value)
  itself := get?_assign_target tracked target value
  dependents _ apart mentioned := get?_assign_of_mem apart mentioned
  sameField _ f silent access access' :=
    get?_assign_of_mayAlias silent (Path.mayAlias_iff.2 ⟨f, access, access'⟩)
  others path silent fields := by
    apply get?_assign_of_silent silent
    rw [Path.mayAlias_iff]
    rintro ⟨f, access, access'⟩
    exact fields f access access'
  keys _ known := (contains_of_contains_assign known).imp_left And.left

/-- Every path is of one of the kinds, so that no two stores fit. -/
theorem Assigns.eq (first : store.Assigns target value after)
    (second : store.Assigns target value other) : after = other := by
  apply eq_of_get?
  · rw [first.assumptions, second.assumptions]
  intro path
  by_cases same : path = target
  · rw [same, first.itself, second.itself]
  by_cases mentioned : target ∈ path.subpaths
  · rw [first.dependents path same mentioned, second.dependents path same mentioned]
  by_cases aliased : ∃ f, path.field? = some f ∧ target.field? = some f
  · obtain ⟨f, access, access'⟩ := aliased
    rw [first.sameField path f mentioned access access',
      second.sameField path f mentioned access access']
  · have fields : ∀ f, path.field? = some f → target.field? ≠ some f :=
      fun f access access' => aliased ⟨f, access, access'⟩
    rw [first.others path mentioned fields, second.others path mentioned fields]

end Facts

/-- In a store that was made by operations, an assignment does to every fact what is stated above,
and nothing else does. Below a top, weakened facts hold for the old and the new value. -/
theorem eq_assign_iff_assigns :
    (∀ {V : Type} [Domain V] (assumptions : Assumptions) (operations : List (Operation V))
      (target : Path) (value : Option V) (after : Store V),
      let store := (empty assumptions).perform operations
      after = store.assign target value ↔ store.Assigns target value after) ∧
    ∀ {H : Hierarchy}, H.IsTopped → ∀ (store : Store (Qualifier H)) (target path : Path) (f : Field)
      (old value : Qualifier H), target ∉ path.subpaths → path.field? = some f →
      target.field? = some f → store.get? path = some old →
      ∃ weakened, (store.assign target (some value)).get? path = some weakened ∧
        old ≤ weakened ∧ value ≤ weakened := by
  constructor
  · intro V _ assumptions operations target value after store
    have nothing : (empty assumptions : Store V).KnowsTracked :=
      fun path _ known => absurd known (by simp [not_contains_empty])
    have fits := assigns_assign (nothing.perform operations) target value
    constructor
    · rintro rfl
      exact fits
    · exact fun assigns => assigns.eq fits
  · intro H topped store target path f old value silent access access' known
    have aliased : path.mayAlias target = true := Path.mayAlias_iff.2 ⟨f, access, access'⟩
    refine ⟨old.join value, ?_, Qualifier.le_join topped old value⟩
    rw [get?_assign_of_mayAlias silent aliased, known]
    rfl

/-- What is known of `x.f.f` goes when `x.f` is assigned; `y.f` may be an alias. -/
theorem eq_assign_iff_assigns_nested :
    let x : Path := .var ⟨⟨0⟩, "x"⟩
    let y : Path := .var ⟨⟨1⟩, "y"⟩
    let f : Field := ⟨⟨0⟩, "f", false⟩
    let target : Path := .field x f
    let operations : List (Operation (Qualifier .diamond)) :=
      [.record (.field target f) .left, .record (.field y f) .left, .record x .left]
    let store := (empty {}).perform operations
    let after := store.assign target (some .right)
    store.Assigns target (some .right) after ∧
      after.get? target = some .right ∧ after.get? (.field target f) = none ∧
      after.get? x = some .left ∧ Hierarchy.diamond.IsTopped ∧
      ∃ weakened, after.get? (.field y f) = some weakened ∧ .left ≤ weakened ∧ .right ≤ weakened := by
  intro x y f target operations store after
  obtain ⟨exactly, upper⟩ := eq_assign_iff_assigns
  have assigns : store.Assigns target (some .right) after :=
    (exactly {} operations target (some .right) after).1 rfl
  have tracked : store.tracks target = true := by decide
  have untouched : after.get? x = store.get? x :=
    assigns.others x (by decide) fun _ access => nomatch access
  have topped : Hierarchy.diamond.IsTopped := by decide
  refine ⟨assigns, ?_, assigns.dependents _ (by decide) (by decide), ?_, topped, ?_⟩
  · rw [assigns.itself, if_pos tracked]
  · rw [untouched]
    decide
  · exact upper topped store target (.field y f) f .left .right (by decide) rfl rfl (by decide)

section Variables
variable [Domain V] {store : Store V} {x : Variable} {value : Option V} {path : Path}

private theorem get?_assign_var (apart : path ≠ .var x) :
    (store.assign (.var x) value).get? path =
      if .var x ∈ path.subpaths then none else store.get? path := by
  split
  · next inside => exact get?_assign_of_mem apart inside
  · next silent =>
    apply get?_assign_of_silent silent
    rw [Path.mayAlias_iff]
    rintro ⟨_, _, access⟩
    cases access

private theorem contains_assign_var (apart : path ≠ .var x) :
    (store.assign (.var x) value).contains path = true ↔
      .var x ∉ path.subpaths ∧ store.contains path = true := by
  rw [contains_eq_isSome, contains_eq_isSome, get?_assign_var apart]
  split <;> simp_all

end Variables

/-- An assignment to a variable keeps, as they are, the facts about paths that denote the same
before and after, whatever the variable is changed to and whatever meaning the other parts have. It
drops no others than those about paths that mention the variable, which all denote something else in
some meaning. -/
theorem assign_var_sound [Domain V] (store : Store V) (x : Variable) (value : Option V) :
    let after := store.assign (.var x) value
    (∀ path, path ≠ .var x → after.contains path = true →
      after.get? path = store.get? path ∧
      ∀ {α : Type*} (meaning : Meaning α) (env : Variable → α) (new : α),
        path.eval meaning (Function.update env x new) = path.eval meaning env) ∧
    (∀ path, store.contains path = true → path.mentions (.var x) = false →
      after.contains path = true) ∧
    ∀ path, path ≠ .var x → store.contains path = true → after.contains path = false →
      ∃ (meaning : Meaning Bool) (env : Variable → Bool) (new : Bool),
        path.eval meaning (Function.update env x new) ≠ path.eval meaning env := by
  intro after
  refine ⟨fun path apart known => ?_, fun path known silent => ?_, fun path apart known gone => ?_⟩
  · obtain ⟨silent, _⟩ := (contains_assign_var apart).1 known
    refine ⟨?_, fun meaning env new => Path.eval_update meaning silent env new⟩
    rw [get?_assign_var apart, if_neg silent]
  · have absent : ¬ path.mentions (.var x) = true := Bool.eq_false_iff.1 silent
    have apart : path ≠ .var x := Path.ne_of_not_mentions absent
    exact (contains_assign_var apart).2 ⟨mt Path.mentions_iff.2 absent, known⟩
  · refine Path.exists_eval_ne (Decidable.byContradiction fun silent => ?_)
    have kept : after.contains path = true := (contains_assign_var apart).2 ⟨silent, known⟩
    exact Bool.false_ne_true (gone.symm.trans kept)

/-- The result of a call that is passed `y.f` is kept when `x` is assigned, and denotes the same;
that of one that is passed `x.f` is dropped. -/
theorem assign_var_sound_argument :
    let x : Variable := ⟨⟨0⟩, "x"⟩
    let y : Variable := ⟨⟨1⟩, "y"⟩
    let f : Field := ⟨⟨0⟩, "f", false⟩
    let passing (v : Variable) : Path := .call (.self ⟨0⟩) ⟨0⟩ [.field (.var v) f]
    let store : Store (Qualifier .diamond) :=
      ((empty {}).record (passing x) .left).record (passing y) .left
    let after := store.assign (.var x) (some .right)
    (passing y ≠ .var x ∧ (passing y).mentions (.var x) = false ∧
      after.get? (passing y) = some .left ∧
      ∀ (meaning : Meaning Nat) env new,
        (passing y).eval meaning (Function.update env x new) = (passing y).eval meaning env) ∧
    passing x ≠ .var x ∧ store.contains (passing x) = true ∧ after.contains (passing x) = false ∧
      ∃ (meaning : Meaning Bool) (env : Variable → Bool) (new : Bool),
        (passing x).eval meaning (Function.update env x new) ≠ (passing x).eval meaning env := by
  intro x y f passing store after
  obtain ⟨sound, keeps, needed⟩ := assign_var_sound store x (some .right)
  have apart : passing y ≠ .var x := by decide
  have apart' : passing x ≠ .var x := by decide
  have silent : (passing y).mentions (.var x) = false := by decide
  have kept : after.contains (passing y) = true := keeps _ (by decide) silent
  have known : store.contains (passing x) = true := by decide
  have gone : after.contains (passing x) = false := by decide
  obtain ⟨fact, denotes⟩ := sound _ apart kept
  exact ⟨⟨apart, silent, fact.trans (by decide), denotes⟩, apart', known, gone, needed _ apart' known gone⟩

end Store
end QualifierFlow
