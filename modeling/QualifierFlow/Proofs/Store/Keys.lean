import QualifierFlow.Proofs.Store.Staleness

/-! Where the keys of a store come from. Each operation adds at most the one fact that it is about,
and only if the path is of the right kind; what else is known after it was known before. So what all
keys of a store have in common is settled operation by operation, and holds after any number. -/
namespace QualifierFlow

private theorem Path.isStable_field (owner : Path) (f : Field) :
    (Path.field owner f).isStable = (f.isFinal && owner.isStable) := by
  simp [isStable, subpaths, hasFixedHead]

namespace Store
variable {V : Type}

theorem not_contains_empty (assumptions : Assumptions) (path : Path) :
    (empty assumptions : Store V).contains path = false := rfl

private theorem contains_put {store : Store V} {path other : Path} {value : V} :
    (store.put path value).contains other = true ↔ other = path ∨ store.contains other = true := by
  rw [contains_eq_isSome, contains_eq_isSome, get?_put]
  split <;> simp_all

theorem contains_record {store : Store V} {path other : Path} {value : V} :
    (store.record path value).contains other = true ↔
      other = path ∧ store.tracks path = true ∨ store.contains other = true := by
  rw [contains_eq_isSome, contains_eq_isSome, get?_record]
  split <;> simp_all

theorem contains_bindParameter {store : Store V} {parameter : Variable} {value : Option V}
    {path : Path} (known : (store.bindParameter parameter value).contains path = true) :
    path = .var parameter ∨ store.contains path = true := by
  cases value with
  | none => exact .inr known
  | some value => exact contains_put.1 known

/-- A call adds its own path only, and that only if it is a call path without unknown parts. -/
theorem contains_of_contains_afterCall {store : Store V} {call : Call} {calleePure : Bool}
    {result : Option V} {path : Path}
    (known : (store.afterCall call calleePure result).contains path = true) :
    path = call.path ∧ path.isCall = true ∧ path.hasUnknown = false ∨
      store.contains path = true := by
  have kept : ∀ {path}, (if store.trustsCallee calleePure then store
      else store.keep Path.survivesEffects).contains path = true → store.contains path = true := by
    intro path
    split
    · exact id
    · rw [contains_eq_isSome, contains_eq_isSome, get?_keep]
      split <;> simp
  unfold afterCall at known
  cases result with
  | none => exact .inr (kept known)
  | some value =>
    dsimp only at known
    split at known
    · next itself =>
      rcases contains_put.1 known with rfl | known
      · simp only [Bool.and_eq_true, Bool.not_eq_true'] at itself
        exact .inl ⟨rfl, itself⟩
      · exact .inr (kept known)
    · exact .inr (kept known)

variable [Domain V]

theorem contains_of_contains_assign {store : Store V} {target path : Path} {value : Option V}
    (known : (store.assign target value).contains path = true) :
    path = target ∧ store.tracks target = true ∨ store.contains path = true := by
  have revised : ∀ {path}, (store.revise (assigned target value)).contains path = true →
      store.contains path = true := by
    intro path
    rw [contains_eq_isSome, contains_eq_isSome, get?_revise]
    cases store.get? path <;> simp
  cases value with
  | none =>
    rw [assign, contains_eq_isSome, get?_forget] at known
    split at known
    · exact absurd known (by simp)
    · exact .inr (revised known)
  | some value =>
    rcases contains_record.1 known with added | known
    · exact .inl added
    · exact .inr (revised known)

theorem contains_join {store other : Store V} {path : Path} :
    (store.join other).contains path = true ↔
      store.contains path = true ∧ other.contains path = true := by
  rw [contains_eq_isSome, contains_eq_isSome, contains_eq_isSome, get?_join]
  cases store.get? path <;> simp

inductive Operation (V : Type)
  | record (path : Path) (value : V)
  | assign (target : Path) (value : Option V)
  | assignUnnamed (target : Path)
  | call (call : Call) (calleePure : Bool) (result : Option V)
  | bindParameter (parameter : Variable) (value : Option V)
  | join (other : Store V)

def apply (store : Store V) : Operation V → Store V
  | .record path value => store.record path value
  | .assign target value => store.assign target value
  | .assignUnnamed target => store.assignUnnamed target
  | .call call calleePure result => store.afterCall call calleePure result
  | .bindParameter parameter value => store.bindParameter parameter value
  | .join other => store.join other

def perform (store : Store V) (operations : List (Operation V)) : Store V :=
  operations.foldl apply store

@[simp] theorem assumptions_apply (store : Store V) (operation : Operation V) :
    (store.apply operation).assumptions = store.assumptions := by
  cases operation with
  | record path value => exact assumptions_record store path value
  | assign target value => cases value <;> simp [apply, assign]
  | assignUnnamed target => rfl
  | call call calleePure result =>
    simp only [apply, afterCall]
    cases store.trustsCallee calleePure <;> cases result <;> simp only [] <;> split <;> rfl
  | bindParameter parameter value => cases value <;> rfl
  | join other => rfl

private theorem assumptions_perform (store : Store V) (operations : List (Operation V)) :
    (store.perform operations).assumptions = store.assumptions := by
  induction operations generalizing store with
  | nil => rfl
  | cons operation operations ih => exact (ih _).trans (assumptions_apply store operation)

def KnowsTracked (store : Store V) : Prop :=
  ∀ path, path.isField = true → store.contains path = true → store.tracks path = true

theorem KnowsTracked.apply {store : Store V} (tracked : store.KnowsTracked)
    (operation : Operation V) : (store.apply operation).KnowsTracked := by
  intro path field known
  have same : (store.apply operation).tracks path = store.tracks path := by
    rw [tracks, tracks, assumptions_apply]
  have old : store.contains path = true → store.tracks path = true := tracked path field
  rw [same]
  cases operation with
  | record target value =>
    rcases contains_record.1 known with ⟨rfl, added⟩ | known
    · exact added
    · exact old known
  | assign target value =>
    rcases contains_of_contains_assign known with ⟨rfl, added⟩ | known
    · exact added
    · exact old known
  | assignUnnamed target => exact old (contains_assignUnnamed.1 known).2.2
  | call call calleePure result =>
    rcases contains_of_contains_afterCall known with ⟨_, isCall, _⟩ | known
    · cases path <;> simp [Path.isField, Path.isCall] at field isCall
    · exact old known
  | bindParameter parameter value =>
    rcases contains_bindParameter known with rfl | known
    · simp [Path.isField] at field
    · exact old known
  | join other => exact old (contains_join.1 known).1

theorem KnowsTracked.perform {store : Store V} (tracked : store.KnowsTracked)
    (operations : List (Operation V)) : (store.perform operations).KnowsTracked := by
  induction operations generalizing store with
  | nil => exact tracked
  | cons operation operations ih => exact ih (tracked.apply operation)

omit [Domain V] in
private theorem eq_path_of_contains_afterCall {store : Store V}
    (concurrent : store.assumptions.concurrent = true) {call : Call} {calleePure : Bool}
    {result : Option V} {path : Path}
    (known : (store.afterCall call calleePure result).contains path = true)
    (volatile : path.isElement = true ∨ path.isCall = true) : path = call.path := by
  have distrusts : store.trustsCallee calleePure = false := by
    simp [trustsCallee, Assumptions.sequential, concurrent]
  refine Decidable.byContradiction fun apart => ?_
  have outlives : path.survivesEffects = true := ((contains_afterCall apart distrusts).1 known).1
  cases path <;> simp_all [Path.survivesEffects, Path.isElement, Path.isCall]

/-- Whatever is done to a store that was empty at first, under concurrent semantics it only knows
fields that no other code can change, and right after a call of no element, and of no call but
that one. -/
theorem perform_concurrent (sideEffectFree : Bool) (operations : List (Operation V)) :
    let store : Store V := (empty ⟨true, sideEffectFree⟩).perform operations
    (∀ owner f, store.contains (.field owner f) = true →
      f.isFinal = true ∧ owner.isStable = true) ∧
    ∀ call calleePure result path, (store.afterCall call calleePure result).contains path = true →
      path.isElement = true ∨ path.isCall = true → path = call.path := by
  intro store
  have concurrent : store.assumptions.concurrent = true := by
    rw [assumptions_perform]
    rfl
  have nothing : (empty ⟨true, sideEffectFree⟩ : Store V).KnowsTracked :=
    fun path _ known => absurd known (by simp [not_contains_empty])
  constructor
  · intro owner f known
    have tracked : store.tracks (.field owner f) = true := nothing.perform operations _ rfl known
    rw [tracks, Assumptions.sequential, concurrent, Path.isStable_field] at tracked
    simpa [Path.isField] using tracked
  · intro call calleePure result path known volatile
    exact eq_path_of_contains_afterCall concurrent known volatile

/-- A final field and the result of the last call are known, an element is not any more. -/
theorem perform_concurrent_call :
    let final : Field := ⟨⟨0⟩, "f", true⟩
    let call : Call := ⟨⟨0⟩, .call (.self ⟨0⟩) ⟨0⟩ [], []⟩
    let element : Path := .element (.var ⟨⟨0⟩, "a"⟩) (.var ⟨⟨1⟩, "i"⟩)
    let store : Store (Qualifier .diamond) := (empty ⟨true, true⟩).perform
      [.record (.field (.self ⟨0⟩) final) .left, .record element .left, .record call.path .right]
    let after := store.afterCall call true (some .left)
    (store.contains (.field (.self ⟨0⟩) final) = true ∧ final.isFinal = true ∧
      (Path.self ⟨0⟩).isStable = true) ∧
    (after.contains call.path = true ∧ (call.path.isElement = true ∨ call.path.isCall = true) ∧
      call.path = call.path) ∧ after.contains element = false := by
  intro final call element store after
  obtain ⟨fields, calls⟩ := perform_concurrent true
    [.record (.field (.self ⟨0⟩) final) .left, .record element .left,
      .record call.path (.right : Qualifier .diamond)]
  have field : store.contains (.field (.self ⟨0⟩) final) = true := by decide
  have result : after.contains call.path = true := by decide
  have volatile : call.path.isElement = true ∨ call.path.isCall = true := .inr rfl
  exact ⟨⟨field, fields _ _ field⟩, ⟨result, volatile, calls _ _ _ _ result volatile⟩, by decide⟩

end Store
end QualifierFlow
