import QualifierFlow.Store.Basic

/-! What each operation on a store does to the fact about every path. Two stores with the same
assumptions and the same facts are equal. -/
namespace QualifierFlow.Store
variable {V : Type}

theorem eq_of_get? {a b : Store V} (assumptions : a.assumptions = b.assumptions)
    (facts : ∀ path, a.get? path = b.get? path) : a = b := by
  obtain ⟨left, _⟩ := a
  obtain ⟨right, _⟩ := b
  obtain rfl := SortedMap.eq_of_get? (a := left) (b := right) facts
  exact congrArg (Store.mk left) assumptions

theorem contains_eq_isSome (store : Store V) (path : Path) :
    store.contains path = (store.get? path).isSome := rfl

@[simp] theorem get?_empty (assumptions : Assumptions) (path : Path) :
    (empty assumptions : Store V).get? path = none := rfl

theorem get?_put (store : Store V) (path : Path) (value : V) (other : Path) :
    (store.put path value).get? other = if other = path then some value else store.get? other :=
  SortedMap.get?_insert store.facts path value other

theorem get?_forget (store : Store V) (path other : Path) :
    (store.forget path).get? other = if other = path then none else store.get? other :=
  SortedMap.get?_erase store.facts path other

theorem get?_revise (store : Store V) (change : Path → V → Option V) (path : Path) :
    (store.revise change).get? path = (store.get? path).bind (change path) :=
  SortedMap.get?_filterMap store.facts change path

theorem get?_keep (store : Store V) (survives : Path → Bool) (path : Path) :
    (store.keep survives).get? path = if survives path then store.get? path else none :=
  SortedMap.get?_filter store.facts survives path

theorem get?_record (store : Store V) (path : Path) (value : V) (other : Path) :
    (store.record path value).get? other =
      if other = path ∧ store.tracks path then some value else store.get? other := by
  by_cases tracked : store.tracks path <;> simp [record, tracked, get?_put]

theorem get?_assignUnnamed (store : Store V) (target path : Path) :
    (store.assignUnnamed target).get? path =
      if path ≠ target ∧ path.survivesUnnamed target then store.get? path else none := by
  by_cases same : path = target <;> simp [assignUnnamed, get?_forget, get?_keep, same]

theorem get?_keep_unless (store : Store V) (trusted : Bool) (survives : Path → Bool) (path : Path) :
    (if trusted then store else store.keep survives).get? path =
      if trusted || survives path then store.get? path else none := by
  cases trusted <;> simp [get?_keep]

/-- A call's own path apart, a call keeps a fact or drops it. -/
theorem get?_afterCall_of_ne (store : Store V) (call : Call) (calleePure : Bool)
    (result : Option V) {path : Path} (apart : path ≠ call.path) :
    (store.afterCall call calleePure result).get? path =
      if store.trustsCallee calleePure || path.survivesEffects then store.get? path else none := by
  have kept := store.get?_keep_unless (store.trustsCallee calleePure) Path.survivesEffects path
  unfold afterCall
  cases result with
  | none => exact kept
  | some value =>
    dsimp only
    split
    · rw [get?_put, if_neg apart, kept]
    · exact kept

/-- The target apart, an assignment does to every fact what it leaves of it. -/
theorem get?_assign_of_ne [Domain V] (store : Store V) {target path : Path} (value : Option V)
    (apart : path ≠ target) :
    (store.assign target value).get? path = (store.get? path).bind (assigned target value path) := by
  unfold assign
  cases value with
  | none => rw [get?_forget, if_neg apart, get?_revise]
  | some value => rw [get?_record, if_neg fun same => apart same.1, get?_revise]

theorem get?_join [Domain V] (store other : Store V) (path : Path) :
    (store.join other).get? path =
      (store.get? path).bind fun a => (other.get? path).map (Domain.join a) :=
  get?_revise store _ path

@[simp] theorem assumptions_put (store : Store V) (path : Path) (value : V) :
    (store.put path value).assumptions = store.assumptions := rfl

@[simp] theorem assumptions_forget (store : Store V) (path : Path) :
    (store.forget path).assumptions = store.assumptions := rfl

@[simp] theorem assumptions_revise (store : Store V) (change : Path → V → Option V) :
    (store.revise change).assumptions = store.assumptions := rfl

@[simp] theorem assumptions_keep (store : Store V) (survives : Path → Bool) :
    (store.keep survives).assumptions = store.assumptions := rfl

@[simp] theorem assumptions_record (store : Store V) (path : Path) (value : V) :
    (store.record path value).assumptions = store.assumptions := by
  unfold record
  split <;> rfl

end QualifierFlow.Store
