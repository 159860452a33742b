import QualifierFlow.Proofs.Store.Keys
import QualifierFlow.Proofs.Store.Recording

/-! Operations seen from one path. Whatever is done to a store, the fact about a path is left,
dropped, set or weakened. Which of these it is depends on the operation, the path and what the store
assumes, but not on any fact. -/
namespace QualifierFlow
variable {V : Type}

inductive Effect (V : Type)
  | leave
  | drop
  | set (value : V)
  | weaken (value : V)

namespace Effect
variable [Domain V]

/-- What is known afterwards. Nothing is weakened if nothing is known. -/
def act : Effect V → Option V → Option V
  | .leave, known => known
  | .drop, _ => none
  | .set value, _ => some value
  | .weaken value, known => known.map (Domain.join · value)

end Effect

namespace Store

def assignEffect (store : Store V) (target : Path) (value : Option V) (path : Path) : Effect V :=
  if path = target then
    value.elim .drop fun value => if store.tracks target then .set value else .leave
  else if path.mentions target then .drop
  else if path.mayAlias target then value.elim .drop .weaken
  else .leave

theorem assignEffect_of_mentions (store : Store V) {target path : Path} (value : Option V)
    (apart : path ≠ target) (mentioned : path.mentions target = true) :
    store.assignEffect target value path = .drop := by
  rw [assignEffect, if_neg apart, if_pos mentioned]

theorem assignEffect_of_mayAlias (store : Store V) {target path : Path} (value : Option V)
    (silent : ¬ path.mentions target = true) (aliased : path.mayAlias target = true) :
    store.assignEffect target value path = value.elim .drop .weaken := by
  have apart : path ≠ target := Path.ne_of_not_mentions silent
  rw [assignEffect, if_neg apart, if_neg silent, if_pos aliased]

theorem assignEffect_of_silent (store : Store V) {target path : Path} (value : Option V)
    (silent : ¬ path.mentions target = true) (distinct : ¬ path.mayAlias target = true) :
    store.assignEffect target value path = .leave := by
  have apart : path ≠ target := Path.ne_of_not_mentions silent
  rw [assignEffect, if_neg apart, if_neg silent, if_neg distinct]

def callEffect (store : Store V) (call : Call) (calleePure : Bool) (result : Option V)
    (path : Path) : Effect V :=
  let remaining := if store.MayFalsify calleePure path then .drop else .leave
  if path = call.path ∧ path.isCall = true ∧ path.hasUnknown = false then
    result.elim remaining .set
  else remaining

/-- What an operation does to the fact about a path. The store matters by its assumptions only. -/
def effect (store : Store V) (path : Path) : Operation V → Effect V
  | .record target value => if path = target ∧ store.tracks target then .set value else .leave
  | .assign target value => store.assignEffect target value path
  | .assignUnnamed target =>
    if path ≠ target ∧ path.survivesUnnamed target then .leave else .drop
  | .call call calleePure result => store.callEffect call calleePure result path
  | .bindParameter parameter value =>
    if path = .var parameter then value.elim .leave .set else .leave
  | .join other => (other.get? path).elim .drop .weaken

theorem effect_eq_of_assumptions {store other : Store V}
    (same : store.assumptions = other.assumptions) : store.effect = other.effect := by
  obtain ⟨_, assumptions⟩ := store
  obtain ⟨_, _⟩ := other
  cases same
  funext path operation
  cases operation <;> rfl

variable [Domain V]

theorem get?_assign_self (store : Store V) (target : Path) (value : Option V) :
    (store.assign target value).get? target =
      value.elim none fun value =>
        if store.tracks target then some value else store.get? target := by
  have untouched : (store.revise (assigned target value)).get? target = store.get? target := by
    rw [get?_revise]
    cases store.get? target <;> simp [assigned]
  cases value with
  | none => rw [assign, get?_forget, if_pos rfl, Option.elim_none]
  | some value =>
    rw [assign, get?_record, untouched]
    simp [tracks]

theorem act_assignEffect_of_ne (store : Store V) {target path : Path} (value : Option V)
    (apart : path ≠ target) (known : Option V) :
    (store.assignEffect target value path).act known = known.bind (assigned target value path) := by
  unfold assignEffect assigned
  rw [if_neg apart]
  by_cases mentioned : path.mentions target = true
  · cases known <;> simp [mentioned, apart, Effect.act]
  · by_cases aliased : path.mayAlias target = true
    · cases known <;> cases value <;> simp [mentioned, aliased, apart, Effect.act]
    · cases known <;> simp [mentioned, aliased, apart, Effect.act]

theorem get?_assign (store : Store V) (target : Path) (value : Option V) (path : Path) :
    (store.assign target value).get? path =
      (store.assignEffect target value path).act (store.get? path) := by
  by_cases same : path = target
  · rw [same, get?_assign_self, assignEffect, if_pos rfl]
    cases value with
    | none => rfl
    | some value => cases store.tracks target <;> simp [Effect.act]
  · rw [get?_assign_of_ne store value same, act_assignEffect_of_ne store value same]

private theorem get?_afterCall_eq_act (store : Store V) (call : Call) (calleePure : Bool)
    (result : Option V) (path : Path) :
    (store.afterCall call calleePure result).get? path =
      (store.callEffect call calleePure result path).act (store.get? path) := by
  have remaining : (if store.MayFalsify calleePure path then Effect.drop else .leave).act
      (store.get? path) = if store.MayFalsify calleePure path then none else store.get? path := by
    split <;> rfl
  rw [get?_afterCall, factAfterCall, callEffect, ← remaining]
  cases result with
  | none => simp
  | some value =>
    by_cases own : path = call.path ∧ path.isCall = true ∧ path.hasUnknown = false
    · rw [if_pos own, if_pos ⟨own.1, own.2.1, own.2.2, rfl⟩]
      rfl
    · rw [if_neg own, if_neg fun recorded => own ⟨recorded.1, recorded.2.1, recorded.2.2.1⟩]

/-- An operation does to every fact what its effect on the path does. -/
theorem get?_apply (store : Store V) (operation : Operation V) (path : Path) :
    (store.apply operation).get? path = (store.effect path operation).act (store.get? path) := by
  cases operation with
  | record target value =>
    rw [apply, get?_record, effect]
    split <;> rfl
  | assign target value => exact store.get?_assign target value path
  | assignUnnamed target =>
    rw [apply, get?_assignUnnamed, effect]
    split <;> rfl
  | call call calleePure result => exact store.get?_afterCall_eq_act call calleePure result path
  | bindParameter parameter value =>
    rw [effect]
    cases value with
    | none => split <;> rfl
    | some value =>
      rw [apply, bindParameter, get?_put]
      split <;> rfl
  | join other =>
    rw [apply, get?_join, effect]
    cases other.get? path <;> cases store.get? path <;> rfl

/-- What operations make of what is known of one path, each by its effect there. -/
def performAt (store : Store V) (path : Path) (operations : List (Operation V))
    (known : Option V) : Option V :=
  operations.foldl (fun known operation => (store.effect path operation).act known) known

/-- What any number of operations leave can be told path by path. -/
theorem get?_perform (store : Store V) (operations : List (Operation V)) (path : Path) :
    (store.perform operations).get? path = store.performAt path operations (store.get? path) := by
  induction operations generalizing store with
  | nil => rfl
  | cons operation operations ih =>
    have unchanged : (store.apply operation).effect = store.effect :=
      effect_eq_of_assumptions (assumptions_apply store operation)
    calc (store.perform (operation :: operations)).get? path
        = ((store.apply operation).perform operations).get? path := rfl
      _ = (store.apply operation).performAt path operations ((store.apply operation).get? path) := ih _
      _ = store.performAt path operations ((store.effect path operation).act (store.get? path)) := by
        rw [performAt, unchanged, get?_apply, performAt]

end Store
end QualifierFlow
