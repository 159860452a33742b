import QualifierFlow.Store.Lookup

/-! Facts recorded one after another, and what a call leaves of the facts before. A store that
records several facts says of a path what the last of them does that is about the path and tracked,
and what it said before if there is none. -/
namespace QualifierFlow
variable {V : Type}

/-- The value that the last of several facts about a path gives it. -/
def lastAbout (path : Path) (facts : List (Path × V)) : Option V :=
  ((facts.filter (·.1 = path)).getLast?).map (·.2)

private theorem lastAbout_cons (path : Path) (fact : Path × V) (facts : List (Path × V)) :
    lastAbout path (fact :: facts) =
      (lastAbout path facts).or (if fact.1 = path then some fact.2 else none) := by
  by_cases about : fact.1 = path
  · simp only [lastAbout, List.filter_cons, about, decide_true, if_true, List.getLast?_cons]
    cases (facts.filter (·.1 = path)).getLast? <;> rfl
  · simp [lastAbout, about]

namespace Store

def recordAll (store : Store V) (facts : List (Path × V)) : Store V :=
  facts.foldl (fun store fact => store.record fact.1 fact.2) store

theorem recordAll_append (store : Store V) (facts later : List (Path × V)) :
    store.recordAll (facts ++ later) = (store.recordAll facts).recordAll later :=
  List.foldl_append

@[simp] theorem assumptions_recordAll (store : Store V) (facts : List (Path × V)) :
    (store.recordAll facts).assumptions = store.assumptions := by
  induction facts generalizing store with
  | nil => rfl
  | cons fact facts ih => exact (ih _).trans (assumptions_record store fact.1 fact.2)

def effective (store : Store V) (facts : List (Path × V)) : List (Path × V) :=
  facts.filter fun fact => store.tracks fact.1

theorem effective_eq_of_assumptions {store other : Store V}
    (same : store.assumptions = other.assumptions) : store.effective = other.effective := by
  have tracks : store.tracks = other.tracks := by
    funext path
    rw [tracks, tracks, same]
  unfold effective
  rw [tracks]

theorem get?_recordAll (store : Store V) (facts : List (Path × V)) (path : Path) :
    (store.recordAll facts).get? path =
      (lastAbout path (store.effective facts)).or (store.get? path) := by
  induction facts generalizing store with
  | nil => rfl
  | cons fact facts ih =>
    have effective : (store.record fact.1 fact.2).effective = store.effective :=
      effective_eq_of_assumptions (assumptions_record store fact.1 fact.2)
    have later := ih (store.record fact.1 fact.2)
    rw [effective, get?_record] at later
    rw [recordAll, List.foldl_cons]
    refine later.trans ?_
    unfold Store.effective
    by_cases tracked : store.tracks fact.1 = true
    · rw [List.filter_cons, if_pos tracked, lastAbout_cons, Option.or_assoc]
      by_cases about : fact.1 = path
      · simp [about.symm, tracked]
      · simp [about, Ne.symm about]
    · rw [List.filter_cons, if_neg tracked]
      simp [tracked]

/-- A call may falsify what is known of a path: other threads run, or the callee is neither free of
side effects nor assumed to be, and the path is an element, a call or a field that may be
written. -/
def MayFalsify (store : Store V) (calleePure : Bool) (path : Path) : Prop :=
  (store.assumptions.concurrent = true ∨
    ¬ (store.assumptions.sideEffectFree = true ∨ calleePure = true)) ∧
  (path.isElement = true ∨ path.isCall = true ∨ path.isField = true ∧ path.isStable = false)

instance (store : Store V) (calleePure : Bool) (path : Path) :
    Decidable (store.MayFalsify calleePure path) :=
  inferInstanceAs (Decidable (_ ∧ _))

/-- What is known of a path right after a call: the result, if the path is the one that is called
and has no unknown parts, and otherwise what was known before, unless the call may falsify it. -/
def factAfterCall (store : Store V) (call : Call) (calleePure : Bool) (result : Option V)
    (path : Path) : Option V :=
  if path = call.path ∧ path.isCall = true ∧ path.hasUnknown = false ∧ result.isSome = true then
    result
  else if store.MayFalsify calleePure path then none
  else store.get? path

private theorem survives_iff {store : Store V} {calleePure : Bool} {path : Path} :
    (store.trustsCallee calleePure || path.survivesEffects) = true ↔
      ¬ store.MayFalsify calleePure path := by
  have trusted : store.trustsCallee calleePure = true ↔ ¬ (store.assumptions.concurrent = true ∨
      ¬ (store.assumptions.sideEffectFree = true ∨ calleePure = true)) := by
    rw [not_or, Decidable.not_not, trustsCallee, Assumptions.sequential, Bool.and_eq_true,
      Bool.not_eq_true', Bool.not_eq_true, Bool.or_eq_true]
  have survives : path.survivesEffects = true ↔ ¬ (path.isElement = true ∨ path.isCall = true ∨
      path.isField = true ∧ path.isStable = false) := by
    cases path <;> simp [Path.survivesEffects, Path.isElement, Path.isCall, Path.isField]
  rw [Bool.or_eq_true, trusted, survives, MayFalsify, Decidable.not_and_iff_or_not]

theorem get?_afterCall (store : Store V) (call : Call) (calleePure : Bool) (result : Option V)
    (path : Path) : (store.afterCall call calleePure result).get? path =
      store.factAfterCall call calleePure result path := by
  have kept := store.get?_keep_unless (store.trustsCallee calleePure) Path.survivesEffects path
  simp only [survives_iff, ite_not] at kept
  unfold afterCall factAfterCall
  rw [← kept]
  generalize (if store.trustsCallee calleePure then store
    else store.keep Path.survivesEffects) = remaining
  cases result with
  | none => simp
  | some value =>
    dsimp only
    by_cases named : call.path.isCall = true ∧ call.path.hasUnknown = false
    · -- the called path is recorded, whatever the call forgets
      rw [if_pos (by simp [named]), get?_put]
      by_cases own : path = call.path
      · rw [if_pos own, if_pos ⟨own, own ▸ named.1, own ▸ named.2, rfl⟩]
      · rw [if_neg own, if_neg fun recorded => own recorded.1]
    · have unrecorded : ¬ (call.path.isCall && !call.path.hasUnknown) = true := by
        simpa using named
      rw [if_neg unrecorded, if_neg]
      rintro ⟨rfl, isCall, clean, _⟩
      exact named ⟨isCall, clean⟩

end Store
end QualifierFlow
