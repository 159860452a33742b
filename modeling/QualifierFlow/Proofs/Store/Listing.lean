import QualifierFlow.Proofs.Listing
import QualifierFlow.Proofs.Path.Precedence
import QualifierFlow.Proofs.Store.Effects

/-! Stores as lists of facts. Whatever was done to a store, its facts are listed by the order of their
paths, and what is looked up or counted is what is listed. -/
namespace QualifierFlow.Store
variable {V : Type}

private theorem isListing (store : Store V) :
    IsListing Path.Before (fun path => store.contains path = true) (store.toList.map Prod.fst) :=
  store.facts.isListing Path.compare_eq_lt_iff.1 store.facts.mem_keys

variable [Domain V]

/-- Paths are compared by the rules of their order, which is linear, and only equal paths compare
equal. After any operations on an empty store, its facts are those that the operations leave path by
path. They are listed in this order, each path at most once, and looking a path up, asking whether it
is known and counting facts agree with the list. -/
theorem perform_lists (assumptions : Assumptions) (operations : List (Operation V)) :
    let store : Store V := (empty assumptions).perform operations
    (IsLinearOrder Path fun a b => (compare a b).isLE = true) ∧
    (∀ a b : Path, (compare a b = .lt ↔ a.Before b) ∧ (compare a b = .eq ↔ a = b)) ∧
    IsListing Path.Before (fun path => store.contains path = true) (store.toList.map Prod.fst) ∧
    (∀ path value, (path, value) ∈ store.toList ↔ store.get? path = some value) ∧
    (∀ path, store.get? path = (empty assumptions).performAt path operations none) ∧
    store.size = store.toList.length := by
  intro store
  refine ⟨inferInstance, fun a b => ⟨Path.compare_eq_lt_iff, Std.LawfulEqCmp.compare_eq_iff_eq⟩,
    store.isListing, fun path value => ?_, fun path => ?_, rfl⟩
  · exact (store.facts.get?_eq_some_iff path value).symm
  · exact (empty assumptions).get?_perform operations path

/-- Calls are listed after fields, and of two calls the one with fewer arguments first. One fact is
recorded twice, and one is weakened by the assignment to a field that may be the same. -/
theorem perform_lists_calls :
    let x : Path := .var ⟨⟨0⟩, "x"⟩
    let y : Path := .var ⟨⟨1⟩, "y"⟩
    let f : Field := ⟨⟨0⟩, "f", false⟩
    let call (arguments : List Path) : Path := .call (.self ⟨0⟩) ⟨0⟩ arguments
    let operations : List (Operation (Qualifier .diamond)) :=
      [.record (call [x, y]) .left, .record (.field y f) .left, .record (call [x]) .left,
        .record (call [x, y]) .right, .assign (.field x f) (some .right)]
    let store : Store (Qualifier .diamond) := (empty {}).perform operations
    store.toList = [(.field x f, .right), (.field y f, Hierarchy.diamond.top), (call [x], .left),
      (call [x, y], .right)] ∧
    (store.toList.map Prod.fst).Pairwise Path.Before ∧ (store.toList.map Prod.fst).Nodup ∧
    store.get? (call [x, y]) = some .right ∧ store.size = 4 := by
  intro x y f call operations store
  have listed : store.toList = [(.field x f, .right), (.field y f, Hierarchy.diamond.top),
    (call [x], .left), (call [x, y], .right)] := by decide
  obtain ⟨-, -, listing, looked, -, counted⟩ := perform_lists {} operations
  have last : (call [x, y], .right) ∈ store.toList := by simp [listed]
  refine ⟨listed, listing.sorted, listing.nodup, (looked _ _).1 last, ?_⟩
  rw [counted]
  exact congrArg List.length listed

end QualifierFlow.Store
