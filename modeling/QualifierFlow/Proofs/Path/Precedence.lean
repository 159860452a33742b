import Mathlib.Order.Defs.Unbundled
import QualifierFlow.Path.Order

/-! The order of access paths by its rules: which of two paths comes first is settled by their kinds
and, for paths of one kind, by the first parts in which they differ. The comparison of paths follows
these rules, and is a linear order. -/
namespace QualifierFlow

private theorem Id.compare_eq_lt_iff {entity : Entity} {a b : Id entity} :
    compare a b = .lt ↔ a.index < b.index :=
  Nat.compare_eq_lt

/-- By number, then by name. -/
def Variable.Before (a b : Variable) : Prop :=
  a.id.index < b.id.index ∨ a.id = b.id ∧ a.name < b.name

private theorem Variable.compare_eq_lt_iff {a b : Variable} : compare a b = .lt ↔ a.Before b := by
  have names : compare a.name b.name = .lt ↔ a.name < b.name := compareOfLessAndEq_eq_lt
  change (compare a.id b.id).then (compare a.name b.name) = .lt ↔ _
  rw [Ordering.then_eq_lt, Id.compare_eq_lt_iff, Std.LawfulEqCmp.compare_eq_iff_eq, names, Before]

/-- By number, then by name; of two fields that otherwise agree the final one comes last. -/
def Field.Before (a b : Field) : Prop :=
  a.id.index < b.id.index ∨ a.id = b.id ∧
    (a.name < b.name ∨ a.name = b.name ∧ a.isFinal = false ∧ b.isFinal = true)

private theorem Field.compare_eq_lt_iff {a b : Field} : compare a b = .lt ↔ a.Before b := by
  have names : compare a.name b.name = .lt ↔ a.name < b.name := compareOfLessAndEq_eq_lt
  have finality : ∀ {p q : Bool}, compare p q = .lt ↔ p = false ∧ q = true := by decide
  change (compare a.id b.id).then
    ((compare a.name b.name).then (compare a.isFinal b.isFinal)) = .lt ↔ _
  rw [Ordering.then_eq_lt, Ordering.then_eq_lt, Id.compare_eq_lt_iff,
    Std.LawfulEqCmp.compare_eq_iff_eq, Std.LawfulEqCmp.compare_eq_iff_eq, names, finality, Before]

namespace Path

inductive Before : Path → Path → Prop
  /-- Kinds come in the order in which they are declared. -/
  | kind {a b : Path} : a.ctorIdx < b.ctorIdx → Before a b
  | var {v w : Variable} : v.Before w → Before (.var v) (.var w)
  | owner {o o' : Path} {f f' : Field} : Before o o' → Before (.field o f) (.field o' f')
  | field {o : Path} {f f' : Field} : f.Before f' → Before (.field o f) (.field o f')
  | self {s t : Id .type} : s.index < t.index → Before (.self s) (.self t)
  | type {s t : Id .type} : s.index < t.index → Before (.type s) (.type t)
  | array {a a' i i' : Path} : Before a a' → Before (.element a i) (.element a' i')
  | index {a i i' : Path} : Before i i' → Before (.element a i) (.element a i')
  | receiver {r r' : Path} {m m' : Id .method} {as as' : List Path} :
    Before r r' → Before (.call r m as) (.call r' m' as')
  | method {r : Path} {m m' : Id .method} {as as' : List Path} :
    m.index < m'.index → Before (.call r m as) (.call r m' as')
  /-- By the first arguments that differ, and a proper beginning of a list comes first. -/
  | arguments {r : Path} {m : Id .method} {as as' : List Path} :
    List.Lex Before as as' → Before (.call r m as) (.call r m as')
  | unknown {s t : Id .type} : s.index < t.index → Before (.unknown s) (.unknown t)

section Inversion
variable {a a' b b' : Path}

private theorem before_iff_of_kind (apart : a.ctorIdx ≠ b.ctorIdx) :
    Before a b ↔ a.ctorIdx < b.ctorIdx := by
  refine ⟨fun before => ?_, .kind⟩
  cases before with
  | kind less => exact less
  | _ => exact absurd rfl apart

private theorem before_var_iff {v w : Variable} : Before (.var v) (.var w) ↔ v.Before w := by
  refine ⟨fun before => ?_, .var⟩
  cases before with
  | kind less => exact absurd less (Nat.lt_irrefl _)
  | var before => exact before

private theorem before_field_iff {f f' : Field} :
    Before (.field a f) (.field a' f') ↔ Before a a' ∨ a = a' ∧ f.Before f' := by
  constructor
  · intro before
    cases before with
    | kind less => exact absurd less (Nat.lt_irrefl _)
    | owner before => exact .inl before
    | field before => exact .inr ⟨rfl, before⟩
  · rintro (before | ⟨rfl, before⟩)
    · exact .owner before
    · exact .field before

private theorem before_self_iff {s t : Id .type} :
    Before (.self s) (.self t) ↔ s.index < t.index := by
  refine ⟨fun before => ?_, .self⟩
  cases before with
  | kind less => exact absurd less (Nat.lt_irrefl _)
  | self less => exact less

private theorem before_type_iff {s t : Id .type} :
    Before (.type s) (.type t) ↔ s.index < t.index := by
  refine ⟨fun before => ?_, .type⟩
  cases before with
  | kind less => exact absurd less (Nat.lt_irrefl _)
  | type less => exact less

private theorem before_unknown_iff {s t : Id .type} :
    Before (.unknown s) (.unknown t) ↔ s.index < t.index := by
  refine ⟨fun before => ?_, .unknown⟩
  cases before with
  | kind less => exact absurd less (Nat.lt_irrefl _)
  | unknown less => exact less

private theorem before_element_iff :
    Before (.element a b) (.element a' b') ↔ Before a a' ∨ a = a' ∧ Before b b' := by
  constructor
  · intro before
    cases before with
    | kind less => exact absurd less (Nat.lt_irrefl _)
    | array before => exact .inl before
    | index before => exact .inr ⟨rfl, before⟩
  · rintro (before | ⟨rfl, before⟩)
    · exact .array before
    · exact .index before

private theorem before_call_iff {m m' : Id .method} {as as' : List Path} :
    Before (.call a m as) (.call a' m' as') ↔
      Before a a' ∨ a = a' ∧ (m.index < m'.index ∨ m = m' ∧ List.Lex Before as as') := by
  constructor
  · intro before
    cases before with
    | kind less => exact absurd less (Nat.lt_irrefl _)
    | receiver before => exact .inl before
    | method less => exact .inr ⟨rfl, .inl less⟩
    | arguments before => exact .inr ⟨rfl, .inr ⟨rfl, before⟩⟩
  · rintro (before | ⟨rfl, less | ⟨rfl, before⟩⟩)
    · exact .receiver before
    · exact .method less
    · exact .arguments before

end Inversion

private theorem order_eq_eq_iff {a b : Path} : order a b = .eq ↔ a = b := by
  change compare a b = .eq ↔ a = b
  exact Std.LawfulEqCmp.compare_eq_iff_eq

private theorem order_eq_lt_iff_of_kind {a b : Path} (apart : a.ctorIdx ≠ b.ctorIdx) :
    order a b = .lt ↔ Before a b := by
  have kinds : order a b = compare a.ctorIdx b.ctorIdx := by
    cases a <;> cases b <;> first | rfl | exact absurd rfl apart
  rw [kinds, Nat.compare_eq_lt, before_iff_of_kind apart]

-- by recursion over the left path; a right path of another kind is settled by the kinds alone
mutual
private theorem order_eq_lt_iff : ∀ {a b : Path}, order a b = .lt ↔ Before a b
  | .var v, b => by
    cases b with
    | var w => rw [order, Variable.compare_eq_lt_iff, before_var_iff]
    | _ => exact order_eq_lt_iff_of_kind (by simp [Path.ctorIdx])
  | .field a f, b => by
    cases b with
    | field a' f' =>
      rw [order, Ordering.then_eq_lt, order_eq_lt_iff, order_eq_eq_iff, Field.compare_eq_lt_iff,
        before_field_iff]
    | _ => exact order_eq_lt_iff_of_kind (by simp [Path.ctorIdx])
  | .self s, b => by
    cases b with
    | self t => rw [order, Id.compare_eq_lt_iff, before_self_iff]
    | _ => exact order_eq_lt_iff_of_kind (by simp [Path.ctorIdx])
  | .type s, b => by
    cases b with
    | type t => rw [order, Id.compare_eq_lt_iff, before_type_iff]
    | _ => exact order_eq_lt_iff_of_kind (by simp [Path.ctorIdx])
  | .element a i, b => by
    cases b with
    | element a' i' =>
      rw [order, Ordering.then_eq_lt, order_eq_lt_iff, order_eq_eq_iff, order_eq_lt_iff,
        before_element_iff]
    | _ => exact order_eq_lt_iff_of_kind (by simp [Path.ctorIdx])
  | .call r m as, b => by
    cases b with
    | call r' m' as' =>
      rw [order, Ordering.then_eq_lt, Ordering.then_eq_lt, order_eq_lt_iff, order_eq_eq_iff,
        Id.compare_eq_lt_iff, Std.LawfulEqCmp.compare_eq_iff_eq, orderAll_eq_lt_iff,
        before_call_iff]
    | _ => exact order_eq_lt_iff_of_kind (by simp [Path.ctorIdx])
  | .unknown s, b => by
    cases b with
    | unknown t => rw [order, Id.compare_eq_lt_iff, before_unknown_iff]
    | _ => exact order_eq_lt_iff_of_kind (by simp [Path.ctorIdx])

private theorem orderAll_eq_lt_iff : ∀ {as bs : List Path},
    orderAll as bs = .lt ↔ List.Lex Before as bs
  | [], [] => by simp [orderAll]
  | [], b :: bs => by simp [orderAll]
  | a :: as, [] => by simp [orderAll]
  | a :: as, b :: bs => by
    rw [orderAll, Ordering.then_eq_lt, order_eq_lt_iff, order_eq_eq_iff, orderAll_eq_lt_iff,
      List.cons_lex_cons_iff]
end

theorem compare_eq_lt_iff {a b : Path} : compare a b = .lt ↔ a.Before b :=
  order_eq_lt_iff

instance : IsLinearOrder Path (fun a b => (compare a b).isLE = true) where
  refl _ := Std.ReflCmp.isLE_rfl
  trans _ _ _ := Std.TransCmp.isLE_trans
  antisymm _ _ less greater :=
    Std.LawfulEqCmp.eq_of_compare (Std.OrientedCmp.isLE_antisymm less greater)
  total a b := by
    have swapped : compare b a = (compare a b).swap := Std.OrientedOrd.eq_swap
    rw [swapped]
    cases compare a b <;> simp

end Path
end QualifierFlow
