import QualifierFlow.Path.Basic

/-! The total order of access paths: by kind, then part by part, argument lists lexicographically.
It is lawful, and paths that compare equal are equal, which also decides equality of paths. -/
namespace QualifierFlow

namespace Variable

instance : Ord Variable := ⟨compareLex (compareOn id) (compareOn name)⟩

instance : Std.TransOrd Variable :=
  inferInstanceAs (Std.TransCmp (compareLex (compareOn id) (compareOn name)))

instance : Std.LawfulEqOrd Variable where
  eq_of_compare {a b} equal := by
    obtain ⟨ids, names⟩ := Ordering.then_eq_eq.1 equal
    cases a; cases b
    simp_all [compareOn]

end Variable

namespace Field

instance : Ord Field :=
  ⟨compareLex (compareOn id) (compareLex (compareOn name) (compareOn isFinal))⟩

instance : Std.TransOrd Field :=
  inferInstanceAs (Std.TransCmp
    (compareLex (compareOn id) (compareLex (compareOn name) (compareOn isFinal))))

instance : Std.LawfulEqOrd Field where
  eq_of_compare {a b} equal := by
    obtain ⟨ids, rest⟩ := Ordering.then_eq_eq.1 equal
    obtain ⟨names, finality⟩ := Ordering.then_eq_eq.1 rest
    cases a; cases b
    simp_all [compareOn]

end Field

namespace Path

def rank : Path → Nat
  | .var _ => 0
  | .field .. => 1
  | .self _ => 2
  | .type _ => 3
  | .element .. => 4
  | .call .. => 5
  | .unknown _ => 6

mutual
def order : Path → Path → Ordering
  | .var a, .var b => compare a b
  | .field owner f, .field owner' f' => (order owner owner').then (compare f f')
  | .self a, .self b => compare a b
  | .type a, .type b => compare a b
  | .element array index, .element array' index' =>
    (order array array').then (order index index')
  | .call receiver m arguments, .call receiver' m' arguments' =>
    (order receiver receiver').then ((compare m m').then (orderAll arguments arguments'))
  | .unknown a, .unknown b => compare a b
  | a, b => compare a.rank b.rank

def orderAll : List Path → List Path → Ordering
  | [], [] => .eq
  | [], _ :: _ => .lt
  | _ :: _, [] => .gt
  | a :: as, b :: bs => (order a b).then (orderAll as bs)
end

instance : Ord Path := ⟨order⟩

mutual
private theorem order_self : ∀ a : Path, order a a = .eq
  | .var _ | .self _ | .type _ | .unknown _ => by simp [order]
  | .field owner _ => by simp [order, order_self owner]
  | .element array index => by simp [order, order_self array, order_self index]
  | .call receiver _ arguments => by
    simp [order, order_self receiver, orderAll_self arguments]

private theorem orderAll_self : ∀ as : List Path, orderAll as as = .eq
  | [] => by simp [orderAll]
  | a :: as => by simp [orderAll, order_self a, orderAll_self as]
end

mutual
private theorem eq_of_order : ∀ {a b : Path}, order a b = .eq → a = b
  | .var _, b, equal => by
    cases b <;> simp_all [order, rank]
  | .field owner _, b, equal => by
    cases b <;> simp [order, rank, Ordering.then_eq_eq] at equal
    obtain ⟨owners, rfl⟩ := equal
    rw [eq_of_order owners]
  | .self _, b, equal => by
    cases b <;> simp_all [order, rank]
  | .type _, b, equal => by
    cases b <;> simp_all [order, rank]
  | .element array index, b, equal => by
    cases b <;> simp [order, rank, Ordering.then_eq_eq] at equal
    rw [eq_of_order equal.1, eq_of_order equal.2]
  | .call receiver _ arguments, b, equal => by
    cases b <;> simp [order, rank, Ordering.then_eq_eq] at equal
    obtain ⟨receivers, rfl, rest⟩ := equal
    rw [eq_of_order receivers, eq_of_orderAll rest]
  | .unknown _, b, equal => by
    cases b <;> simp_all [order, rank]

private theorem eq_of_orderAll : ∀ {as bs : List Path}, orderAll as bs = .eq → as = bs
  | [], bs, equal => by cases bs <;> simp_all [orderAll]
  | a :: as, bs, equal => by
    cases bs with
    | nil => simp [orderAll] at equal
    | cons b bs =>
      simp only [orderAll, Ordering.then_eq_eq] at equal
      rw [eq_of_order equal.1, eq_of_orderAll equal.2]
end

mutual
private theorem order_swap : ∀ a b : Path, order a b = (order b a).swap
  | .var a, b => by
    cases b <;> simp only [order]
    all_goals exact Std.OrientedOrd.eq_swap
  | .field owner _, b => by
    cases b <;> simp only [order, Ordering.swap_then]
    case field owner' f' => rw [order_swap owner owner', ← Std.OrientedOrd.eq_swap]
    all_goals rfl
  | .self _, b => by
    cases b <;> simp only [order]
    all_goals exact Std.OrientedOrd.eq_swap
  | .type _, b => by
    cases b <;> simp only [order]
    all_goals exact Std.OrientedOrd.eq_swap
  | .element array index, b => by
    cases b <;> simp only [order, Ordering.swap_then]
    case element array' index' => rw [order_swap array array', order_swap index index']
    all_goals rfl
  | .call receiver m arguments, b => by
    cases b <;> simp only [order, Ordering.swap_then]
    case call receiver' m' arguments' =>
      rw [order_swap receiver receiver', orderAll_swap arguments arguments',
        ← Std.OrientedOrd.eq_swap]
    all_goals rfl
  | .unknown _, b => by
    cases b <;> simp only [order]
    all_goals exact Std.OrientedOrd.eq_swap

private theorem orderAll_swap : ∀ as bs : List Path, orderAll as bs = (orderAll bs as).swap
  | [], bs => by cases bs <;> rfl
  | a :: as, bs => by
    cases bs with
    | nil => rfl
    | cons b bs => simp only [orderAll, Ordering.swap_then, order_swap a b, orderAll_swap as bs]
end

/-- Lexicographic steps keep transitivity when equal first parts are the same. -/
private theorem then_lt_trans {ab bc ac ab' bc' ac' : Ordering}
    (less : ab = .lt → bc = .lt → ac = .lt) (left : ab = .eq → ac = bc)
    (right : bc = .eq → ac = ab) (later : ab = .eq → bc = .eq → ab' = .lt → bc' = .lt → ac' = .lt)
    (first : ab.then ab' = .lt) (second : bc.then bc' = .lt) : ac.then ac' = .lt := by
  cases ab <;> cases bc <;> simp_all

private theorem rank_le_of_order_lt {a b : Path} (less : order a b = .lt) : a.rank ≤ b.rank := by
  cases a <;> cases b <;> first | exact Nat.le_of_ble_eq_true rfl | nomatch less

private theorem order_of_rank_lt {a b : Path} (less : a.rank < b.rank) : order a b = .lt := by
  cases a <;> cases b <;> first | rfl | exact absurd less (by simp [rank])

private theorem order_lt_or_rank_eq {a b c : Path} (first : order a b = .lt)
    (second : order b c = .lt) : order a c = .lt ∨ a.rank = b.rank ∧ b.rank = c.rank := by
  have := rank_le_of_order_lt first
  have := rank_le_of_order_lt second
  by_cases less : a.rank < c.rank
  · exact .inl (order_of_rank_lt less)
  · exact .inr (by omega)

mutual
private theorem order_lt_trans : ∀ {a b c : Path},
    order a b = .lt → order b c = .lt → order a c = .lt
  | .var x, b, c, first, second => by
    obtain less | ⟨left, right⟩ := order_lt_or_rank_eq first second
    · exact less
    · cases b <;> simp [rank] at left
      cases c <;> simp [rank] at right
      simp only [order] at first second ⊢
      exact Std.TransCmp.lt_trans first second
  | .field _ _, b, c, first, second => by
    obtain less | ⟨left, right⟩ := order_lt_or_rank_eq first second
    · exact less
    · cases b <;> simp [rank] at left
      cases c <;> simp [rank] at right
      simp only [order] at first second ⊢
      refine then_lt_trans order_lt_trans (fun equal => ?_) (fun equal => ?_)
        (fun _ _ => Std.TransCmp.lt_trans) first second
      · rw [eq_of_order equal]
      · rw [eq_of_order equal]
  | .self x, b, c, first, second => by
    obtain less | ⟨left, right⟩ := order_lt_or_rank_eq first second
    · exact less
    · cases b <;> simp [rank] at left
      cases c <;> simp [rank] at right
      simp only [order] at first second ⊢
      exact Std.TransCmp.lt_trans first second
  | .type x, b, c, first, second => by
    obtain less | ⟨left, right⟩ := order_lt_or_rank_eq first second
    · exact less
    · cases b <;> simp [rank] at left
      cases c <;> simp [rank] at right
      simp only [order] at first second ⊢
      exact Std.TransCmp.lt_trans first second
  | .element _ _, b, c, first, second => by
    obtain less | ⟨left, right⟩ := order_lt_or_rank_eq first second
    · exact less
    · cases b <;> simp [rank] at left
      cases c <;> simp [rank] at right
      simp only [order] at first second ⊢
      refine then_lt_trans order_lt_trans (fun equal => ?_) (fun equal => ?_)
        (fun _ _ => order_lt_trans) first second
      · rw [eq_of_order equal]
      · rw [eq_of_order equal]
  | .call _ _ _, b, c, first, second => by
    obtain less | ⟨left, right⟩ := order_lt_or_rank_eq first second
    · exact less
    · cases b <;> simp [rank] at left
      cases c <;> simp [rank] at right
      simp only [order] at first second ⊢
      refine then_lt_trans order_lt_trans (fun equal => ?_) (fun equal => ?_)
        (fun _ _ => then_lt_trans Std.TransCmp.lt_trans (fun equal => ?_) (fun equal => ?_)
          (fun _ _ => orderAll_lt_trans)) first second
      · rw [eq_of_order equal]
      · rw [eq_of_order equal]
      · rw [Std.LawfulEqOrd.eq_of_compare equal]
      · rw [Std.LawfulEqOrd.eq_of_compare equal]
  | .unknown x, b, c, first, second => by
    obtain less | ⟨left, right⟩ := order_lt_or_rank_eq first second
    · exact less
    · cases b <;> simp [rank] at left
      cases c <;> simp [rank] at right
      simp only [order] at first second ⊢
      exact Std.TransCmp.lt_trans first second

private theorem orderAll_lt_trans : ∀ {as bs cs : List Path},
    orderAll as bs = .lt → orderAll bs cs = .lt → orderAll as cs = .lt
  | [], bs, cs, first, second => by
    cases bs <;> cases cs <;> simp_all [orderAll]
  | a :: as, bs, cs, first, second => by
    cases bs with
    | nil => simp [orderAll] at first
    | cons b bs =>
      cases cs with
      | nil => simp [orderAll] at second
      | cons c cs =>
        simp only [orderAll] at first second ⊢
        refine then_lt_trans order_lt_trans (fun equal => ?_) (fun equal => ?_)
          (fun _ _ => orderAll_lt_trans) first second
        · rw [eq_of_order equal]
        · rw [eq_of_order equal]
end

instance : Std.OrientedOrd Path where
  eq_swap := order_swap _ _

instance : Std.TransOrd Path where
  isLE_trans {a b c} first second := by
    cases left : compare a b with
    | eq => rwa [eq_of_order left]
    | gt => simp [left] at first
    | lt =>
      cases right : compare b c with
      | eq => rwa [← eq_of_order right]
      | gt => simp [right] at second
      | lt => exact congrArg Ordering.isLE (order_lt_trans left right)

instance : Std.LawfulEqOrd Path where
  compare_self := order_self _
  eq_of_compare := eq_of_order

instance : DecidableEq Path := fun a b =>
  decidable_of_iff (compare a b = .eq) Std.LawfulEqCmp.compare_eq_iff_eq

end Path
end QualifierFlow
