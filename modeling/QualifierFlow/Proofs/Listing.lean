import QualifierFlow.SortedMap

/-! Listings. The keys of a finite map are listed each once and in order, whichever description of
the order and of what is known is used. -/
namespace QualifierFlow

/-- The list has all that is wanted and nothing else, each once, and in order. -/
structure IsListing {α : Type} (before : α → α → Prop) (wanted : α → Prop) (list : List α) :
    Prop where
  mem (a : α) : a ∈ list ↔ wanted a
  nodup : list.Nodup
  sorted : list.Pairwise before

theorem SortedMap.isListing {κ β : Type} [Ord κ] [Std.LawfulEqOrd κ] {before : κ → κ → Prop}
    {wanted : κ → Prop} (map : SortedMap κ β) (ordered : ∀ {a b}, compare a b = .lt → before a b)
    (mem : ∀ a, a ∈ map.keys ↔ wanted a) : IsListing before wanted map.keys :=
  ⟨mem, map.keys_nodup, map.keys_increasing.imp ordered⟩

end QualifierFlow
