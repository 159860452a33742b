/-! Finite maps kept as strictly increasing lists of entries. What each operation does is said
through `get?`, and two maps that answer every `get?` alike are equal. -/
namespace QualifierFlow

/-- The entries of a finite map, their keys strictly increasing. -/
structure SortedMap (κ β : Type) [Ord κ] where
  entries : List (κ × β)
  increasing : entries.Pairwise (fun a b => compare a.1 b.1 = .lt)

namespace SortedMap
variable {κ β γ : Type} [Ord κ]

def empty : SortedMap κ β := ⟨[], .nil⟩

instance : EmptyCollection (SortedMap κ β) := ⟨empty⟩

instance : Inhabited (SortedMap κ β) := ⟨empty⟩

instance [DecidableEq κ] [DecidableEq β] : DecidableEq (SortedMap κ β) := fun a b =>
  decidable_of_iff (a.entries = b.entries) (by cases a; cases b; simp)

def toList (map : SortedMap κ β) : List (κ × β) := map.entries

def keys (map : SortedMap κ β) : List κ := map.entries.map (·.1)

def values (map : SortedMap κ β) : List β := map.entries.map (·.2)

def size (map : SortedMap κ β) : Nat := map.entries.length

def isEmpty (map : SortedMap κ β) : Bool := map.entries.isEmpty

def find? (key : κ) : List (κ × β) → Option β
  | [] => none
  | (k, v) :: rest => if compare key k = .eq then some v else find? key rest

def get? (map : SortedMap κ β) (key : κ) : Option β := find? key map.entries

def contains (map : SortedMap κ β) (key : κ) : Bool := (map.get? key).isSome

/-- Puts an entry at its place in an increasing list, over an entry of the same key. -/
def place (key : κ) (value : β) : List (κ × β) → List (κ × β)
  | [] => [(key, value)]
  | (k, v) :: rest =>
    match compare key k with
    | .lt => (key, value) :: (k, v) :: rest
    | .eq => (key, value) :: rest
    | .gt => (k, v) :: place key value rest

private theorem mem_place {key : κ} {value : β} {entries : List (κ × β)} {entry : κ × β}
    (member : entry ∈ place key value entries) : entry = (key, value) ∨ entry ∈ entries := by
  induction entries with
  | nil => simpa [place] using member
  | cons head rest ih =>
    obtain ⟨k, v⟩ := head
    simp only [place] at member
    split at member <;> grind

section Lawful
variable [Std.TransOrd κ] [Std.LawfulEqOrd κ]

private theorem place_increasing (key : κ) (value : β) (entries : List (κ × β))
    (increasing : entries.Pairwise (fun a b => compare a.1 b.1 = .lt)) :
    (place key value entries).Pairwise (fun a b => compare a.1 b.1 = .lt) := by
  induction entries with
  | nil => simp [place]
  | cons head rest ih =>
    obtain ⟨k, v⟩ := head
    obtain ⟨first, later⟩ := List.pairwise_cons.1 increasing
    simp only [place]
    split
    · next less =>
      refine List.pairwise_cons.2 ⟨fun entry member => ?_, increasing⟩
      rcases List.mem_cons.1 member with rfl | member
      · exact less
      · exact Std.TransCmp.lt_trans less (first entry member)
    · next same =>
      obtain rfl := Std.LawfulEqOrd.eq_of_compare same
      exact List.pairwise_cons.2 ⟨first, later⟩
    · next greater =>
      refine List.pairwise_cons.2 ⟨fun entry member => ?_, ih later⟩
      rcases mem_place member with rfl | member
      · exact Std.OrientedCmp.gt_iff_lt.1 greater
      · exact first entry member

def insert (map : SortedMap κ β) (key : κ) (value : β) : SortedMap κ β :=
  ⟨place key value map.entries, place_increasing key value map.entries map.increasing⟩

def insertNew (map : SortedMap κ β) (key : κ) (value : β) : SortedMap κ β :=
  if map.contains key then map else map.insert key value

def ofList (entries : List (κ × β)) : SortedMap κ β :=
  entries.foldl (fun map entry => map.insert entry.1 entry.2) empty

end Lawful

/-- Maps each value with its key, dropping those that are sent to nothing. -/
def filterMap (map : SortedMap κ β) (f : κ → β → Option γ) : SortedMap κ γ where
  entries := map.entries.filterMap fun (key, value) => (f key value).map (key, ·)
  increasing := by
    refine List.Pairwise.filterMap _ ?_ map.increasing
    simp only [Option.map_eq_some_iff]
    rintro ⟨_, _⟩ ⟨_, _⟩ less _ ⟨_, _, rfl⟩ _ ⟨_, _, rfl⟩
    exact less

def filter (map : SortedMap κ β) (keep : κ → Bool) : SortedMap κ β :=
  map.filterMap fun key value => if keep key then some value else none

def erase (map : SortedMap κ β) (key : κ) : SortedMap κ β :=
  map.filter fun k => compare key k != .eq

theorem keys_increasing (map : SortedMap κ β) :
    map.keys.Pairwise fun a b => compare a b = .lt :=
  List.pairwise_map.2 map.increasing

@[simp] theorem length_keys (map : SortedMap κ β) : map.keys.length = map.size := by
  simp [keys, size]

theorem isEmpty_iff_size_eq_zero (map : SortedMap κ β) : map.isEmpty = true ↔ map.size = 0 := by
  simp [isEmpty, size]

@[simp] theorem get?_empty (key : κ) : (empty : SortedMap κ β).get? key = none := rfl

private theorem find?_eq_none_of_lt {key : κ} {entries : List (κ × β)}
    (before : ∀ entry ∈ entries, compare key entry.1 = .lt) : find? key entries = none := by
  induction entries with
  | nil => rfl
  | cons head rest ih =>
    have less := before head (by simp)
    simp only [find?, less]
    exact ih fun entry member => before entry (by simp [member])

section LawfulEq
variable [Std.LawfulEqOrd κ]

private theorem find?_place (key : κ) (value : β) (entries : List (κ × β)) (other : κ) :
    find? other (place key value entries) =
      if compare other key = .eq then some value else find? other entries := by
  induction entries with
  | nil => simp [place, find?]
  | cons head rest ih =>
    obtain ⟨k, v⟩ := head
    simp only [place]
    split
    · simp [find?]
    · next same =>
      obtain rfl := Std.LawfulEqOrd.eq_of_compare same
      by_cases equal : compare other key = .eq <;> simp [find?, equal]
    · next greater =>
      by_cases equal : compare other key = .eq
      · obtain rfl := Std.LawfulEqOrd.eq_of_compare equal
        simp [find?, greater, ih]
      · simp [find?, equal, ih]

private theorem find?_filterMap (f : κ → β → Option γ) (key : κ) (entries : List (κ × β))
    (increasing : entries.Pairwise (fun a b => compare a.1 b.1 = .lt)) :
    find? key (entries.filterMap fun (k, v) => (f k v).map (k, ·)) =
      (find? key entries).bind (f key) := by
  induction entries with
  | nil => rfl
  | cons head rest ih =>
    obtain ⟨k, v⟩ := head
    obtain ⟨first, later⟩ := List.pairwise_cons.1 increasing
    have absent : find? k rest = none := find?_eq_none_of_lt first
    have rest := ih later
    by_cases equal : compare key k = .eq
    · obtain rfl := Std.LawfulEqOrd.eq_of_compare equal
      cases image : f key v <;> simp [find?, image, rest, absent]
    · cases image : f k v <;> simp [find?, image, rest, equal]

theorem get?_filterMap (map : SortedMap κ β) (f : κ → β → Option γ) (key : κ) :
    (map.filterMap f).get? key = (map.get? key).bind (f key) :=
  find?_filterMap f key map.entries map.increasing

theorem get?_filter (map : SortedMap κ β) (keep : κ → Bool) (key : κ) :
    (map.filter keep).get? key = if keep key then map.get? key else none := by
  simp only [filter, get?_filterMap]
  cases map.get? key <;> simp

theorem get?_erase [DecidableEq κ] (map : SortedMap κ β) (key other : κ) :
    (map.erase key).get? other = if other = key then none else map.get? other := by
  simp only [erase, get?_filter]
  by_cases equal : other = key
  · simp [equal]
  · have apart : compare key other ≠ .eq := fun same =>
      equal (Std.LawfulEqOrd.eq_of_compare same).symm
    simp [equal, apart]

theorem get?_eq_some_iff (map : SortedMap κ β) (key : κ) (value : β) :
    map.get? key = some value ↔ (key, value) ∈ map.toList := by
  obtain ⟨entries, increasing⟩ := map
  simp only [get?, toList]
  induction entries with
  | nil => simp [find?]
  | cons head rest ih =>
    obtain ⟨k, v⟩ := head
    obtain ⟨first, later⟩ := List.pairwise_cons.1 increasing
    by_cases equal : compare key k = .eq
    · obtain rfl := Std.LawfulEqOrd.eq_of_compare equal
      have absent : (key, value) ∉ rest := fun member => by
        have := first _ member
        simp at this
      simp [find?, absent, eq_comm]
    · have apart : key ≠ k := fun same => equal (by simp [same])
      simp [find?, equal, apart, ih later]

theorem mem_keys (map : SortedMap κ β) (key : κ) :
    key ∈ map.keys ↔ (map.get? key).isSome = true := by
  simp [keys, Option.isSome_iff_exists, get?_eq_some_iff, toList]

theorem keys_nodup (map : SortedMap κ β) : map.keys.Nodup := by
  refine map.keys_increasing.imp fun {a b} less same => ?_
  subst same
  simp at less

end LawfulEq

section Lawful
variable [Std.TransOrd κ] [Std.LawfulEqOrd κ]

theorem get?_insert [DecidableEq κ] (map : SortedMap κ β) (key : κ) (value : β) (other : κ) :
    (map.insert key value).get? other =
      if other = key then some value else map.get? other := by
  simp [get?, insert, find?_place, Std.LawfulEqCmp.compare_eq_iff_eq]

theorem get?_insertNew [DecidableEq κ] (map : SortedMap κ β) (key : κ) (value : β) (other : κ) :
    (map.insertNew key value).get? other =
      (map.get? other).or (if other = key then some value else none) := by
  unfold insertNew contains
  cases present : map.get? key with
  | some old =>
    by_cases same : other = key
    · subst same
      simp [present]
    · simp [same]
  | none =>
    by_cases same : other = key
    · subst same
      simp [get?_insert, present]
    · simp [get?_insert, same]

theorem eq_of_get? {a b : SortedMap κ β} (same : ∀ key, a.get? key = b.get? key) : a = b := by
  obtain ⟨left, leftIncreasing⟩ := a
  obtain ⟨right, rightIncreasing⟩ := b
  suffices equal : left = right by subst equal; rfl
  simp only [get?] at same
  induction left generalizing right with
  | nil =>
    cases right with
    | nil => rfl
    | cons head _ => have := same head.1; simp [find?] at this
  | cons head rest ih =>
    cases right with
    | nil => have := same head.1; simp [find?] at this
    | cons other tail =>
      obtain ⟨k, v⟩ := head
      obtain ⟨l, w⟩ := other
      obtain ⟨first, later⟩ := List.pairwise_cons.1 leftIncreasing
      obtain ⟨first', later'⟩ := List.pairwise_cons.1 rightIncreasing
      have keys : k = l := by
        cases order : compare k l with
        | eq => exact Std.LawfulEqOrd.eq_of_compare order
        | lt =>
          have absent : find? k tail = none := find?_eq_none_of_lt fun entry member =>
            Std.TransCmp.lt_trans order (first' entry member)
          have := same k
          simp [find?, order, absent] at this
        | gt =>
          have less := Std.OrientedCmp.gt_iff_lt.1 order
          have absent : find? l rest = none := find?_eq_none_of_lt fun entry member =>
            Std.TransCmp.lt_trans less (first entry member)
          have := same l
          simp [find?, less, absent] at this
      subst keys
      have heads : v = w := by have := same k; simpa [find?] using this
      subst heads
      congr 1
      refine ih later tail later' fun key => ?_
      by_cases equal : compare key k = .eq
      · obtain rfl := Std.LawfulEqOrd.eq_of_compare equal
        rw [find?_eq_none_of_lt first, find?_eq_none_of_lt first']
      · have := same key
        simpa [find?, equal] using this

end Lawful
end SortedMap
end QualifierFlow
