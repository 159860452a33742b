import QualifierFlow.Path.Order

/-! Containment of access paths: one path mentions another that occurs in it, itself included. -/
namespace QualifierFlow.Path

def mentions (path other : Path) : Bool := path.subpaths.contains other

@[simp] theorem mentions_iff {path other : Path} :
    path.mentions other = true ↔ other ∈ path.subpaths := by
  simp [mentions]

theorem mem_subpaths_self (path : Path) : path ∈ path.subpaths := by
  cases path <;> simp [subpaths]

theorem ne_of_not_mentions {path other : Path} (silent : ¬ path.mentions other = true) :
    path ≠ other := by
  rintro rfl
  exact silent (mentions_iff.2 path.mem_subpaths_self)

end QualifierFlow.Path
