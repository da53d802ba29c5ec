/-!
# Ordered sets

A set of texts that remembers the order in which they were first added.
-/
namespace PathGlob

structure OrderedSet where
  toList : List String
  distinct : toList.Nodup

namespace OrderedSet

def empty : OrderedSet := ⟨[], List.nodup_nil⟩

def contains (s : OrderedSet) (x : String) : Bool := s.toList.contains x

def size (s : OrderedSet) : Nat := s.toList.length

/-- Adds a text and tells whether it was new. -/
def add (s : OrderedSet) (x : String) : Bool × OrderedSet :=
  if h : x ∈ s.toList then (false, s)
  else
    (true, ⟨s.toList ++ [x], by
      rw [List.nodup_append]
      refine ⟨s.distinct, by simp, fun a ha b hb => ?_⟩
      rw [List.mem_singleton.mp hb]
      rintro rfl
      exact h ha⟩)

theorem toList_add (s : OrderedSet) (x : String) :
    (s.add x).2.toList = if x ∈ s.toList then s.toList else s.toList ++ [x] := by
  unfold add
  split <;> simp_all

theorem add_eq_new (s : OrderedSet) (x : String) : (s.add x).1 = !s.contains x := by
  unfold add contains
  split <;> simp_all

def addAll (s : OrderedSet) (xs : List String) : OrderedSet :=
  xs.foldl (fun s x => (s.add x).2) s

def ofList (xs : List String) : OrderedSet := empty.addAll xs

end OrderedSet

end PathGlob
