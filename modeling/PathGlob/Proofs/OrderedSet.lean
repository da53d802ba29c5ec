import Mathlib
import PathGlob.Lookup.Script
import PathGlob.OrderedSet

/-!
# Sets that are filled in order

Adding texts to a set appends those that are new, each once, in the order of their first adding.
-/
namespace PathGlob

namespace OrderedSet

variable (s : OrderedSet) (x : String) (xs ys : List String)

theorem addAll_cons : s.addAll (x :: xs) = (s.add x).2.addAll xs := rfl

theorem addAll_append : s.addAll (xs ++ ys) = (s.addAll xs).addAll ys := by simp [addAll]

theorem toList_addAll :
    (s.addAll xs).toList = s.toList ++ (xs.filter fun x => x ∉ s.toList).eraseDups := by
  induction xs generalizing s with
  | nil => simp [addAll]
  | cons x xs ih =>
    rw [addAll_cons, ih, toList_add]
    by_cases hx : x ∈ s.toList
    · simp [hx]
    · have hrest : (xs.filter fun y => y ∉ s.toList ++ [x]) =
          (xs.filter fun y => y ∉ s.toList).filter fun y => !y == x := by
        rw [List.filter_filter]
        apply List.filter_congr
        intro y _
        by_cases hy : y = x <;> simp [hy, hx]
      rw [if_neg hx, hrest, List.filter_cons_of_pos (by simpa using hx), List.eraseDups_cons,
        List.append_assoc, List.singleton_append]

theorem toList_ofList : (ofList xs).toList = xs.eraseDups := by
  simp [ofList, toList_addAll, empty]

theorem ext_toList {s t : OrderedSet} (h : s.toList = t.toList) : s = t := by
  cases s
  cases t
  simpa using h

theorem mem_addAll {s : OrderedSet} {xs : List String} {x : String} :
    x ∈ (s.addAll xs).toList ↔ x ∈ s.toList ∨ x ∈ xs := by
  rw [toList_addAll, List.mem_append, List.mem_eraseDups, List.mem_filter]
  by_cases hx : x ∈ s.toList <;> simp [hx]

theorem add_of_mem {s : OrderedSet} {x : String} (h : x ∈ s.toList) : (s.add x).2 = s := by
  simp [add, h]

/-- Leaving out repeats first makes no difference. -/
theorem addAll_ofList (s : OrderedSet) (xs : List String) :
    s.addAll (ofList xs).toList = s.addAll xs := by
  induction xs using List.reverseRecOn with
  | nil => rfl
  | append_singleton xs x ih =>
    have hlast : ofList (xs ++ [x]) = ((ofList xs).add x).2 := addAll_append _ _ _
    rw [hlast, toList_add, addAll_append]
    by_cases hx : x ∈ (ofList xs).toList
    · have hmem : x ∈ (s.addAll xs).toList := by
        rw [← ih]
        exact mem_addAll.mpr (.inr hx)
      rw [if_pos hx, ih]
      exact (add_of_mem hmem).symm
    · rw [if_neg hx, addAll_append, ih]

end OrderedSet

/-- What is left out may be left out before or after the repeats. -/
theorem eraseDups_filter (p : String → Bool) (xs : List String) :
    (xs.filter p).eraseDups = xs.eraseDups.filter p := by
  induction xs using List.reverseRecOn with
  | nil => rfl
  | append_singleton xs x ih =>
    have hone : [x].eraseDups = [x] := rfl
    rw [List.filter_append, List.eraseDups_append, List.eraseDups_append, ih, List.filter_append]
    refine congrArg _ ?_
    by_cases hx : x ∈ xs <;> cases hp : p x <;> simp [List.removeAll, hx, hp, hone]

/-- Where there are no repeats, none are left out. -/
theorem eraseDups_of_nodup {xs : List String} (h : xs.Nodup) : xs.eraseDups = xs := by
  induction xs with
  | nil => rfl
  | cons x xs ih =>
    obtain ⟨hx, hxs⟩ := List.nodup_cons.mp h
    have hrest : (xs.filter fun y => !y == x) = xs := by
      refine List.filter_eq_self.mpr fun y hy => ?_
      simpa using ne_of_mem_of_not_mem hy hx
    rw [List.eraseDups_cons, hrest, ih hxs]

namespace Event

/-- The paths among some reports come in the order of their first report, without repeats. -/
theorem nodup_paths (events : List Event) : (paths events).Nodup := by
  rw [paths, ← OrderedSet.toList_ofList]
  exact (OrderedSet.ofList _).distinct

theorem mem_paths {events : List Event} {path : String} :
    path ∈ paths events ↔ .found path ∈ events := by
  rw [paths, List.mem_eraseDups, List.mem_filterMap]
  constructor
  · rintro ⟨e, he, heq⟩
    cases e <;> simp_all
  · intro h
    exact ⟨_, h, rfl⟩

theorem toList_addAll_paths {s : OrderedSet} {before : List Event}
    (h : s.toList = paths before) (after : List Event) :
    (s.addAll (paths after)).toList = paths (before ++ after) := by
  obtain ⟨f, hpaths⟩ : ∃ f, ∀ es, paths es = (OrderedSet.ofList (es.filterMap f)).toList :=
    ⟨_, fun es => (OrderedSet.toList_ofList _).symm⟩
  rw [hpaths] at h
  rw [hpaths, OrderedSet.addAll_ofList, OrderedSet.ext_toList h, hpaths, List.filterMap_append,
    OrderedSet.ofList, OrderedSet.ofList, OrderedSet.addAll_append]

theorem toList_add_path {s : OrderedSet} {before : List Event} (h : s.toList = paths before)
    (path : String) : (s.add path).2.toList = paths (before ++ [.found path]) :=
  toList_addAll_paths h [.found path]

theorem paths_append_of_not_found {e : Event} (he : ∀ path, e ≠ .found path)
    (before : List Event) : paths (before ++ [e]) = paths before := by
  cases e with
  | found path => exact absurd rfl (he path)
  | loop dir => simp [paths]
  | unreadable dir error => simp [paths]

end Event

end PathGlob
