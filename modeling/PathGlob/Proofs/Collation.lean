import Mathlib
import PathGlob.Collation

/-!
# The order of results

The order of results is a strict linear order of all texts, so that a list without repeats is sorted
in one way only, in whatever order its texts come.
-/
namespace PathGlob.Collation

/-! ## A linear order -/

instance : Std.TransCmp Weight.compare :=
  inferInstanceAs <| Std.TransCmp <|
    compareLex (compareOn fun w : Weight => w.category.rank) <|
      compareLex (compareOn Weight.rank) (compareOn Weight.code)

/-- Keys may be compared by what they hold at one level. -/
theorem transCmp_level {α : Type} (level : Key → α) (cmp : α → α → Ordering) [Std.TransCmp cmp] :
    Std.TransCmp fun a b => cmp (level a) (level b) where
  eq_swap := Std.OrientedCmp.eq_swap
  isLE_trans := Std.TransCmp.isLE_trans

instance : Std.TransCmp Key.compare := by
  have h₁ := transCmp_level Key.primary (List.compareLex Weight.compare)
  have h₂ := transCmp_level Key.accents (List.compareLex (List.compareLex Ord.compare))
  have h₃ := transCmp_level Key.folded (List.compareLex Ord.compare)
  have h₄ := transCmp_level Key.text (List.compareLex Ord.compare)
  exact inferInstanceAs <| Std.TransCmp <|
    compareLex (fun a b : Key => List.compareLex Weight.compare a.primary b.primary) <|
      compareLex
        (fun a b : Key => List.compareLex (List.compareLex Ord.compare) a.accents b.accents) <|
        compareLex (fun a b : Key => List.compareLex Ord.compare a.folded b.folded)
          fun a b : Key => List.compareLex Ord.compare a.text b.text

theorem Key.compare_swap {a b : Key} : a.compare b = (b.compare a).swap :=
  Std.OrientedCmp.eq_swap

/-- The last level tells all texts apart. -/
theorem eq_of_compare_key {s t : String} (h : (key s.toList).compare (key t.toList) = .eq) :
    s = t := by
  simp only [Key.compare, Ordering.then_eq_eq] at h
  exact String.toList_inj.mp (Std.LawfulEqCmp.eq_of_compare h.2.2.2)

theorem not_before_self (s : String) : ¬ before s s := by
  simp [before, Std.ReflCmp.compare_self]

theorem before_trans {s t u : String} (hst : before s t) (htu : before t u) : before s u :=
  Std.TransCmp.lt_trans hst htu

theorem before_of_not_gt {s t : String} (hne : s ≠ t)
    (h : (key s.toList).compare (key t.toList) ≠ .gt) : before s t := by
  unfold before
  cases hc : (key s.toList).compare (key t.toList) with
  | lt => rfl
  | eq => exact absurd (eq_of_compare_key hc) hne
  | gt => exact absurd hc h

/-! ## Sorted lists -/

def keyed (texts : List String) : List (Key × String) := texts.map fun t => (key t.toList, t)

theorem sort_eq (texts : List String) :
    sort texts = ((keyed texts).mergeSort fun a b => a.1.compare b.1 != .gt).map Prod.snd := rfl

theorem sort_perm (texts : List String) : (sort texts).Perm texts := by
  have hperm := (List.mergeSort_perm (keyed texts) fun a b => a.1.compare b.1 != .gt).map Prod.snd
  have hback : (keyed texts).map Prod.snd = texts := by simp [keyed, Function.comp_def]
  rwa [hback, ← sort_eq] at hperm

@[simp] theorem mem_sort {x : String} {texts : List String} : x ∈ sort texts ↔ x ∈ texts :=
  (sort_perm texts).mem_iff

theorem nodup_sort {texts : List String} (h : texts.Nodup) : (sort texts).Nodup :=
  (sort_perm texts).nodup_iff.mpr h

/-- In a sorted list, no text stands behind one that it comes before. -/
theorem sorted_sort (texts : List String) : (sort texts).Pairwise fun s t => ¬ before t s := by
  have hle : ((keyed texts).mergeSort fun a b => a.1.compare b.1 != .gt).Pairwise
      fun a b => (a.1.compare b.1 != .gt) = true := by
    refine List.pairwise_mergeSort (fun a b c hab hbc => ?_) (fun a b => ?_) _
    · have hab' : (a.1.compare b.1).isLE = true := Ordering.isLE_iff_ne_gt.mpr (by simpa using hab)
      have hbc' : (b.1.compare c.1).isLE = true := Ordering.isLE_iff_ne_gt.mpr (by simpa using hbc)
      simpa using Ordering.isLE_iff_ne_gt.mp (Std.TransCmp.isLE_trans hab' hbc')
    · have hswap : b.1.compare a.1 = (a.1.compare b.1).swap := Key.compare_swap
      rw [hswap]
      cases a.1.compare b.1 <;> rfl
  have hkeys : ∀ x ∈ (keyed texts).mergeSort fun a b => a.1.compare b.1 != .gt,
      x.1 = key x.2.toList := by
    intro x hx
    obtain ⟨t, -, rfl⟩ := List.mem_map.mp (List.mem_mergeSort.mp hx)
    rfl
  rw [sort_eq, List.pairwise_map]
  refine hle.imp_of_mem fun ha hb hab => ?_
  rw [hkeys _ ha, hkeys _ hb, bne_iff_ne] at hab
  rw [before, Key.compare_swap, Ordering.swap_eq_lt]
  exact hab

theorem lt_of_before {texts : List String} {i j : Nat} {s t : String}
    (hi : (sort texts)[i]? = some s) (hj : (sort texts)[j]? = some t) (h : before s t) : i < j := by
  obtain ⟨hil, rfl⟩ := List.getElem?_eq_some_iff.mp hi
  obtain ⟨hjl, rfl⟩ := List.getElem?_eq_some_iff.mp hj
  rcases Nat.lt_trichotomy i j with hij | rfl | hji
  · exact hij
  · exact absurd h (not_before_self _)
  · exact absurd h (List.pairwise_iff_getElem.mp (sorted_sort texts) j i hjl hil hji)

/-- Without repeats, each text of a sorted list comes before all that stand behind it. -/
theorem pairwise_sort {texts : List String} (h : texts.Nodup) : (sort texts).Pairwise before := by
  refine ((sorted_sort texts).and (nodup_sort h)).imp fun hab => ?_
  obtain ⟨hle, hne⟩ := hab
  refine before_of_not_gt hne fun hgt => hle ?_
  rw [before, Key.compare_swap, hgt]
  rfl

/-- There is one sorted list of texts without repeats. -/
theorem sort_of_pairwise {texts sorted : List String} (hperm : sorted.Perm texts)
    (h : sorted.Pairwise before) : sort texts = sorted := by
  have hne : sorted.Nodup := h.imp fun hst => by
    rintro rfl
    exact not_before_self _ hst
  have hanti : ∀ s t, s ∈ sort texts → t ∈ sorted → before s t → before t s → s = t :=
    fun s t _ _ hst hts => absurd (before_trans hst hts) (not_before_self s)
  exact List.Perm.eq_of_pairwise hanti (pairwise_sort (hperm.nodup_iff.mp hne)) h
    ((sort_perm texts).trans hperm.symm)

/-- Lists without repeats that hold the same texts are sorted alike. -/
theorem sort_congr {xs ys : List String} (hx : xs.Nodup) (hy : ys.Nodup)
    (h : ∀ t, t ∈ xs ↔ t ∈ ys) : sort xs = sort ys :=
  sort_of_pairwise ((sort_perm ys).trans ((List.perm_ext_iff_of_nodup hx hy).mpr h).symm)
    (pairwise_sort hy)

end PathGlob.Collation
