import PathGlob.Proofs.Glob.Merge

/-!
# How often results occur

What a search reports, counted from the lists that its walks return: nothing is lost or added, each
text occurs as often as it should, and in its place.
-/
namespace PathGlob

/-! ## First occurrences -/

/-- The texts of a source, each once, in the order in which they first occur there. -/
structure FirstOccurrences (source xs : List String) : Prop where
  mem_iff (x : String) : x ∈ xs ↔ x ∈ source
  ordered : xs.Pairwise fun x y => source.idxOf x < source.idxOf y

theorem FirstOccurrences.nodup {source xs : List String} (h : FirstOccurrences source xs) :
    xs.Nodup := by
  refine h.ordered.imp fun hlt => ?_
  rintro rfl
  exact lt_irrefl _ hlt

theorem firstOccurrences_eraseDups (xs : List String) : FirstOccurrences xs xs.eraseDups where
  mem_iff x := List.mem_eraseDups
  ordered := by
    -- The text that is added last is dropped, or it is new and stands behind all others.
    induction xs using List.reverseRecOn with
    | nil => exact List.Pairwise.nil
    | append_singleton xs x ih =>
      have hkept : ∀ y ∈ xs.eraseDups, (xs ++ [x]).idxOf y = xs.idxOf y := fun y hy =>
        List.idxOf_append_of_mem (List.mem_eraseDups.mp hy)
      have hbefore : xs.eraseDups.Pairwise fun y z => (xs ++ [x]).idxOf y < (xs ++ [x]).idxOf z :=
        ih.imp_of_mem fun hy hz hlt => by rwa [hkept _ hy, hkept _ hz]
      rw [List.eraseDups_append]
      by_cases hx : x ∈ xs
      · simpa [List.removeAll, hx] using hbefore
      · have hlast : ([x].removeAll xs).eraseDups = [x] := by
          simp [List.removeAll, hx, List.eraseDups_cons]
        rw [hlast, List.pairwise_append]
        refine ⟨hbefore, List.pairwise_singleton _ _, fun y hy z hz => ?_⟩
        obtain rfl := List.mem_singleton.mp hz
        rw [hkept y hy, List.idxOf_append_of_notMem hx]
        exact Nat.lt_add_right _ (List.idxOf_lt_length_iff.mpr (List.mem_eraseDups.mp hy))

/-- In lists without repeats, a text occurs as often as there are lists that hold it. -/
theorem count_flatten_of_nodup {lists : List (List String)} (h : ∀ xs ∈ lists, xs.Nodup)
    (x : String) : lists.flatten.count x = lists.countP (x ∈ ·) := by
  induction lists with
  | nil => rfl
  | cons xs lists ih =>
    obtain ⟨hxs, hlists⟩ := List.forall_mem_cons.mp h
    rw [List.flatten_cons, List.count_append, ih hlists, hxs.count, List.countP_cons]
    simp only [decide_eq_true_eq]
    exact Nat.add_comm _ _

namespace Glob

/-! ## The lists that walks return -/

/-- Walks of alternatives, one after another and with one cache, return lists of paths. -/
inductive Yields (g : Glob) (h : Host) : List Alternative → Cache → List (List String) → Prop
  | nil (c : Cache) : Yields g h [] c []
  | cons {a : Alternative} {as : List Alternative} {c : Cache} {results : List (List String)}
      (hok : ((g.walk h a).run h c).result = .ok ())
      (hrest : Yields g h as ((g.walk h a).run h c).state results) :
      Yields g h (a :: as) c (Event.paths ((g.walk h a).run h c).events :: results)

variable {g : Glob} {h : Host} {as : List Alternative} {c : Cache} {results : List (List String)}

theorem yields_of_walkAll (hr : (g.walkAll h as c).result = .ok results) :
    g.Yields h as c results := by
  induction as generalizing c results with
  | nil =>
    obtain rfl : [] = results := by simpa [walkAll] using hr
    exact .nil c
  | cons a as ih =>
    rw [walkAll] at hr
    cases hwalk : ((g.walk h a).run h c).result with
    | error e => simp [hwalk] at hr
    | ok u =>
      simp only [hwalk] at hr
      cases hmore : (g.walkAll h as ((g.walk h a).run h c).state).result with
      | error e => simp [hmore, Except.map] at hr
      | ok more =>
        simp only [hmore, Except.map, Except.ok.injEq] at hr
        subst hr
        exact .cons hwalk (ih hmore)

theorem Yields.length_eq (hy : g.Yields h as c results) : results.length = as.length := by
  induction hy with
  | nil c => rfl
  | cons hok hrest ih => simp [ih]

/-- No walk returns a path twice. -/
theorem Yields.nodup (hy : g.Yields h as c results) : ∀ found ∈ results, found.Nodup := by
  induction hy with
  | nil c => simp
  | cons hok hrest ih => exact List.forall_mem_cons.mpr ⟨Event.nodup_paths _, ih⟩

/-! ## Merged lists -/

theorem mem_nulls {x : String} : x ∈ g.nulls results ↔
    g.options.nonull = true ∧ ∃ a, (a, []) ∈ g.alternatives.zip results ∧ a.glob = x := by
  unfold nulls
  cases g.options.nonull <;> simp

/-- The order in which texts stand that are not sorted. Without repeats it is that of their first
occurrences; with repeats, the first list and the nulls come twice before the other lists. -/
def Queued (nounique : Bool) (results : List (List String)) (nulls queue : List String) : Prop :=
  if nounique then
    ∃ head, FirstOccurrences (results.headD [] ++ nulls) head ∧
      queue = head ++ head ++ results.tail.flatten
  else FirstOccurrences (results.flatten ++ nulls) queue

section Queued

variable {nulls queue : List String}

/-- All texts of the lists and of the nulls are in the queue, and no others. -/
theorem Queued.mem_iff {nounique : Bool} (hq : Queued nounique results nulls queue) (x : String) :
    x ∈ queue ↔ (∃ found ∈ results, x ∈ found) ∨ x ∈ nulls := by
  cases nounique with
  | false =>
    have hfirst : FirstOccurrences (results.flatten ++ nulls) queue := hq
    rw [hfirst.mem_iff, List.mem_append, List.mem_flatten]
  | true =>
    obtain ⟨head, hhead, rfl⟩ := hq
    simp only [List.mem_append, List.mem_flatten, hhead.mem_iff, or_self]
    cases results with
    | nil => simp
    | cons first rest =>
      simp only [List.headD_cons, List.tail_cons, List.exists_mem_cons_iff]
      exact or_right_comm

theorem Queued.count_eq (hq : Queued true results nulls queue)
    (hnodup : ∀ found ∈ results, found.Nodup) (x : String) : queue.count x =
      2 * (if x ∈ results.headD [] ∨ x ∈ nulls then 1 else 0) + results.tail.countP (x ∈ ·) := by
  obtain ⟨head, hhead, rfl⟩ := hq
  have htail : results.tail.flatten.count x = results.tail.countP (x ∈ ·) :=
    count_flatten_of_nodup (fun found hfound => hnodup found (List.mem_of_mem_tail hfound)) x
  rw [List.count_append, List.count_append, htail, hhead.nodup.count]
  simp only [hhead.mem_iff, List.mem_append]
  omega

end Queued

structure Merged (g : Glob) (results : List (List String)) (xs : List String) : Prop where
  /-- Only an alternative that matched nothing stands for itself, and only with `nonull`. -/
  nulls (x : String) : x ∈ g.nulls results ↔
    g.options.nonull = true ∧ ∃ a, (a, []) ∈ g.alternatives.zip results ∧ a.glob = x
  nodup_results : ∀ found ∈ results, found.Nodup
  unique : g.options.nounique = false → xs.Nodup ∧
    ∀ x, x ∈ xs ↔ (∃ found ∈ results, x ∈ found) ∨ x ∈ g.nulls results
  repeated : g.options.nounique = true → ∀ x, xs.count x =
    2 * (if x ∈ results.headD [] ∨ x ∈ g.nulls results then 1 else 0) +
      results.tail.countP (x ∈ ·)
  ordered : ∃ queue, Queued g.options.nounique results (g.nulls results) queue ∧
    if g.options.nosort then xs = queue
    else xs.Perm queue ∧ xs.Pairwise fun s t => ¬ Collation.before t s
  covered : g.options.nonull = true → List.Forall₂
    (fun a found => (∃ x ∈ found, x ∈ xs) ∨ a.glob ∈ xs) g.alternatives results

theorem queued_gather (hlen : results.length = g.alternatives.length) (nounique : Bool) :
    Queued nounique results (g.nulls results) (gather nounique results (g.nulls results)) := by
  cases results with
  | nil =>
    have hnone : g.nulls [] = [] := by simp [Glob.nulls]
    rw [hnone]
    cases nounique
    · exact firstOccurrences_eraseDups []
    · exact ⟨[], firstOccurrences_eraseDups [], rfl⟩
  | cons first rest =>
    cases nounique
    · exact firstOccurrences_eraseDups _
    · exact ⟨_, firstOccurrences_eraseDups _, rfl⟩

/-- An alternative that matched nothing is among the nulls. -/
theorem forall₂_nulls (hlen : results.length = g.alternatives.length)
    (hnull : g.options.nonull = true) :
    List.Forall₂ (fun a found => found ≠ [] ∨ a.glob ∈ g.nulls results) g.alternatives results := by
  refine List.forall₂_iff_zip.mpr ⟨hlen.symm, fun {a found} hmem => ?_⟩
  by_cases hfound : found = []
  · subst hfound
    exact .inr (mem_nulls.mpr ⟨hnull, a, hmem, rfl⟩)
  · exact .inl hfound

theorem merge_perm : (g.merge results).Perm
    (gather g.options.nounique results (g.nulls results)) := by
  unfold merge
  split
  · exact .refl _
  · exact Collation.sort_perm _

theorem mem_merge (hlen : results.length = g.alternatives.length) {x : String} :
    x ∈ g.merge results ↔ (∃ found ∈ results, x ∈ found) ∨ x ∈ g.nulls results := by
  rw [merge_perm.mem_iff, (queued_gather hlen _).mem_iff]

theorem merged_merge (hlen : results.length = g.alternatives.length)
    (hnodup : ∀ found ∈ results, found.Nodup) : g.Merged results (g.merge results) where
  nulls _ := mem_nulls
  nodup_results := hnodup
  unique hunique := by
    have hq := queued_gather hlen g.options.nounique
    have hperm : (g.merge results).Perm (gather g.options.nounique results (g.nulls results)) :=
      merge_perm
    rw [hunique] at hq hperm
    exact ⟨hperm.nodup_iff.mpr (FirstOccurrences.nodup hq), fun x => mem_merge hlen⟩
  repeated hrepeat x := by
    have hq := queued_gather hlen g.options.nounique
    have hperm : (g.merge results).Perm (gather g.options.nounique results (g.nulls results)) :=
      merge_perm
    rw [hrepeat] at hq hperm
    rw [hperm.count_eq, hq.count_eq hnodup]
  ordered := by
    refine ⟨_, queued_gather hlen _, ?_⟩
    unfold merge
    split
    · rfl
    · exact ⟨Collation.sort_perm _, Collation.sorted_sort _⟩
  covered hnull := by
    refine List.forall₂_iff_zip.mpr ⟨hlen.symm, fun {a found} hmem => ?_⟩
    rcases (List.forall₂_iff_zip.mp (forall₂_nulls hlen hnull)).2 hmem with hfound | hglob
    · obtain ⟨x, hx⟩ := List.exists_mem_of_ne_nil found hfound
      exact .inl ⟨x, hx, (mem_merge hlen).mpr (.inl ⟨found, (List.of_mem_zip hmem).2, hx⟩)⟩
    · exact .inr ((mem_merge hlen).mpr (.inr hglob))

theorem merge_of_search {xs : List String} (hx : (g.search h c).result = .ok xs) :
    ∃ results, g.Yields h g.alternatives c results ∧ g.merge results = xs := by
  cases hr : (g.walkAll h g.alternatives c).result with
  | error e => simp [search, hr, Except.map] at hx
  | ok results => exact ⟨results, yields_of_walkAll hr, by simpa [search, hr, Except.map] using hx⟩

/-- A search that returns has lists from the walks of all alternatives, and merges them: each text
of theirs and each null is in the result, as often and at such a place as the options say. -/
theorem search_merged (g : Glob) (h : Host) (c : Cache) (xs : List String)
    (hx : (g.search h c).result = .ok xs) :
    ∃ results, g.Yields h g.alternatives c results ∧ g.Merged results xs := by
  obtain ⟨results, hy, rfl⟩ := merge_of_search hx
  exact ⟨results, hy, merged_merge hy.length_eq hy.nodup⟩

def repeating : Glob where
  patterns := ["d/f", "d/*", "gone"]
  options := { nounique := true, nonull := true, nosort := true }
  alternatives := ["d/f", "d/*", "gone"].mapIdx fun i p =>
    Pattern.readAlternative {} false i i p.toList
  ignore := .none

/-- The first list stands twice together with the null, and the second list once. -/
theorem search_merged_repeating :
    (repeating.search Walk.linkedHost .empty).result =
        .ok ["d/f", "gone", "d/f", "gone", "d/f"] ∧
      ∃ results, repeating.Yields Walk.linkedHost repeating.alternatives .empty results ∧
        repeating.Merged results ["d/f", "gone", "d/f", "gone", "d/f"] := by
  have hresult : (repeating.search Walk.linkedHost .empty).result =
      .ok ["d/f", "gone", "d/f", "gone", "d/f"] := by
    rw [search_of_agrees (Cache.agrees_empty _)]
    decide +kernel
  exact ⟨hresult, search_merged repeating Walk.linkedHost .empty _ hresult⟩

end Glob

end PathGlob
