import PathGlob.Ignore.Filter
import PathGlob.Proofs.FileSystem.Spelling

/-!
# Paths as the rules see them

The normal form under which a path is ignored has no slash at its end, and none at its start.
-/
namespace PathGlob

namespace Path

theorem leadingSlashes_append {cs : List Char} (h : ∃ c ∈ cs, c ≠ '/') (ds : List Char) :
    leadingSlashes (cs ++ ds) = leadingSlashes cs := by
  obtain ⟨c, hc, hne⟩ := h
  match cs with
  | [] => cases hc
  | [a] =>
    have ha : a ≠ '/' := by simp_all
    simp [leadingSlashes, ha]
  | [a, b] =>
    by_cases ha : a = '/'
    · have hb : b ≠ '/' := by simp_all
      simp [leadingSlashes, ha, hb]
    · simp [leadingSlashes, ha]
  | a :: b :: d :: more =>
    by_cases ha : a = '/'
    · by_cases hb : b = '/'
      · by_cases hd : d = '/' <;> simp [leadingSlashes, ha, hb, hd]
      · simp [leadingSlashes, ha, hb]
    · simp [leadingSlashes, ha]

theorem eq_nil_of_mem_splitOn {cs part : List Char} (h : ∀ c ∈ cs, c = '/')
    (hpart : part ∈ cs.splitOn '/') : part = [] := by
  refine List.eq_nil_iff_forall_not_mem.mpr fun c hc => slash_not_mem_of_mem_splitOn hpart ?_
  rwa [← h c (mem_of_mem_splitOn hpart hc)]

theorem components_of_slashes {p : String} (h : ∀ c ∈ p.toList, c = '/') :
    ∀ c ∈ components p, c = "" := by
  intro c hc
  obtain ⟨part, hpart, rfl⟩ := List.mem_map.mp hc
  rw [eq_nil_of_mem_splitOn h hpart]

theorem foldl_climb_of_empty {cs : List String} (h : ∀ c ∈ cs, c = "") (rooted : Bool)
    (done : List String) : cs.foldl (climb rooted) done = done := by
  induction cs with
  | nil => rfl
  | cons c cs ih =>
    have hc : c = "" := h c List.mem_cons_self
    rw [List.foldl_cons, hc]
    simpa [climb] using ih fun d hd => h d (List.mem_cons_of_mem _ hd)

end Path

namespace Ignore.Filter

theorem relative_of_slashes {p : String} (h : ∀ c ∈ p.toList, c = '/') : relative p = "" := by
  have hparts := Path.foldl_climb_of_empty (Path.components_of_slashes h)
    (Path.leadingSlashes p.toList != 0) []
  simp only [relative, Path.normalize, hparts]
  by_cases hn : Path.leadingSlashes p.toList = 0
  · simp [hn]
  · have hone : String.ofList (List.replicate (Path.leadingSlashes p.toList) '/') ≠ "." := by
      intro heq
      have hchars := congrArg String.toList heq
      rw [String.toList_ofList] at hchars
      have hmem : '.' ∈ List.replicate (Path.leadingSlashes p.toList) '/' := by
        rw [hchars]
        decide
      simp at hmem
    simp [hn, hone, Path.dropLeadingSlashes]

/-- A slash at the end does not change the normal form. -/
theorem relative_slash (p : String) : relative (p ++ "/") = relative p := by
  by_cases h : ∃ c ∈ p.toList, c ≠ '/'
  · have hlead : Path.leadingSlashes (p ++ "/").toList = Path.leadingSlashes p.toList := by
      rw [String.toList_append]
      exact Path.leadingSlashes_append h _
    have hnormal : Path.normalize (p ++ "/") = Path.normalize p := by
      simp only [Path.normalize, hlead, Path.components_slash, List.foldl_append, List.foldl_cons,
        List.foldl_nil]
      simp [Path.climb]
    rw [relative, relative, hnormal]
  · push Not at h
    rw [relative_of_slashes h, relative_of_slashes]
    intro c hc
    rcases List.mem_append.mp (String.toList_append ▸ hc) with hc | hc
    · exact h c hc
    · simpa using hc

end Ignore.Filter

end PathGlob
