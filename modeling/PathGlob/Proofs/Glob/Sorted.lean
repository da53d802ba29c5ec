import PathGlob.Proofs.Collation.Elements
import PathGlob.Proofs.Glob.Occurrences

/-!
# Directories and what is in them

A path comes before all paths that lead through it. So a sorted result has no path of a directory's
content in front of the directory.
-/
namespace PathGlob.Glob

variable {g : Glob} {h : Host} {c : Cache} {xs : List String}

theorem before_content (s r : String) : Collation.before s (s ++ "/" ++ r) :=
  Collation.before_append (by decide : '/'.toNat < 128) s r

/-- Results are sorted unless that is switched off. -/
theorem exists_sort_of_search (hsort : g.options.nosort = false)
    (hx : (g.search h c).result = .ok xs) : ∃ texts, xs = Collation.sort texts := by
  obtain ⟨results, -, rfl⟩ := merge_of_search hx
  exact ⟨gather g.options.nounique results (g.nulls results), by rw [merge, hsort]; rfl⟩

/-- Directories come before their contents: any text before all that go on with a slash where it
ends, and in a sorted result each path stands in front of all that begin with it and a slash. -/
theorem search_contents_behind :
    (∀ s r : String, Collation.before s (s ++ "/" ++ r)) ∧
    ∀ (g : Glob) (h : Host) (c : Cache) (xs : List String), g.options.nosort = false →
      (g.search h c).result = .ok xs → ∀ (i j : Nat) (s r : String),
        xs[i]? = some s → xs[j]? = some (s ++ "/" ++ r) → i < j := by
  refine ⟨before_content, fun g h c xs hsort hx i j s r hi hj => ?_⟩
  obtain ⟨texts, rfl⟩ := exists_sort_of_search hsort hx
  exact Collation.lt_of_before hi hj (before_content s r)

def dashHost : Host :=
  ⟨(FileSystem.empty.apply (.file (.ofText "d/f") [])).apply (.file (.ofText "d-e") []), "/"⟩

/-- The directory and its file are reported one after the other, and are sorted apart. -/
theorem search_contents_behind_dash :
    let g : Glob := ⟨["**"], {}, [Pattern.readAlternative {} false 0 0 "**".toList], .none⟩
    (g.walkAllOn dashHost g.alternatives).result = .ok [["d", "d/f", "d-e"]] ∧
      (g.search dashHost .empty).result = .ok ["d", "d-e", "d/f"] ∧
      ∀ i j : Nat, ["d", "d-e", "d/f"][i]? = some "d" →
        ["d", "d-e", "d/f"][j]? = some "d/f" → i < j := by
  intro g
  have hwalks : (g.walkAllOn dashHost g.alternatives).result = .ok [["d", "d/f", "d-e"]] := by
    decide +kernel
  have hmerge : g.merge [["d", "d/f", "d-e"]] = ["d", "d-e", "d/f"] := by cbv
  have hresult : (g.search dashHost .empty).result = .ok ["d", "d-e", "d/f"] := by
    rw [search_of_agrees (Cache.agrees_empty _), searchOn, hwalks, ← hmerge]
    rfl
  exact ⟨hwalks, hresult, fun i j hi hj =>
    search_contents_behind.2 g dashHost .empty _ rfl hresult i j "d" "f" hi hj⟩

end PathGlob.Glob
