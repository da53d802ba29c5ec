import PathGlob.Proofs.FileSystem.Reorder
import PathGlob.Proofs.Glob.Merge
import PathGlob.Proofs.Walk.Listings

/-!
# Orders that do not show

Trails do not depend on the order in which directories are listed. Sorted results without repeats
depend neither on that order nor on the order of the patterns.
-/
namespace PathGlob

namespace Oracle.Reordered

variable {o o' : Oracle}

theorem symm (hr : o.Reordered o') : o'.Reordered o where
  same q hq := (hr.same q hq).symm
  list p := by
    rcases hr.list p with ⟨es, es', hes, hes', hperm⟩ | hsame
    · exact .inl ⟨es', es, hes', hes, hperm.symm⟩
    · exact .inr hsame.symm

theorem mem_entries (hr : o.Reordered o') {path : String} {e : Entry} :
    e ∈ o'.entries path ↔ e ∈ o.entries path := by
  rcases hr.list path with ⟨es, es', hes, hes', hperm⟩ | hsame
  · simp only [Oracle.entries, hes, hes', hperm.mem_iff]
  · rw [Oracle.entries, Oracle.entries, hsame]

end Oracle.Reordered

/-! ## Trails -/

namespace Walk

variable {w : Walk} {o o' : Oracle} {segs : List Segment} {s t : Spot}

theorem lays_reordered (hr : o.Reordered o') (hlays : w.Lays o segs s t) : w.Lays o' segs s t :=
  lays_mono hr.sameStatus (fun _ _ => hr.mem_entries.mpr) hlays

theorem emits_reordered (hr : o.Reordered o') (w : Walk) (t : Spot) :
    w.emits o' t = w.emits o t :=
  emits_of_same hr.sameStatus (fun _ _ => hr.same _ (by simp)) t

/-- Two walks that end well find the same paths if only the orders of listings differ. -/
theorem finds_reordered (hr : o.Reordered o') {depth depth' : Nat}
    (h : (w.script depth).outcome o = .ok ()) (h' : (w.script depth').outcome o' = .ok ())
    (r : String) : (w.script depth').Finds o' r ↔ (w.script depth).Finds o r := by
  rw [finds_script h, finds_script h']
  refine exists_congr fun t => ?_
  rw [emits_reordered hr]
  exact and_congr_left fun _ => ⟨lays_reordered hr.symm, lays_reordered hr⟩

end Walk

/-! ## Searches -/

namespace Glob

variable {g : Glob} {h h' : Host} {a : Alternative} {as bs : List Alternative}
  {o : Options} {backslashes : Bool}

theorem mem_pathsOf_reordered (hr : h.Reordered h') (hs : g.Succeeds h a)
    (hs' : g.Succeeds h' a) (r : String) : r ∈ g.pathsOf h' a ↔ r ∈ g.pathsOf h a := by
  rw [Succeeds, walk_of_cwd hr.cwd, Walk.run_of_agrees _ _ (Cache.agrees_empty _)] at hs'
  rw [Succeeds, Walk.run_of_agrees _ _ (Cache.agrees_empty _)] at hs
  rw [pathsOf, pathsOf, walk_of_cwd hr.cwd, Event.mem_paths, Event.mem_paths,
    Walk.run_of_agrees _ _ (Cache.agrees_empty _), Walk.run_of_agrees _ _ (Cache.agrees_empty _)]
  exact Walk.finds_reordered hr.answer hs hs' r

/-- What alternatives yield does not depend on their order either. -/
theorem mem_harvest_reordered (hr : h.Reordered h') (hperm : bs.Perm as)
    (hs : ∀ a ∈ as, g.Succeeds h a) (hs' : ∀ a ∈ bs, g.Succeeds h' a) (r : String) :
    r ∈ g.harvest h' bs ↔ r ∈ g.harvest h as := by
  rw [mem_harvest, mem_harvest]
  refine exists_congr fun a => ?_
  rw [hperm.mem_iff]
  refine and_congr_right fun ha => ?_
  have hpaths := mem_pathsOf_reordered hr (hs a ha) (hs' a (hperm.mem_iff.mpr ha))
  have hnone : g.pathsOf h' a = [] ↔ g.pathsOf h a = [] := by
    simp only [List.eq_nil_iff_forall_not_mem, hpaths]
  rw [hpaths, hnone]

theorem alternativesOf_perm {ps qs : List Given} (hperm : qs.Perm ps) :
    (alternativesOf o backslashes qs).Perm (alternativesOf o backslashes ps) := by
  have hprepare : (prepare o qs).Perm (prepare o ps) := by
    unfold prepare
    split_ifs
    · exact (hperm.map _).map _
    · exact hperm.map _
    · exact hperm.map _
    · exact hperm
  exact hprepare.flatMap_right _

/-- Whatever a search for patterns returns, it is the same for the patterns in another order and for
files that are listed in another order, if results are sorted and repeats are dropped. -/
theorem find_reordered (o : Options) (hsort : o.nosort = false) (hunique : o.nounique = false)
    (backslashes : Bool) (h h' : Host) (hr : h.Reordered h') (ps qs : List String)
    (hperm : qs.Perm ps) (xs ys : List String) (hxs : find o backslashes h ps = some xs)
    (hys : find o backslashes h' qs = some ys) : ys = xs := by
  obtain ⟨f, hf, -, hall, rfl⟩ := (find_eq_some hunique).mp hxs
  obtain ⟨f', hf', -, hall', rfl⟩ := (find_eq_some hunique).mp hys
  obtain rfl := fits_unique hf hf'
  have hals : (alternativesOf o backslashes (qs.map .text)).Perm
      (alternativesOf o backslashes (ps.map .text)) := alternativesOf_perm (hperm.map _)
  exact arrange_congr hsort (mem_harvest_reordered hr hals hall hall')

def turnedHost : Host :=
  ⟨{ Walk.linkedHost.files with
      items := Walk.linkedHost.files.items.reverse
      distinct := by
        rw [List.map_reverse, List.nodup_reverse]
        exact Walk.linkedHost.files.distinct }, Walk.linkedHost.cwd⟩

/-- The walks find the link before the directory on one host and behind it on the other. -/
theorem find_reordered_turned :
    Walk.linkedHost.Reordered turnedHost ∧
      find {} false Walk.linkedHost ["*", "d/f"] = some ["d", "d/f", "l"] ∧
      find {} false turnedHost ["d/f", "*"] = some ["d", "d/f", "l"] := by
  have hr : Walk.linkedHost.Reordered turnedHost := ⟨rfl, rfl, List.reverse_perm _⟩
  have hsorted : Collation.sort [["d", "l"], ["d/f"]].flatten.eraseDups = ["d", "d/f", "l"] := by
    cbv
  have hxs : find {} false Walk.linkedHost ["*", "d/f"] = some ["d", "d/f", "l"] := by
    rw [← hsorted]
    exact find_of_walks rfl rfl rfl (by decide +kernel)
  have hys : find {} false turnedHost ["d/f", "*"] =
      some (Collation.sort [["d/f"], ["l", "d"]].flatten.eraseDups) :=
    find_of_walks rfl rfl rfl (by decide +kernel)
  have hsame := find_reordered {} rfl rfl false Walk.linkedHost turnedHost hr ["*", "d/f"]
    ["d/f", "*"] (.swap _ _ _) _ _ hxs hys
  exact ⟨hr, hxs, by rw [hys, hsame]⟩

end Glob

end PathGlob
