import PathGlob.Proofs.Glob.Transparency
import PathGlob.Proofs.Walk.Layout

/-!
# Caches as snapshots

A search leaves all the answers that it was given in its cache. With that cache it comes to the same
end once more, whatever the file system is then, and looks nothing up that is not stored.
-/
namespace PathGlob

namespace Cache

variable {c : Cache} {o : Oracle} {qs : List Query}

theorem get?_lookups {q : Query} {a : q.Answer} (hq : q ∈ qs) (ha : c.answers o q = .ok a) :
    (c.lookups o qs).get? q = some a := by
  induction qs generalizing c with
  | nil => cases hq
  | cons p qs ih =>
    rw [lookups_cons]
    rcases List.mem_cons.mp hq with rfl | hq
    · apply extends_lookups
      rw [get?_lookup_self, ha]
      rfl
    · apply ih hq
      rw [answers_lookup, ha]

theorem misses_lookups_of_stored (hs : ∀ q ∈ qs, ∃ a, c.get? q = some a) :
    (c.lookups o qs).misses = c.misses := by
  have hanswered : ∀ q ∈ qs, ∃ a, c.answers o q = .ok a := by
    intro q hq
    obtain ⟨a, ha⟩ := hs q hq
    exact ⟨a, answers_hit ha⟩
  have hnone : missed o qs c = [] := by
    rw [List.eq_nil_iff_forall_not_mem]
    intro q hq
    obtain ⟨hmem, hmiss⟩ := (mem_missed hanswered).mp hq
    obtain ⟨a, ha⟩ := hs q hmem
    rw [ha] at hmiss
    cases hmiss
  rw [misses_lookups, hnone]
  rfl

end Cache

namespace Script

variable {α : Type}

/-- Only the answers to its own questions matter to a script. -/
theorem runWith_congr {o o' : Oracle} {s : Script α} (h : ∀ q ∈ s.questions o, o' q = o q) :
    s.runWith o' = s.runWith o ∧ s.questions o' = s.questions o := by
  induction s with
  | done a => exact ⟨rfl, rfl⟩
  | fail e => exact ⟨rfl, rfl⟩
  | report e next ih =>
    obtain ⟨hrun, hasked⟩ := ih h
    unfold runWith at hrun ⊢
    refine ⟨?_, hasked⟩
    rw [run, run, hrun]
  | ask q next ih =>
    rw [questions_ask] at h
    have hq : o' q = o q := h q List.mem_cons_self
    rw [questions_ask, questions_ask]
    unfold runWith
    rw [run, run, hq]
    cases ho : o q with
    | error e => exact ⟨rfl, rfl⟩
    | ok a =>
      obtain ⟨hrun, hasked⟩ := ih a fun p hp => h p (by simp [ho, hp])
      exact ⟨hrun, congrArg (q :: ·) hasked⟩

end Script

namespace Walk

variable (w : Walk) (h h' : Host) {c d : Cache}

theorem extends_run (c : Cache) : c.Extends (w.run h c).state := by
  rw [w.run_of_extends (.refl c) rfl le_rfl]
  exact Cache.extends_lookups _ _ _

/-- A walk comes to the same end on any host, if all that it was answered is stored. -/
theorem run_again (hnull : (w.run h c).result ≠ .error .null)
    (hkept : (w.run h c).state.Extends d) :
    (w.run h' d).events = (w.run h c).events ∧ (w.run h' d).result = (w.run h c).result ∧
      (w.run h' d).state.misses = d.misses := by
  -- The depth that is enough for both runs.
  let depth := max (w.depthOn h c) (w.depthOn h' d)
  have hfirst := w.run_of_extends (.refl c) rfl (le_max_left _ _ : w.depthOn h c ≤ depth)
  have hagain := w.run_of_extends (.refl d) rfl (le_max_right _ _ : w.depthOn h' d ≤ depth)
  rw [hfirst] at hnull hkept
  have hstored : ∀ q ∈ (w.script depth).questions (c.answers h.answer),
      ∃ a, c.answers h.answer q = .ok a ∧ d.get? q = some a := by
    intro q hq
    obtain ⟨a, ha⟩ := Script.answered_of_questions hnull q hq
    exact ⟨a, ha, hkept q a (Cache.get?_lookups hq ha)⟩
  have hsame : ∀ q ∈ (w.script depth).questions (c.answers h.answer),
      d.answers h'.answer q = c.answers h.answer q := by
    intro q hq
    obtain ⟨a, ha, hd⟩ := hstored q hq
    rw [ha, Cache.answers_hit hd]
  obtain ⟨hrun, hasked⟩ := Script.runWith_congr hsame
  have hevents := congrArg Run.events hrun
  have hresult := congrArg Run.result hrun
  rw [hfirst, hagain]
  refine ⟨hevents, hresult, ?_⟩
  rw [hasked]
  refine Cache.misses_lookups_of_stored fun q hq => ?_
  obtain ⟨a, -, hd⟩ := hstored q hq
  exact ⟨a, hd⟩

end Walk

namespace Glob

variable {g : Glob} {h h' : Host} {c d : Cache}

theorem extends_walkAll (as : List Alternative) (c : Cache) :
    c.Extends (g.walkAll h as c).state := by
  induction as generalizing c with
  | nil => exact .refl c
  | cons a as ih =>
    have hfirst := (g.walk h a).extends_run h c
    rw [walkAll]
    cases hr : ((g.walk h a).run h c).result with
    | error e => exact hfirst
    | ok u => exact hfirst.trans (ih _)

theorem walkAll_again (hcwd : h'.cwd = h.cwd) {as : List Alternative}
    (hnull : (g.walkAll h as c).result ≠ .error .null)
    (hkept : (g.walkAll h as c).state.Extends d) :
    (g.walkAll h' as d).events = (g.walkAll h as c).events ∧
      (g.walkAll h' as d).result = (g.walkAll h as c).result ∧
      (g.walkAll h' as d).state.misses = d.misses := by
  induction as generalizing c d with
  | nil => exact ⟨rfl, rfl, rfl⟩
  | cons a as ih =>
    rw [walkAll] at hnull hkept
    rw [walkAll, walkAll, walk_of_cwd hcwd]
    cases hr : ((g.walk h a).run h c).result with
    | error e =>
      simp only [hr] at hnull hkept
      have hnull' : ((g.walk h a).run h c).result ≠ .error .null := by
        rw [hr]
        simpa using hnull
      obtain ⟨hevents, hresult, hmisses⟩ := (g.walk h a).run_again h h' hnull' hkept
      rw [hresult, hr]
      exact ⟨hevents, rfl, hmisses⟩
    | ok u =>
      simp only [hr] at hnull hkept
      have hrest : (g.walkAll h as ((g.walk h a).run h c).state).result ≠ .error .null := by
        intro he
        simp [he, Except.map] at hnull
      obtain ⟨hevents, hresult, hmisses⟩ := (g.walk h a).run_again h h' (by simp [hr])
        ((extends_walkAll as _).trans hkept)
      obtain ⟨hevents', hresult', hmisses'⟩ :=
        ih hrest (hkept.trans ((g.walk h a).extends_run h' d))
      rw [hresult, hr]
      simp only [hevents, hevents', hresult', hmisses', hmisses, and_self]

/-- A search that looks up no null character comes to the same end with the cache that it leaves
behind, be it a list or a failure, whatever the file system is then; and nothing is missing in that
cache. -/
theorem search_again (g : Glob) (h h' : Host) (hcwd : h'.cwd = h.cwd) (c : Cache)
    (hnull : (g.search h c).result ≠ .error .null) :
    (g.search h' (g.search h c).state).result = (g.search h c).result ∧
      (g.search h' (g.search h c).state).events = (g.search h c).events ∧
      (g.search h' (g.search h c).state).state.misses = (g.search h c).state.misses := by
  have hwalks : (g.walkAll h g.alternatives c).result ≠ .error .null := by
    intro he
    simp [search, he, Except.map] at hnull
  obtain ⟨hevents, hresult, hmisses⟩ := walkAll_again hcwd hwalks (.refl _)
  exact ⟨congrArg (Except.map g.merge) hresult, hevents, hmisses⟩

/-- The file and the link to its directory are still found when all is gone. -/
theorem search_again_emptied :
    let g : Glob := ⟨["**/f"], { follow := true, realpath := true },
      [Pattern.readAlternative {} false 0 0 "**/f".toList], .none⟩
    let after := (g.search Walk.linkedHost .empty).state
    (g.search Walk.linkedHost .empty).result = .ok ["/d/f"] ∧
      (g.search ⟨.empty, "/"⟩ after).result = .ok ["/d/f"] ∧
      (g.search ⟨.empty, "/"⟩ after).state.misses = after.misses := by
  intro g after
  have hfound : (g.search Walk.linkedHost .empty).result = .ok ["/d/f"] := by
    rw [search_of_agrees (Cache.agrees_empty _)]
    decide +kernel
  obtain ⟨hresult, -, hmisses⟩ :=
    search_again g Walk.linkedHost ⟨.empty, "/"⟩ rfl .empty (by simp [hfound])
  exact ⟨hfound, hresult.trans hfound, hmisses⟩

end Glob

end PathGlob
