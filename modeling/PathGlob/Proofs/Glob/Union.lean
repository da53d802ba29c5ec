import PathGlob.Proofs.Glob.Interleaving
import PathGlob.Proofs.Glob.Occurrences
import PathGlob.Proofs.Lookup.Matched

/-!
# The set that walks fill

The walks of a search fill one set while they run, and what they return is merged afterwards. Both
come to the same texts, and to the same order if the walks run one after another.
-/
namespace PathGlob

namespace Pool

variable {α : Type} {p : Pool α} {results : List (List String)}

structure Unites (p : Pool α) (results : List (List String)) : Prop where
  found : (p.tasks.map fun t => t.found.toList) = results
  /-- Each task has added what it has found, in the same order. -/
  addedBy : (List.range p.tasks.length).map p.addedBy = results
  nodup : p.matched.toList.Nodup
  mem_iff : ∀ x, x ∈ p.matched.toList ↔ ∃ found ∈ results, x ∈ found
  /-- The texts stand in the order in which they were added first. -/
  first : FirstOccurrences p.added p.matched.toList
  /-- Of the additions of a text, one was told that the text is new. -/
  once : ∀ x ∈ p.added, p.additions.countP (fun a => a.path = x ∧ a.new) = 1

theorem Filled.toList_matched (hp : p.Filled) : p.matched.toList = p.added.eraseDups := by
  rw [hp.matched, OrderedSet.toList_ofList]

theorem Filled.mem_added (hp : p.Filled) {x : String} :
    x ∈ p.added ↔ ∃ found ∈ p.tasks.map fun t => t.found.toList, x ∈ found := by
  simp only [hp.map_found, List.mem_map, List.mem_range, exists_exists_and_eq_and, addedBy, added,
    List.mem_filter, decide_eq_true_eq]
  constructor
  · rintro ⟨a, ha, rfl⟩
    exact ⟨a.task, hp.tasks a ha, a, ⟨ha, rfl⟩, rfl⟩
  · rintro ⟨i, -, a, ⟨ha, -⟩, rfl⟩
    exact ⟨a, ha, rfl⟩

theorem Filled.unites (hp : p.Filled) (hfound : (p.tasks.map fun t => t.found.toList) = results) :
    p.Unites results where
  found := hfound
  addedBy := hp.map_found.symm.trans hfound
  nodup := p.matched.distinct
  mem_iff x := by rw [hp.toList_matched, List.mem_eraseDups, hp.mem_added, hfound]
  first := by
    rw [hp.toList_matched]
    exact firstOccurrences_eraseDups p.added
  once x hx := by
    rw [hp.once, hp.toList_matched, if_pos (List.mem_eraseDups.mpr hx)]

end Pool

namespace Glob

variable {g : Glob} {h : Host} {c : Cache}

/-- What the tasks have found when all have ended. -/
theorem map_found_pool {schedule : List Nat}
    (hended : ((g.pool h c).run (schedule.map .step)).Ended) :
    (((g.pool h c).run (schedule.map .step)).tasks.map fun t => t.found.toList) =
      g.alternatives.map fun a => Event.paths ((g.walk h a).run h c).events := by
  rw [(sound_pool schedule g h c).map_found hended, paths_scripts]

theorem filled_pool (schedule : List Nat) (g : Glob) (h : Host) (c : Cache) :
    ((g.pool h c).run (schedule.map .step)).Filled :=
  (Pool.filled_start h c _).run _

/-- The walks can run one after another, up to the last. -/
theorem exists_ended_in_turn (g : Glob) (h : Host) (c : Cache) : ∃ schedule : List Nat,
    ((g.pool h c).run (schedule.map .step)).Ended ∧
      ((g.pool h c).run (schedule.map .step)).InTurn := by
  obtain ⟨schedule, hp⟩ :=
    Pool.exists_schedule_in_turn (p := g.pool h c) rfl (g.scripts h c).length
  refine ⟨schedule, fun i t ht => hp.ended i t ?_ ht, hp.turn⟩
  obtain ⟨hi, -⟩ := List.getElem?_eq_some_iff.mp ht
  rwa [(sound_pool schedule g h c).length] at hi

/-- While the walks of a search run, none of which fails, they fill one set, and what they return
makes up the same: at the end the set holds the texts that some walk returns, each once, in the
order in which they were added first, and of the additions of a text one was told that it is new,
whichever walk took the next step at each time. If the walks ran one after another, as they can, the
set is in the order of the merged results without nulls that are not sorted. -/
theorem matched_unites (g : Glob) (h : Host) (c : Cache) (hunique : g.options.nounique = false)
    (hok : ∀ a ∈ g.alternatives, ((g.walk h a).run h c).result = .ok ()) :
    ∃ results, (g.walkAll h g.alternatives c).result = .ok results ∧
      (∀ schedule : List Nat,
        let p := (g.pool h c).run (schedule.map .step)
        p.Ended → p.Unites results ∧
          (p.InTurn → p.matched.toList = gather g.options.nounique results [])) ∧
      ∃ schedule : List Nat,
        let p := (g.pool h c).run (schedule.map .step)
        p.Ended ∧ p.InTurn := by
  refine ⟨_, walkAll_of_grows (.refl h c) hok, ?_, exists_ended_in_turn g h c⟩
  intro schedule p hended
  have hfilled : p.Filled := filled_pool schedule g h c
  have hfound := map_found_pool hended
  refine ⟨hfilled.unites hfound, fun hturn => ?_⟩
  rw [hfilled.toList_matched, hfilled.added_of_inTurn hturn, hfound, hunique,
    gather_false fun _ => rfl, List.append_nil]

def overlapping : Glob where
  patterns := ["*", "d"]
  options := {}
  alternatives := ["*", "d"].mapIdx fun i p => Pattern.readAlternative {} false i i p.toList
  ignore := .none

/-- Both walks find the directory, and one is told that it is new. -/
theorem matched_unites_overlapping :
    (overlapping.walkAll Walk.linkedHost overlapping.alternatives .empty).result =
        .ok [["d", "l"], ["d"]] ∧
      ∃ schedule : List Nat,
        let p := (overlapping.pool Walk.linkedHost .empty).run (schedule.map .step)
        p.Ended ∧ p.Unites [["d", "l"], ["d"]] ∧ p.matched.toList = ["d", "l"] ∧
          p.additions.countP (fun a => a.path = "d" ∧ a.new) = 1 := by
  have hok : ∀ a ∈ overlapping.alternatives,
      ((overlapping.walk Walk.linkedHost a).run Walk.linkedHost .empty).result = .ok () := by
    intro a ha
    rw [Walk.run_of_agrees _ _ (Cache.agrees_empty _)]
    revert a
    decide +kernel
  obtain ⟨results, hresults, hunites, schedule, hended, hturn⟩ :=
    matched_unites overlapping Walk.linkedHost .empty rfl hok
  have hwalks : (overlapping.walkAll Walk.linkedHost overlapping.alternatives .empty).result =
      .ok [["d", "l"], ["d"]] := by
    rw [walkAll_of_agrees (Cache.agrees_empty _)]
    decide +kernel
  obtain rfl : results = [["d", "l"], ["d"]] := by
    rw [hwalks, Except.ok.injEq] at hresults
    exact hresults.symm
  obtain ⟨hp, hmatched⟩ := hunites schedule hended
  have horder := hmatched hturn
  refine ⟨hwalks, schedule, hended, hp, horder, hp.once "d" ?_⟩
  rw [← hp.first.mem_iff, horder]
  decide +kernel

end Glob

end PathGlob
