import PathGlob.Glob
import PathGlob.Proofs.Walk.Bound

/-!
# Caches do not show

On a host that does not change, a search with a cache is the search that looks everything up on the
host itself, provided that what is stored is what the host answers. Its lookups are the same too,
so that the counts are told from them.
-/
namespace PathGlob

namespace Glob

variable (g : Glob) (h : Host)

def walkAllOn : List Alternative → Run Unit (List (List String))
  | [] => ⟨[], .ok [], ()⟩
  | a :: rest =>
    let r := (g.walk h a).runOn h
    match r.result with
    | .error e => ⟨r.events, .error e, ()⟩
    | .ok () =>
      let more := walkAllOn rest
      ⟨r.events ++ more.events, more.result.map (Event.paths r.events :: ·), ()⟩

/-- Searches a host without a cache. -/
def searchOn : Run Unit (List String) :=
  let r := g.walkAllOn h g.alternatives
  ⟨r.events, r.result.map g.merge, ()⟩

def askedAll : List Alternative → Cache → List Query
  | [], _ => []
  | a :: rest, c =>
    let w := g.walk h a
    w.asked h c ++ match (w.run h c).result with
      | .error _ => []
      | .ok () => askedAll rest (w.run h c).state

def asked (c : Cache) : List Query := g.askedAll h g.alternatives c

def askedAllOn : List Alternative → List Query
  | [] => []
  | a :: rest =>
    let w := g.walk h a
    w.askedOn h ++ match (w.runOn h).result with
      | .error _ => []
      | .ok () => askedAllOn rest

def askedOn : List Query := g.askedAllOn h g.alternatives

variable {g h} {c : Cache}

/-- Of a host only the working directory tells how walks go. -/
theorem walk_of_cwd {h' : Host} (hcwd : h'.cwd = h.cwd) (g : Glob) (a : Alternative) :
    g.walk h' a = g.walk h a := by
  simp [walk, directory, hcwd]

theorem walkAll_of_agrees (hc : c.Agrees h.answer) (as : List Alternative) :
    g.walkAll h as c = ⟨(g.walkAllOn h as).events, (g.walkAllOn h as).result,
      c.lookups h.answer (g.askedAllOn h as)⟩ := by
  induction as generalizing c with
  | nil => rfl
  | cons a as ih =>
    have hrun := (g.walk h a).run_of_agrees h hc
    have hrest := ih (Cache.agrees_lookups hc ((g.walk h a).askedOn h))
    rw [walkAll, walkAllOn, askedAllOn, hrun]
    cases hr : ((g.walk h a).runOn h).result with
    | error e => simp
    | ok u => simp only [hrest, Cache.lookups_append]

theorem askedAll_of_agrees (hc : c.Agrees h.answer) (as : List Alternative) :
    g.askedAll h as c = g.askedAllOn h as := by
  induction as generalizing c with
  | nil => rfl
  | cons a as ih =>
    have hrun := (g.walk h a).run_of_agrees h hc
    have hrest := ih (Cache.agrees_lookups hc ((g.walk h a).askedOn h))
    rw [askedAll, askedAllOn, (g.walk h a).asked_of_agrees h hc, hrun]
    cases hr : ((g.walk h a).runOn h).result with
    | error e => rfl
    | ok u => simp only [hrest]

theorem answered_of_askedAllOn {as : List Alternative}
    (hnull : (g.walkAllOn h as).result ≠ .error .null) :
    ∀ q ∈ g.askedAllOn h as, ∃ a, h.answer q = .ok a := by
  induction as with
  | nil => simp [askedAllOn]
  | cons a as ih =>
    rw [walkAllOn] at hnull
    rw [askedAllOn]
    intro q hq
    rcases List.mem_append.mp hq with hq | hq
    · refine (g.walk h a).answered_of_askedOn h (fun hr => ?_) q hq
      simp [hr] at hnull
    · cases hr : ((g.walk h a).runOn h).result with
      | error e => simp [hr] at hq
      | ok u =>
        simp only [hr] at hnull hq
        refine ih (fun hr => ?_) q hq
        simp [hr, Except.map] at hnull

theorem search_of_agrees (hc : c.Agrees h.answer) :
    g.search h c = ⟨(g.searchOn h).events, (g.searchOn h).result,
      c.lookups h.answer (g.askedOn h)⟩ := by
  rw [search, walkAll_of_agrees hc]
  rfl

/-- On a host that does not change, a cache whose answers are those of the host changes neither the
answer of a search nor what it reports and looks up, and keeps to the host's answers. Each lookup is
counted, and no question is handed on twice or if its answer was stored before. A listing that
failed fails again in the same way, even if the host changes. -/
theorem search_transparent (g : Glob) (h : Host) (c : Cache) (hc : c.Agrees h.answer) :
    ((g.search h c).result = (g.searchOn h).result ∧
      (g.search h c).events = (g.searchOn h).events ∧
      (g.search h c).state.Agrees h.answer) ∧
    ((g.search h c).result ≠ .error .null →
      g.asked h c = g.askedOn h ∧
      (g.search h c).state = c.lookups h.answer (g.asked h c) ∧
      (g.search h c).state.hits + (g.search h c).state.misses =
        c.hits + c.misses + (g.askedOn h).length ∧
      (g.search h c).state.misses =
        c.misses + ((g.asked h c).toFinset.filter fun q => c.get? q = none).card ∧
      (Cache.missed h.answer (g.asked h c) c).Nodup) ∧
    ∀ (path : String) (f : Fault), hasNull path = false → h.list path = .error f →
      ∀ (later : List (Host × Query)) (h' : Host),
        (c.lookup h.answer (.list path)).1 = .ok (.error ⟨f, path⟩) ∧
        (((c.lookup h.answer (.list path)).2.lookupsOn later).lookup h'.answer (.list path)).1 =
          .ok (.error ⟨f, path⟩) := by
  have hsearch := search_of_agrees (g := g) hc
  have hasked : g.asked h c = g.askedOn h := askedAll_of_agrees hc g.alternatives
  have hans := Cache.answers_of_agrees hc
  refine ⟨⟨by rw [hsearch], by rw [hsearch], ?_⟩, fun hnull => ⟨hasked, ?_⟩, ?_⟩
  · rw [hsearch]
    exact Cache.agrees_lookups hc _
  · have hanswered : ∀ q ∈ g.asked h c, ∃ a, c.answers h.answer q = .ok a := by
      rw [hasked, hans]
      refine answered_of_askedAllOn fun hr => hnull ?_
      rw [hsearch, searchOn, hr]
      rfl
    have hstate : (g.search h c).state = c.lookups h.answer (g.asked h c) := by
      rw [hsearch, hasked]
    refine ⟨hstate, ?_, ?_, Cache.nodup_missed hanswered⟩
    · rw [hstate, Cache.hits_add_misses_lookups, hasked]
    · rw [hstate, Cache.misses_lookups, Cache.length_missed hanswered]
  · intro path f hpath hlist later h'
    have hfirst : (c.lookup h.answer (.list path)).1 = .ok (.error ⟨f, path⟩) := by
      rw [Cache.lookup_fst, hans, Host.answer_list hpath, hlist]
      rfl
    exact ⟨hfirst, Cache.lookup_again hfirst (Cache.extends_lookupsOn later _) h'.answer⟩

def sealedHost : Host :=
  ⟨(FileSystem.empty.apply (.directory (.ofText "d"))).apply (.forbidReading (.ofText "d")), "/"⟩

def inAnyDirectory : Glob :=
  ⟨["*/x?"], {}, [Pattern.readAlternative {} false 0 0 "*/x?".toList], .none⟩

/-- The failed listing of the directory is stored, and the search comes to it. -/
theorem search_transparent_sealed :
    let c := (Cache.empty.lookup sealedHost.answer (.list "/d")).2
    c.Agrees sealedHost.answer ∧
      (inAnyDirectory.search sealedHost c).result = .ok [] ∧
      .list "/d" ∈ inAnyDirectory.asked sealedHost c ∧
      ∀ (later : List (Host × Query)) (h' : Host),
        (((c.lookup sealedHost.answer (.list "/d")).2.lookupsOn later).lookup h'.answer
          (.list "/d")).1 = .ok (.error ⟨.denied, "/d"⟩) := by
  intro c
  have hc : c.Agrees sealedHost.answer :=
    Cache.agrees_lookups (Cache.agrees_empty _) [.list "/d"]
  obtain ⟨⟨hresult, -, -⟩, hcounts, hagain⟩ := search_transparent inAnyDirectory sealedHost c hc
  have hfound : (inAnyDirectory.searchOn sealedHost).result = .ok [] := by decide +kernel
  rw [hfound] at hresult
  refine ⟨hc, hresult, ?_, fun later h' => ?_⟩
  · rw [(hcounts (by simp [hresult])).1]
    decide +kernel
  · exact (hagain "/d" .denied (by decide) (by decide +kernel) later h').2

end Glob

end PathGlob
