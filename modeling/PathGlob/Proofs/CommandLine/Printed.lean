import PathGlob.Proofs.CommandLine.Status

/-!
# Reading what is printed

Where a null character is printed behind each path, the output can be taken apart again: no path
that a search reports has one, whatever the patterns and the file system.
-/
namespace PathGlob.CommandLine

variable {h : Host} {q : Request} {paths : List String}

/-- The pieces of an output in front of its null characters; what is behind the last one is no
piece. -/
def piecesOf (output : String) : List String :=
  (output.toList.splitOn '\x00').dropLast.map String.ofList

theorem toList_printed (terminator : String) (paths : List String) :
    (printed terminator paths).toList = paths.flatMap fun p => p.toList ++ terminator.toList := by
  rw [printed, String.toList_join, List.flatMap_map]
  simp

/-- Each path stands in front of its own end, and nothing is behind the last end. -/
theorem splitOn_printed (hfree : ∀ p ∈ paths, hasNull p = false) :
    (printed "\x00" paths).toList.splitOn '\x00' = paths.map String.toList ++ [[]] := by
  induction paths with
  | nil => rfl
  | cons p paths ih =>
    obtain ⟨hp, hpaths⟩ := List.forall_mem_cons.mp hfree
    have hlacks : '\x00' ∉ p.toList := by simpa [hasNull] using hp
    have hfirst : (printed "\x00" (p :: paths)).toList =
        p.toList ++ '\x00' :: (printed "\x00" paths).toList := by
      simp [toList_printed]
    rw [hfirst, List.splitOn_append_cons_self, List.splitOn_eq_singleton hlacks, ih hpaths]
    rfl

theorem piecesOf_printed (hfree : ∀ p ∈ paths, hasNull p = false) :
    piecesOf (printed "\x00" paths) = paths := by
  rw [piecesOf, splitOn_printed hfree, List.dropLast_concat, List.map_map]
  simp [Function.comp_def]

theorem printed_eq_empty_or_ends (paths : List String) :
    printed "\x00" paths = "" ∨ (printed "\x00" paths).toList.getLast? = some '\x00' := by
  rcases List.eq_nil_or_concat paths with rfl | ⟨before, p, rfl⟩
  · exact .inl rfl
  · right
    rw [toList_printed, List.concat_eq_append, List.flatMap_append]
    simp

/-- What a request prints that ends with status zero or one is what its search returns. -/
theorem exists_search_of_fulfil (schedule : List Nat) {messages messages' : List String}
    {status : Nat} {output : String}
    (hrun : fulfil schedule h q messages = .ok (.finished status output messages'))
    (hstatus : status ≤ 1) :
    ∃ g paths, Makes h q (.ok g) ∧ (g.search h .empty).result = .ok paths ∧
      status = (if paths.isEmpty then 1 else 0) ∧
      output = printed (if q.print0 then "\x00" else "\n") paths := by
  have hfailed : ∀ (messages : List String) (m : String),
      failed messages m ≠ .finished status output messages' := by
    rintro messages m ⟨⟩
    exact absurd hstatus (by decide)
  have hcourse := course_fulfil schedule h q messages
  generalize fulfil schedule h q messages = ended at hcourse hrun
  cases hcourse with
  | null hlines => cases hrun
  | ignoreFile hlines => exact absurd (Except.ok.inj hrun) (hfailed _ _)
  | options hmakes => exact absurd (Except.ok.inj hrun) (hfailed _ _)
  | pattern hmakes => exact absurd (Except.ok.inj hrun) (hfailed _ _)
  | ignore hmakes => cases hrun
  | @search g hmakes =>
    dsimp only [searchWith] at hrun
    cases hsearch : (searchFor schedule h q g).result with
    | error e =>
      rw [hsearch] at hrun
      cases e with
      | null => cases hrun
      | walk e => exact absurd (Except.ok.inj hrun) (hfailed _ _)
    | ok paths =>
      rw [hsearch] at hrun
      cases hrun
      exact ⟨g, paths, hmakes, (searchFor_eq_ok_iff schedule).mp hsearch, rfl, rfl⟩

/-- Without a settings file and whatever the schedule, a run that prints null characters behind paths
and ends with status zero or one has searched, and the list that is read back from its output is the
one that the search returns with walks one after another, and by every other schedule. The status is
zero just if something is in it. -/
theorem pieces_of_run (schedule : List Nat) (h : Host) (args : List String) (a : Arguments)
    (hargs : ∀ w ∈ args, hasNull w = false) (hparse : Arguments.parse args = .ok a)
    (hconfig : a.useConfig = false) (hversion : a.version = false) (hprint : a.print0 = true)
    (hpatterns : a.patterns ≠ []) (hcwd : hasNull h.cwd = false)
    (status : Nat) (output : String) (messages : List String)
    (hrun : runBy schedule h args = .ok (.finished status output messages)) (hstatus : status ≤ 1) :
    ∃ g paths, Makes h a.request (.ok g) ∧ (g.search h .empty).result = .ok paths ∧
      (∀ other, (g.searchBy other h .empty).1 = .ok paths) ∧
      (output = "" ∨ output.toList.getLast? = some '\x00') ∧
      piecesOf output = paths ∧ (status = 0 ↔ paths ≠ []) := by
  rw [runBy_eq_fulfil schedule hparse hconfig hversion hpatterns] at hrun
  obtain ⟨g, paths, hmakes, hsearch, rfl, rfl⟩ := exists_search_of_fulfil schedule hrun hstatus
  have hterminator : (if a.request.print0 then "\x00" else "\n") = "\x00" := if_pos hprint
  rw [hterminator]
  have hfree : ∀ p ∈ paths, hasNull p = false := by
    obtain ⟨lines, -, hmake⟩ := hmakes
    exact Glob.hasNull_of_mem_search hmake (nullFree_of_parse hargs hparse).patterns hcwd
      (Cache.agrees_empty _) hsearch
  refine ⟨g, paths, hmakes, hsearch, fun other => Glob.searchBy_of_search other hsearch,
    printed_eq_empty_or_ends paths, piecesOf_printed hfree, ?_⟩
  cases paths <;> simp

/-- A file behind a link is shown by its absolute path, and a pattern with a line end in it, which
matches nothing, stands for itself. Both are read back from the output. -/
theorem pieces_of_run_nonull :
    runBy [1, 0, 1, 0, 0] Walk.linkedHost
          ["--no-config", "-0", "--nosort", "--nonull", "--absolute", "l/*", "a\nb"] =
        .ok (.finished 0 "/l/f\x00a\nb\x00" []) ∧
      ∃ g : Glob, g.patterns = ["l/*", "a\nb"] ∧
        ∀ schedule, (g.searchBy schedule Walk.linkedHost .empty).1 = .ok ["/l/f", "a\nb"] := by
  let args := ["--no-config", "-0", "--nosort", "--nonull", "--absolute", "l/*", "a\nb"]
  obtain ⟨a, hparse, ha⟩ := Except.exists_of_any (x := Arguments.parse args)
    (q := fun a => !a.useConfig && !a.version && a.print0 && !a.verbose && a.ignoreFiles = [] &&
      a.patterns = ["l/*", "a\nb"] &&
      (Glob.make (a.request.options []) false (a.patterns.map .text)).toOption.any fun g =>
        g.patterns = ["l/*", "a\nb"] &&
          (g.searchOn Walk.linkedHost).result = .ok ["/l/f", "a\nb"]) (by decide +kernel)
  simp only [Bool.and_eq_true, Bool.not_eq_true', decide_eq_true_eq] at ha
  obtain ⟨⟨⟨⟨⟨⟨hconfig, hversion⟩, hprint⟩, hverbose⟩, hfiles⟩, hpatterns⟩, hmade⟩ := ha
  obtain ⟨g, hmake, hg⟩ := Except.exists_of_any hmade
  simp only [Bool.and_eq_true, decide_eq_true_eq] at hg
  have hlines : ignoreLines Walk.linkedHost a.ignoreFiles = .ok [] := by
    rw [hfiles]
    rfl
  have hsearch : (g.search Walk.linkedHost .empty).result = .ok ["/l/f", "a\nb"] := by
    rw [Glob.search_of_agrees (Cache.agrees_empty _)]
    exact hg.2
  have hrun : runBy [1, 0, 1, 0, 0] Walk.linkedHost args =
      .ok (.finished 0 "/l/f\x00a\nb\x00" []) := by
    have hfulfil : fulfil [1, 0, 1, 0, 0] Walk.linkedHost a.request [] =
        searchWith [1, 0, 1, 0, 0] Walk.linkedHost a.request [] g := by
      rw [fulfil, show a.request.ignoreFiles = a.ignoreFiles from rfl, hlines]
      dsimp only
      rw [show a.request.patterns = a.patterns from rfl, hmake]
    have hprinted : printed "\x00" ["/l/f", "a\nb"] = "/l/f\x00a\nb\x00" := by decide +kernel
    have hchoices : a.request.print0 = true ∧ a.request.verbose = false := ⟨hprint, hverbose⟩
    have hfound := (searchFor_eq_ok_iff (q := a.request) [1, 0, 1, 0, 0]).mpr hsearch
    rw [runBy_eq_fulfil _ hparse hconfig hversion (by simp [hpatterns]), hfulfil]
    simp [searchWith, hfound, hchoices, hprinted]
  have hpieces : piecesOf "/l/f\x00a\nb\x00" = ["/l/f", "a\nb"] := by decide +kernel
  obtain ⟨g', paths, ⟨lines, hlines', hmake'⟩, -, hschedules, -, hpaths, -⟩ :=
    pieces_of_run [1, 0, 1, 0, 0] Walk.linkedHost args a (by decide) hparse hconfig hversion hprint
      (by simp [hpatterns]) (by decide) 0 _ [] hrun (by decide)
  obtain rfl : lines = [] := Except.ok.inj (hlines'.symm.trans hlines)
  obtain rfl : g' = g := Except.ok.inj (hmake'.symm.trans hmake)
  rw [hpieces] at hpaths
  rw [← hpaths] at hschedules
  exact ⟨hrun, g', hg.1, hschedules⟩

end PathGlob.CommandLine
