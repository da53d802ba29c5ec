import PathGlob.Proofs.Glob.Expanded
import PathGlob.Proofs.Glob.Fatal
import PathGlob.Proofs.Glob.Occurrences
import PathGlob.Proofs.Walk.NullFree

/-!
# Searches without null characters

Where neither the patterns nor the directories have null characters, no lookup of a search has one:
a search that fails does so for one of its walks. No result has one either.
-/
namespace PathGlob.Glob

variable {g : Glob} {h : Host} {o : Options} {backslashes : Bool} {ps : List String}
  {c : Cache}

theorem hasNull_toSlashes {p : String} (hp : hasNull p = false) :
    hasNull (toSlashes p) = false := by
  have hlacks : '\x00' ∉ p.toList := by simpa [hasNull] using hp
  rw [← Bool.not_eq_true, hasNull, toSlashes, String.toList_ofList, List.contains_iff_mem]
  intro hmem
  obtain ⟨d, hd, heq⟩ := List.mem_map.mp hmem
  split_ifs at heq
  · cases heq
  · exact hlacks (heq ▸ hd)

theorem hasNull_atAnyDepth {p : String} (hp : hasNull p = false) :
    hasNull (atAnyDepth p) = false := by
  unfold atAnyDepth
  split_ifs
  · exact hp
  · rw [hasNull_append, hp]
    rfl

theorem hasNull_of_mem_map {f : String → String} {given : List Given}
    (hf : ∀ p, hasNull p = false → hasNull (f p) = false)
    (hgiven : ∀ p, .text p ∈ given → hasNull p = false) :
    ∀ p, .text p ∈ given.map (Given.map f) → hasNull p = false := by
  intro q hq
  obtain ⟨first, hmem, heq⟩ := List.mem_map.mp hq
  cases first with
  | other kind => cases heq
  | text p =>
    cases heq
    exact hf p (hgiven p hmem)

theorem hasNull_of_mem_prepare (hps : ∀ p ∈ ps, hasNull p = false) :
    ∀ p, .text p ∈ prepare o (ps.map .text) → hasNull p = false := by
  have htexts : ∀ p, Given.text p ∈ ps.map .text → hasNull p = false := by
    intro p hp
    obtain ⟨p', hp', heq⟩ := List.mem_map.mp hp
    cases heq
    exact hps p hp'
  unfold prepare
  dsimp only
  split_ifs
  · exact hasNull_of_mem_map (fun _ => hasNull_atAnyDepth)
      (hasNull_of_mem_map (fun _ => hasNull_toSlashes) htexts)
  · exact hasNull_of_mem_map (fun _ => hasNull_atAnyDepth) htexts
  · exact hasNull_of_mem_map (fun _ => hasNull_toSlashes) htexts
  · exact htexts

/-- Alternatives of patterns without null characters are read from texts that have none. -/
theorem exists_read_of_nullFree (hmake : make o backslashes (ps.map .text) = .ok g)
    (hps : ∀ p ∈ ps, hasNull p = false) : ∀ a ∈ g.alternatives, ∃ o' drives i n cs,
      '\x00' ∉ cs ∧ a = Pattern.readAlternative o' drives i n cs := by
  obtain ⟨origins, horigins, hfrom⟩ := exists_origins_of_make hmake
  intro a ha
  rw [horigins] at ha
  obtain ⟨k, hk, rfl⟩ := List.mem_mapIdx.mp ha
  obtain ⟨pattern, texts, hmem, hexpand, htext⟩ := hfrom _ (List.getElem_mem hk)
  have hlacks : '\x00' ∉ pattern.toList := by
    simpa [hasNull] using hasNull_of_mem_prepare hps pattern hmem
  exact ⟨_, _, _, _, _, Pattern.not_mem_of_expand Brace.foreign_null hlacks hexpand _ htext, rfl⟩

/-- Alternatives of patterns without null characters have none in their names. -/
theorem clean_of_nullFree (hmake : make o backslashes (ps.map .text) = .ok g)
    (hps : ∀ p ∈ ps, hasNull p = false) : ∀ a ∈ g.alternatives, a.Clean := by
  intro a ha
  obtain ⟨o', drives, i, n, cs, hlacks, rfl⟩ := exists_read_of_nullFree hmake hps a ha
  exact Pattern.clean_readAlternative hlacks drives i n

theorem hasNull_of_mem_parts (hmake : make o backslashes (ps.map .text) = .ok g)
    (hps : ∀ p ∈ ps, hasNull p = false) :
    ∀ a ∈ g.alternatives, ∀ part ∈ a.parts, hasNull part = false := by
  intro a ha part hpart
  obtain ⟨o', drives, i, n, cs, hlacks, rfl⟩ := exists_read_of_nullFree hmake hps a ha
  rw [Pattern.parts_readAlternative] at hpart
  obtain ⟨piece, hpiece, rfl⟩ := List.mem_map.mp hpart
  have hnone : '\x00' ∉ piece := fun hnull => hlacks (Pattern.mem_of_mem_splitParts hpiece hnull)
  simpa [hasNull] using hnone

/-- A walk of a search without null characters fails only if it has a reason of its own. -/
theorem exists_walkError_of_fails (hmake : make o backslashes (ps.map .text) = .ok g)
    (hps : ∀ p ∈ ps, hasNull p = false) (hdir : hasNull (directory g.options h) = false)
    (hfree : g.options.realpath = true → h.files.NullFree) (hc : c.Agrees h.answer)
    {a : Alternative} (ha : a ∈ g.alternatives) {e : RunError}
    (he : ((g.walk h a).run h c).result = .error e) : ∃ f, e = .walk f := by
  rw [Walk.run_of_agrees _ h hc] at he
  have hreason := (Walk.runOn_eq_error_iff (w := g.walk h a) (compiled_of_make hmake a ha)
    (clean_of_nullFree hmake hps a ha) (by simpa only [walk] using hdir) hfree).mp he
  obtain ⟨f, -, rfl⟩ := hreason
  exact ⟨f, rfl⟩

/-- The lists that walks return, told without a cache. -/
theorem Yields.exists_runOn {as : List Alternative} {results : List (List String)}
    (hy : g.Yields h as c results) (hc : c.Agrees h.answer) : ∀ found ∈ results, ∃ a ∈ as,
      ((g.walk h a).runOn h).result = .ok () ∧
        found = Event.paths ((g.walk h a).runOn h).events := by
  induction hy with
  | nil c => simp
  | @cons a as c results hok hrest ih =>
    have hrun := (g.walk h a).run_of_agrees h hc
    have hc' : ((g.walk h a).run h c).state.Agrees h.answer := by
      rw [hrun]
      exact Cache.agrees_lookups hc _
    refine List.forall_mem_cons.mpr ⟨⟨a, List.mem_cons_self, ?_, by rw [hrun]⟩, fun found hfound => ?_⟩
    · rw [hrun] at hok
      exact hok
    · obtain ⟨b, hb, hmore⟩ := ih hc' found hfound
      exact ⟨b, List.mem_cons_of_mem a hb, hmore⟩

/-- Neither what walks find nor alternatives that stand for themselves have null characters. -/
theorem hasNull_of_mem_search (hmake : make o backslashes (ps.map .text) = .ok g)
    (hps : ∀ p ∈ ps, hasNull p = false) (hcwd : hasNull h.cwd = false) (hc : c.Agrees h.answer)
    {xs : List String} (hx : (g.search h c).result = .ok xs) : ∀ x ∈ xs, hasNull x = false := by
  have hparts := hasNull_of_mem_parts hmake hps
  obtain ⟨results, hy, rfl⟩ := merge_of_search hx
  intro x hmem
  rcases (mem_merge hy.length_eq).mp hmem with ⟨found, hfound, hx⟩ | hnull
  · obtain ⟨a, ha, hok, rfl⟩ := hy.exists_runOn hc found hfound
    exact Walk.hasNull_of_mem_paths hcwd (hparts a ha) hok hx
  · obtain ⟨-, a, hpair, rfl⟩ := mem_nulls.mp hnull
    exact Path.hasNull_intercalate (hparts a (List.of_mem_zip hpair).1)

end PathGlob.Glob
