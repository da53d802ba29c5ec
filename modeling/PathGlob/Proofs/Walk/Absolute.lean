import PathGlob.Proofs.FileSystem.Normal
import PathGlob.Proofs.Walk.Presence

/-!
# Absolute results

An absolute result is the normal form of a result that is read from the working directory. It leads
to the same node unless a double dot takes back a link, or a link stands at its end that the result
itself goes through.
-/
namespace PathGlob

namespace Path

variable {cwd p : String}

theorem exists_join_slash (dir p : String) : ∃ q, join dir (p ++ "/") = q ++ "/" := by
  unfold join
  split_ifs
  · exact ⟨_, rfl⟩
  · exact ⟨dir ++ p, (String.append_assoc ..).symm⟩
  · exact ⟨dir ++ "/" ++ p, (String.append_assoc ..).symm⟩

theorem endsWithName_join (hcwd : isAbsolute cwd = true) (p : String) :
    endsWithName (join cwd p) = endsWithName p := by
  have hbehind : ∀ q, endsWithName (q ++ "/" ++ p) = endsWithName p := by
    intro q
    rw [endsWithName, components_append, List.getLast?_append_of_ne_nil _ (components_ne_nil p)]
    rfl
  have hne : cwd ≠ "" := ne_empty_of_absolute hcwd
  unfold join
  split_ifs with habs hslash
  · rfl
  · rcases child_cases cwd with hchild | ⟨d, rfl, -⟩
    · have hsame := hchild p
      rw [child, if_pos (hslash.resolve_left hne)] at hsame
      rw [hsame, hbehind]
    · exact hbehind d
  · exact hbehind cwd

end Path

namespace Walk

def relative (w : Walk) : Walk := { w with options := { w.options with absolute := false } }

variable {w : Walk} {h : Host} {rest segs : List Segment} {s t m : Spot} {out : List String}
  {path r : String}

/-! ## Whole walks -/

/-- Without canonical forms, a walk ends well just if the plain walk does. -/
theorem result_iff_of_realpath (hreal : w.options.realpath = false) :
    (w.runOn h).result = .ok () ↔ (w.plain.runOn h).result = .ok () := by
  refine result_iff_plain.trans (and_iff_left_of_imp fun hok t ht => ?_)
  rw [← endsOn_plain] at ht
  exact ((result_iff_plain (w := w.plain)).mp hok).2 t ht |>.of_realpath hreal

/-- Without marks only directory patterns put slashes behind results. -/
theorem marked_eq_plain (hmark : w.options.mark = false) (d d' : Bool) (p : String) :
    w.marked d p = w.plain.marked d' p := by
  have hplain : w.plain.options.mark = false := rfl
  have hdirOnly : w.plain.alternative = w.alternative := rfl
  simp only [marked, hmark, hplain, hdirOnly, Bool.false_and]

/-- An absolute result and the result that it is made from. -/
structure Paired (w : Walk) (h : Host) (s r : String) : Prop where
  shown : s = w.marked false (Path.absolute w.cwd r)
  there : ∃ st, h.status false (Path.join w.cwd r) = .ok st
  slash : w.alternative.dirOnly = true → ∃ q, Path.join w.cwd r = q ++ "/"

theorem Paired.status {s : String} (hpair : w.Paired h s r) (hsearch : h.files.Searchable)
    (hcwd : Path.isAbsolute w.cwd = true) (hmark : w.options.mark = false) {st : Status}
    (hst : h.status false (Path.join w.cwd r) = .ok st)
    (hsteady : h.steady (Path.join w.cwd r) = true)
    (hlast : Path.endsWithName r = true ∨ h.isLink s = false) : h.status false s = .ok st := by
  have habs := Path.isAbsolute_join hcwd r
  have hshown := hpair.shown
  unfold marked at hshown
  simp only [hmark, Bool.false_and, Bool.or_false] at hshown
  cases hdirOnly : w.alternative.dirOnly && !Path.endsWithSlash (Path.absolute w.cwd r) with
  | true =>
    obtain ⟨hdir, -⟩ := Bool.and_eq_true_iff.mp hdirOnly
    obtain ⟨q, hq⟩ := hpair.slash hdir
    rw [hdirOnly, if_pos rfl] at hshown
    rw [hshown]
    exact Host.status_normalize_slash hsearch hq habs hsteady hst
  | false =>
    rw [hdirOnly, if_neg (by simp)] at hshown
    rw [← Path.endsWithName_join hcwd] at hlast
    rw [hshown] at hlast ⊢
    exact Host.status_normalize hsearch habs hsteady hst hlast

theorem emits_relative (hroot : w.alternative.root = "") (hreal : w.options.realpath = false)
    (hmark : w.options.mark = false) (ht : w.PlainEnd h t) (hr : w.plain.emits h.answer t = some r)
    (hnodir : (w.options.nodir && Oracle.isDirectory h.answer (Path.join w.cwd r)) = false) :
    w.relative.emits h.answer t = some r := by
  obtain ⟨hne, rfl⟩ := eq_spell_of_emits_plain ht.lays hr
  have hstyled := emits_eq_styled (w := w.relative) ht.route (.inr hroot) ht.lays
  have hplain : w.relative.plain.emits h.answer t = some (spell t.out) := hr
  have hnodir' : (w.relative.options.nodir &&
      Oracle.isDirectory h.answer (Path.join w.relative.cwd (spell t.out))) = false := hnodir
  have hreal' : w.relative.options.realpath = false := hreal
  have habs' : w.relative.options.absolute = false := rfl
  have hshown : w.plain.marked false (spell t.out) = spell t.out :=
    marked_of_lays (w := w.plain) rfl ht.lays hne false
  rw [hstyled, hplain, Option.bind_some, styled]
  simp only [hnodir', hreal', habs', Bool.false_eq_true, if_false, Bool.false_and]
  rw [marked_eq_plain (w := w.relative) hmark _ false]
  exact congrArg some hshown

theorem paired_spell (hsearch : h.files.Searchable) (hroot : w.alternative.root = "")
    (hdir : Oracle.isDirectory h.answer w.root = true) (ht : w.PlainEnd h t)
    (hne : spell t.out ≠ "") :
    w.Paired h (w.marked false (Path.absolute w.cwd (spell t.out))) (spell t.out) where
  shown := rfl
  there := by
    have hthere := there_of_lays hsearch ht.lays (isThere_of_isDirectory hdir)
    exact (ht.route hne).route.exists_status (.inr hroot) (ne_beginning_of_spell hne) hthere
  slash hdirOnly := by
    obtain ⟨xs, hxs⟩ := exists_of_lays_empty ht.lays (getLast?_ahead_of_dirOnly hdirOnly)
    have hxs' : xs ≠ [] := fun hnil => hne (by rw [hxs, hnil]; rfl)
    rw [hxs, spell_append hxs', String.append_empty]
    exact Path.exists_join_slash _ _

/-- What is reported at an end with the option is made from what is reported there without. -/
theorem exists_paired (hsearch : h.files.Searchable) (hroot : w.alternative.root = "")
    (hdir : Oracle.isDirectory h.answer w.root = true) (habs : w.options.absolute = true)
    (hreal : w.options.realpath = false) (hmark : w.options.mark = false) (ht : w.PlainEnd h t)
    {s : String} (hs : w.emits h.answer t = some s) :
    ∃ r, w.relative.emits h.answer t = some r ∧ w.Paired h s r := by
  rw [emits_eq_styled ht.route (.inr hroot) ht.lays] at hs
  obtain ⟨r, hr, hs⟩ := Option.bind_eq_some_iff.mp hs
  obtain ⟨hne, rfl⟩ := eq_spell_of_emits_plain ht.lays hr
  have hrelative : w.alternative.isAbsolute = false := by simp [Alternative.isAbsolute, hroot]
  unfold styled at hs
  cases hnodir : w.options.nodir && Oracle.isDirectory h.answer (Path.join w.cwd (spell t.out)) with
  | true =>
    simp only [hnodir, if_true] at hs
    cases hs
  | false =>
    simp only [hnodir, hreal, habs, hrelative, Bool.false_eq_true, if_false, Bool.not_false,
      Bool.and_self, if_true] at hs
    have hshown : s = w.marked false (Path.absolute w.cwd (spell t.out)) := by
      rw [← Option.some.inj hs, marked_eq_plain hmark _ false, ← marked_eq_plain hmark]
    exact ⟨_, emits_relative hroot hreal hmark ht hr hnodir,
      hshown ▸ paired_spell hsearch hroot hdir ht hne⟩

/-- Where all directories may be searched, each absolute result of a walk is made from a result of
the walk that shows its results as they are read from the working directory, and leads to the same
node. Excepted are results with a double dot that takes back a link, and results that end with a
slash or dots while the absolute result is a link. -/
theorem absolute_leads_alike (w : Walk) (h : Host) (c c' : Cache) (ha : w.alternative.Compiled)
    (hroot : w.alternative.root = "") (hcwd : Path.isAbsolute w.cwd = true)
    (hsearch : h.files.Searchable) (hc : c.Agrees h.answer) (hc' : c'.Agrees h.answer)
    (habs : w.options.absolute = true) (hreal : w.options.realpath = false)
    (hmark : w.options.mark = false) :
    ((w.run h c).result = .ok () ↔ (w.relative.run h c').result = .ok ()) ∧
      ((w.run h c).result = .ok () → ∀ s ∈ Event.paths (w.run h c).events,
        ∃ r ∈ Event.paths (w.relative.run h c').events,
          s = w.marked false (Path.absolute w.cwd r) ∧
            ∃ st, h.status false (Path.join w.cwd r) = .ok st ∧
              (h.steady (Path.join w.cwd r) = true →
                Path.endsWithName r = true ∨ h.isLink s = false → h.status false s = .ok st)) := by
  rw [run_of_agrees w h hc, run_of_agrees w.relative h hc']
  have hplain : (w.runOn h).result = .ok () ↔ (w.plain.runOn h).result = .ok () :=
    result_iff_of_realpath hreal
  have hboth : (w.runOn h).result = .ok () ↔ (w.relative.runOn h).result = .ok () :=
    hplain.trans (result_iff_of_realpath (w := w.relative) hreal).symm
  refine ⟨hboth, fun hok s hs => ?_⟩
  obtain ⟨t, ht, hemits⟩ := (mem_paths_runOn hok).mp hs
  have hend := plainEnd_of_mem ha (.inr hroot) hsearch (hplain.mp hok) ht
  obtain ⟨r, hr, hpaired⟩ := exists_paired hsearch hroot (isDirectory_root_of_outcome hok) habs hreal
    hmark hend hemits
  have ht' : t ∈ w.relative.endsOn h := by
    rw [← endsOn_plain] at ht ⊢
    exact ht
  obtain ⟨st, hst⟩ := hpaired.there
  refine ⟨r, (mem_paths_runOn (hboth.mp hok)).mpr ⟨t, ht', hr⟩, hpaired.shown, st, hst, ?_⟩
  intro hsteady hlast
  exact hpaired.status hsearch hcwd hmark hst hsteady hlast

/-- The double dot takes back a directory, and the link stays in the way. -/
theorem absolute_leads_alike_link :
    let w : Walk := ⟨Pattern.readAlternative {} false 0 0 "d/../l/f".toList, { absolute := true },
      fun _ _ => false, "/"⟩
    Event.paths (w.run linkedHost .empty).events = ["/l/f"] ∧
      Event.paths (w.relative.run linkedHost .empty).events = ["d/../l/f"] ∧
      ∃ st, linkedHost.status false (Path.join w.cwd "d/../l/f") = .ok st ∧
        linkedHost.status false "/l/f" = .ok st := by
  intro w
  have hempty := Cache.agrees_empty linkedHost.answer
  have hcompiled : w.alternative.Compiled :=
    Alternative.compiled_of_expand (by decide) (by decide +kernel) false 0 0
  obtain ⟨-, hsearch⟩ := FileSystem.open_of_isOpen linkedHost.files (by decide +kernel)
  obtain ⟨-, hpairs⟩ := absolute_leads_alike w linkedHost .empty .empty hcompiled
    (by decide +kernel) (by decide) hsearch hempty hempty rfl rfl rfl
  have hok : (w.run linkedHost .empty).result = .ok () := by
    rw [run_of_agrees _ _ hempty]
    decide +kernel
  have hall : Event.paths (w.run linkedHost .empty).events = ["/l/f"] := by
    rw [run_of_agrees _ _ hempty]
    decide +kernel
  have hrelative : Event.paths (w.relative.run linkedHost .empty).events = ["d/../l/f"] := by
    rw [run_of_agrees _ _ hempty]
    decide +kernel
  obtain ⟨r, hr, -, st, hst, hsame⟩ := hpairs hok "/l/f" (by simp [hall])
  rw [hrelative, List.mem_singleton] at hr
  subst hr
  exact ⟨hall, hrelative, st, hst, hsame (by decide +kernel) (.inl (by decide +kernel))⟩

def strayHost : Host :=
  ⟨((FileSystem.empty.apply (.file (.ofText "d/x") [])).apply (.directory (.ofText "d/e"))).apply
    (.link (.ofText "l") "d/e"), "/"⟩

/-- The double dot leads from the target of the link to the file, but takes back the link in the
absolute result, and there is nothing of that name. The dot leads through the link, and without it
the link itself is left. -/
theorem exists_absolute_astray :
    let w (pattern : String) : Walk := ⟨Pattern.readAlternative {} false 0 0 pattern.toList,
      { absolute := true }, fun _ _ => false, "/"⟩
    let paths (w : Walk) := Event.paths (w.run strayHost .empty).events
    strayHost.files.Searchable ∧ (∀ pattern ∈ ["l/../x", "l/."],
        (w pattern).alternative.Compiled ∧ ((w pattern).run strayHost .empty).result = .ok ()) ∧
      (paths (w "l/../x") = ["/x"] ∧ paths (w "l/../x").relative = ["l/../x"] ∧
        (strayHost.status false "/l/../x").toOption.isSome = true ∧
        strayHost.status false "/x" = .error .notFound) ∧
      paths (w "l/.") = ["/l"] ∧ paths (w "l/.").relative = ["l/."] ∧
        (strayHost.status false "/l/.").map Status.kind = .ok .directory ∧
        (strayHost.status false "/l").map Status.kind = .ok .link := by
  intro w paths
  have hempty := Cache.agrees_empty strayHost.answer
  have hpaths : ∀ w, paths w = Event.paths (w.runOn strayHost).events := fun w => by
    simp only [paths, run_of_agrees w strayHost hempty]
  obtain ⟨-, hsearch⟩ := FileSystem.open_of_isOpen strayHost.files (by decide +kernel)
  refine ⟨hsearch, ?_, ?_, ?_⟩
  · intro pattern hpattern
    rw [run_of_agrees _ _ hempty]
    rcases List.mem_pair.mp hpattern with rfl | rfl
    · exact ⟨Alternative.compiled_of_expand (by decide) (by decide +kernel) false 0 0,
        by decide +kernel⟩
    · exact ⟨Alternative.compiled_of_expand (by decide) (by decide +kernel) false 0 0,
        by decide +kernel⟩
  · rw [hpaths, hpaths]
    decide +kernel
  · rw [hpaths, hpaths]
    decide +kernel

end Walk

end PathGlob
