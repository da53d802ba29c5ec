import PathGlob.Proofs.FileSystem.Normal
import PathGlob.Proofs.Walk.Display

/-!
# What is found is there

Where all directories may be searched, a result leads to something, and it is spelled as it should
be: absolute or relative as the alternative is, with a slash behind it only if it is a directory.
-/
namespace PathGlob.Walk

/-- What can be relied on for a result that is displayed as it is spelled. -/
structure Present (w : Walk) (h : Host) (r : String) : Prop where
  nonempty : r ≠ ""
  absolute : Path.isAbsolute r = true ↔ w.alternative.isAbsolute = true
  there : ∃ st, h.status false (Path.join w.cwd r) = .ok st
  slash : Path.endsWithSlash r = true → Oracle.isDirectory h.answer (Path.join w.cwd r) = true
  marked : w.options.mark = true → Oracle.isDirectory h.answer (Path.join w.cwd r) = true →
    Path.endsWithSlash r = true
  noDirectory : w.options.nodir = true →
    Oracle.isDirectory h.answer (Path.join w.cwd r) = false

variable {w : Walk} {o : Oracle} {h : Host} {rest segs : List Segment} {s t m : Spot}
  {out : List String} {path r : String}

/-! ## At the end of a trail -/

theorem isThere_answer : Oracle.isThere h.answer path = true ↔
    hasNull path = false ∧ ∃ st, h.status false path = .ok st := by
  cases hnull : hasNull path with
  | true => simp [Oracle.isThere, Host.answer, hnull]
  | false =>
    cases hst : h.status false path <;>
      simp [Oracle.isThere, Host.answer, hnull, hst, Except.toOption]

theorem isThere_of_mem_entries (hsearch : h.files.Searchable) {e : Entry}
    (he : e ∈ Oracle.entries h.answer path) :
    Oracle.isThere h.answer (Path.child path e.name.text) = true := by
  obtain ⟨hnull, loc, access, node, hloc, hnode, -, hn, -⟩ := Host.mem_entries_answer.mp he
  have hthere := Host.locate_child_name hloc hnode hn (.inl rfl)
  rw [if_pos (hsearch loc access hnode)] at hthere
  refine isThere_answer.mpr ⟨?_, _, Host.status_eq_ok.mpr ⟨_, node, hthere, hn, rfl⟩⟩
  rw [hasNull_child, hnull, hasNull_name]
  rfl

theorem isThere_of_isDirectory (hdir : Oracle.isDirectory h.answer path = true) :
    Oracle.isThere h.answer path = true := by
  obtain ⟨hnull, loc, access, hloc, hnode⟩ := Host.isDirectory_answer.mp hdir
  have hne := Host.ne_empty_of_locate hloc
  rw [Host.locate, if_neg hne] at hloc
  refine isThere_answer.mpr ⟨hnull, ?_⟩
  rcases FileSystem.resolve_cases hloc with hthere | ⟨link, target, hto, hat⟩
  · exact ⟨_, Host.status_eq_ok.mpr ⟨loc, _, (if_neg hne).trans hthere, hnode, rfl⟩⟩
  · exact ⟨_, Host.status_eq_ok.mpr ⟨link, _, (if_neg hne).trans hto, hat, rfl⟩⟩

theorem there_of_sweeps (hsearch : h.files.Searchable) (hsweep : w.Sweeps h.answer rest s m)
    (hs : Oracle.isThere h.answer s.path = true) : Oracle.isThere h.answer m.path = true := by
  induction hsweep with
  | stay placed => exact hs
  | last offered final goes => exact isThere_of_mem_entries hsearch offered.listed
  | down offered inner kept more ih => exact ih (isThere_of_mem_entries hsearch offered.listed)

theorem there_of_lays (hsearch : h.files.Searchable) (hlays : w.Lays h.answer segs s t)
    (hs : Oracle.isThere h.answer s.path = true) : Oracle.isThere h.answer t.path = true := by
  induction hlays with
  | nil => exact hs
  | empty dir more ih => exact ih hs
  | literal there goes more ih => exact ih there
  | magic listed accepted goes more ih => exact ih (isThere_of_mem_entries hsearch listed)
  | globstar sweep more ih => exact ih (there_of_sweeps hsearch sweep hs)

/-! ## At the end of a route -/

theorem Route.isAbsolute_spell (hr : w.Route h.answer out path)
    (hroot : w.alternative.root = "/" ∨ w.alternative.root = "") (hne : out ≠ w.beginning) :
    Path.isAbsolute (spell out) = w.alternative.isAbsolute := by
  have hfirst : ∀ c, '/' ∉ c.toList →
      Path.isAbsolute (spell (w.beginning ++ [c])) = w.alternative.isAbsolute := by
    intro c hslash
    unfold beginning
    cases w.alternative.isAbsolute with
    | true => simp [spell, Path.isAbsolute]
    | false => simpa [spell] using Path.not_isAbsolute_of_slashless hslash
  induction hr with
  | start => exact absurd rfl hne
  | @slash out path before placed dir ih =>
    by_cases hbegin : out = w.beginning
    · rw [hbegin]
      exact hfirst "" (by simp)
    · rw [spell_append placed, String.append_assoc,
        Path.isAbsolute_append (before.alike hroot hbegin).1, ih hbegin]
  | @name out path name before dir nonempty slashless ih =>
    by_cases hbegin : out = w.beginning
    · rw [hbegin]
      exact hfirst name slashless
    · have hsp := (before.alike hroot hbegin).1
      have hout : out ≠ [] := fun hnil => hsp (by rw [hnil]; rfl)
      rw [spell_append hout, String.append_assoc, Path.isAbsolute_append hsp, ih hbegin]

theorem Route.isDirectory_of_slash (hr : w.Route h.answer out path) (hne : out ≠ w.beginning)
    (hslash : Path.endsWithSlash (spell out) = true) : Oracle.isDirectory h.answer path = true := by
  cases hr with
  | start => exact absurd rfl hne
  | slash before placed dir => exact dir
  | @name out path name before dir nonempty slashless =>
    exfalso
    by_cases hout : out = []
    · have hspell : spell (out ++ [name]) = "" ++ name := by simp [hout, spell]
      rw [hspell, Path.endsWithSlash_append nonempty slashless] at hslash
      cases hslash
    · rw [spell_append hout, Path.endsWithSlash_append nonempty slashless] at hslash
      cases hslash

/-- What is spelled at the end of a route is there. -/
theorem Route.exists_status (hr : w.Route h.answer out path)
    (hroot : w.alternative.root = "/" ∨ w.alternative.root = "") (hne : out ≠ w.beginning)
    (hthere : Oracle.isThere h.answer path = true) :
    ∃ st, h.status false (Path.join w.cwd (spell out)) = .ok st := by
  obtain ⟨-, st, hst⟩ := isThere_answer.mp hthere
  cases hr with
  | start => exact absurd rfl hne
  | @slash out path before placed dir =>
    by_cases hbegin : out = w.beginning
    · obtain rfl := before.path_of_beginning hbegin
      obtain ⟨hslash, -⟩ := (beginning_cases hroot).resolve_right fun ⟨_, hnil⟩ =>
        placed (hbegin.trans hnil)
      have hchild : Path.child "/" "" = "/" := rfl
      rw [hbegin, join_spell_beginning hroot (by simp [hslash]) (by simp), hslash, hchild]
      exact ⟨st, hslash ▸ hst⟩
    · obtain ⟨hsp, ha⟩ := before.alike hroot hbegin
      obtain ⟨-, loc, access, hloc, hnode⟩ := Host.isDirectory_answer.mp dir
      rw [spell_append placed, String.append_empty, Path.join_append hsp]
      exact ⟨_, Host.status_eq_ok.mpr ⟨loc, _, ha.locate_slash hloc hnode false, hnode, rfl⟩⟩
  | @name out path name before dir nonempty slashless =>
    by_cases hbegin : out = w.beginning
    · obtain rfl := before.path_of_beginning hbegin
      obtain ⟨-, rootLoc, access, hrootLoc, -⟩ := Host.isDirectory_answer.mp dir
      rw [hbegin, join_spell_beginning hroot (Host.ne_empty_of_locate hrootLoc) slashless]
      exact ⟨st, hst⟩
    · obtain ⟨loc, node, hloc, hnode, -⟩ := Host.status_eq_ok.mp hst
      obtain ⟨hsp, ha⟩ := before.alike hroot hbegin
      have hout : out ≠ [] := fun hnil => hsp (by rw [hnil]; rfl)
      rw [spell_append hout, String.append_assoc, Path.join_append hsp, ← String.append_assoc]
      exact ⟨_, Host.status_eq_ok.mpr
        ⟨loc, node, (ha.locate_child dir slashless false).trans hloc, hnode, rfl⟩⟩

/-! ## Results -/

/-- A directory is there by its path with a slash behind it. -/
theorem isDirectory_join_slash (hr : r ≠ "")
    (hdir : Oracle.isDirectory h.answer (Path.join w.cwd r) = true) :
    Oracle.isDirectory h.answer (Path.join w.cwd (r ++ "/")) = true := by
  have halike := (Host.Alike.refl (Path.join_ne_empty hr)).slash hdir
  rw [Path.join_append hr, halike.isDirectory]
  exact hdir

/-- A result is spelled as the end of a route, perhaps with a mark behind it. -/
theorem present_marked (ht : w.plain.OnRoute h.answer t)
    (hroot : w.alternative.root = "/" ∨ w.alternative.root = "") (hne : spell t.out ≠ "")
    (hthere : Oracle.isThere h.answer t.path = true)
    (hends : w.ahead.getLast? = some .empty → ∃ xs, t.out = xs ++ [""])
    (hnodir : (w.options.nodir && t.isDirectory h.answer) = false) :
    w.Present h (w.marked (t.isDirectory h.answer) (spell t.out)) := by
  have hbegin : t.out ≠ w.plain.beginning := ne_beginning_of_spell hne
  have habs : Path.isAbsolute (spell t.out) = w.alternative.isAbsolute :=
    ht.route.isAbsolute_spell hroot hbegin
  have hdir : Oracle.isDirectory h.answer (Path.join w.cwd (spell t.out)) =
      t.isDirectory h.answer := ht.isDirectory hroot hne
  rw [marked_spell hends hne]
  split
  case isTrue hmarks =>
    obtain ⟨⟨-, hisDir⟩, -⟩ := by simpa using hmarks
    rw [hisDir] at hdir hnodir
    have hslash := isDirectory_join_slash hne hdir
    have hno : w.options.nodir = false := by simpa using hnodir
    exact {
      nonempty := by simp
      absolute := by rw [Path.isAbsolute_append hne, habs]
      there := (isThere_answer.mp (isThere_of_isDirectory hslash)).2
      slash := fun _ => hslash
      marked := fun _ _ => by simp [Path.endsWithSlash]
      noDirectory := fun hyes => by simp [hno] at hyes }
  case isFalse hplain =>
    exact {
      nonempty := hne
      absolute := by rw [habs]
      there := ht.route.exists_status hroot hbegin hthere
      slash := fun hslash => by
        rw [hdir, ht.known]
        exact ht.route.isDirectory_of_slash hbegin hslash
      marked := fun hmark hisDir => by
        rw [hdir] at hisDir
        simpa [hmark, hisDir] using hplain
      noDirectory := fun hyes => by simpa [hdir, hyes] using hnodir }

/-- What is reported at an end is its spelling, perhaps with a mark behind it. -/
theorem marked_of_emits (hreal : w.options.realpath = false) (habs : w.options.absolute = false)
    (hr : w.emits o t = some r) : spell t.out ≠ "" ∧
      (w.options.nodir && t.isDirectory o) = false ∧
      r = w.marked (t.isDirectory o) (spell t.out) := by
  unfold emits at hr
  split_ifs at hr with hne hskip
  rw [Bool.or_eq_true, not_or, Bool.not_eq_true] at hskip
  refine ⟨hne, hskip.1, ?_⟩
  simpa [shown, hreal, habs, eq_comm] using hr

/-- Where all directories may be searched, each result that is neither absolute by option nor
canonical is not empty, absolute just if the alternative is, and leads to something, be it a link
that leads nowhere. It ends with a slash only if it leads to a directory, with marks also if it
does; and directories that are not wanted are no results. -/
theorem paths_present (w : Walk) (h : Host) (c : Cache) (ha : w.alternative.Compiled)
    (hroot : w.alternative.root = "/" ∨ w.alternative.root = "") (hsearch : h.files.Searchable)
    (hc : c.Agrees h.answer) (hreal : w.options.realpath = false)
    (habs : w.options.absolute = false) (hok : (w.run h c).result = .ok ()) :
    ∀ r ∈ Event.paths (w.run h c).events, w.Present h r := by
  rw [run_of_agrees w h hc] at hok ⊢
  intro r hr
  obtain ⟨t, ht, hemits⟩ := (mem_paths_runOn hok).mp hr
  have hend := plainEnd_of_mem ha hroot hsearch (result_iff_plain.mp hok).1 ht
  have hdir : Oracle.isDirectory h.answer w.root = true := isDirectory_root_of_outcome hok
  have hthere := there_of_lays hsearch hend.lays (isThere_of_isDirectory hdir)
  obtain ⟨hne, hnodir, rfl⟩ := marked_of_emits hreal habs hemits
  exact present_marked (hend.route hne) hroot hne hthere (exists_of_lays_empty hend.lays) hnodir

/-- What is found by way of the link is there, and what is a directory is marked. -/
theorem paths_present_link :
    let w : Walk := ⟨Pattern.readAlternative {} false 0 0 "/**".toList,
      { follow := true, mark := true }, fun _ _ => false, "/d"⟩
    Event.paths (w.run linkedHost .empty).events = ["/d/", "/d/f", "/l/", "/l/f"] ∧
      w.Present linkedHost "/l/f" ∧ w.Present linkedHost "/l/" := by
  intro w
  have hempty := Cache.agrees_empty linkedHost.answer
  have hcompiled : w.alternative.Compiled :=
    Alternative.compiled_of_expand (by decide) (by decide +kernel) false 0 0
  obtain ⟨-, hsearch⟩ := FileSystem.open_of_isOpen linkedHost.files (by decide +kernel)
  have hok : (w.run linkedHost .empty).result = .ok () := by
    rw [run_of_agrees _ _ hempty]
    decide +kernel
  have hall : Event.paths (w.run linkedHost .empty).events =
      ["/d/", "/d/f", "/l/", "/l/f"] := by
    rw [run_of_agrees _ _ hempty]
    decide +kernel
  have hpresent := paths_present w linkedHost .empty hcompiled (.inl (by decide +kernel)) hsearch
    hempty rfl rfl hok
  exact ⟨hall, hpresent _ (by simp [hall]), hpresent _ (by simp [hall])⟩

end PathGlob.Walk
