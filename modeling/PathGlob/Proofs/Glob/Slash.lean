import PathGlob.Proofs.Glob.Composition
import PathGlob.Proofs.Walk.Display
import PathGlob.Proofs.Walk.Ignoring

/-!
# Patterns with a slash behind

A slash behind a pattern keeps the directories among its matches, each with a slash behind it, and
does nothing else: neither to the order of matches nor to whether the walk fails.
-/
namespace PathGlob

namespace Walk

variable {w : Walk} {o : Oracle} {h : Host} {decision : String → Bool → Bool}
  {rest segs : List Segment} {s t : Spot} {depth : Nat} {next next' : Spot → List Spot}

/-! ## Ends with a slash behind -/

/-- What is reported at an end if a slash is put behind it, which only a directory can have. -/
def emitsSlashed (w : Walk) (o : Oracle) (t : Spot) : Option String :=
  if o.isDirectory t.path then w.emits o t.slash else none

/-- A slash may be put behind the ends of the trails from a spot as well as behind the segments. -/
def SlashesAlike (w : Walk) (o : Oracle) (next next' : Spot → List Spot) (s : Spot) : Prop :=
  (next' s).filterMap (w.emits o) = (next s).filterMap (w.emitsSlashed o)

theorem emitsSlashed_of_ignored (hign : w.IgnoresBy decision)
    (hig : w.ignored (spell s.out) true = true) : w.emitsSlashed o s = none := by
  unfold emitsSlashed
  cases hdir : o.isDirectory s.path with
  | false => rfl
  | true =>
    have hslash : w.ignored (spell s.slash.out) (s.slash.isDirectory o) = true := by
      have hisDir : s.slash.isDirectory o = true := hdir
      rw [hisDir]
      exact (ignored_slash hign s.out true).trans hig
    unfold emits
    rw [hslash, Bool.or_true]
    simp

theorem slashesAlike_nil : w.SlashesAlike o (w.ends o [] depth) (w.ends o [.empty] depth) s := by
  unfold SlashesAlike
  rw [ends, ends, ends, List.filterMap_cons, List.filterMap_nil, emitsSlashed]
  cases o.isDirectory s.path with
  | false => rfl
  | true => simp only [if_true, List.filterMap_cons, List.filterMap_nil]

theorem slashesAlike_onward (hign : w.IgnoresBy decision)
    (hknown : s.isDirectory o = o.isDirectory s.path) (hlast : rest = [] → next s = [s])
    (hnext : w.SlashesAlike o next next' s) :
    w.SlashesAlike o (w.onward o rest next) (w.onward o (rest ++ [.empty]) next') s := by
  unfold SlashesAlike onward
  cases rest with
  | cons first rest =>
    simp only [List.cons_append, List.isEmpty_cons]
    split
    · exact hnext
    · rfl
  | nil =>
    -- The last name is reported in any case, but what is behind it takes a directory.
    simp only [List.nil_append, List.isEmpty_cons, List.isEmpty_nil, Bool.false_or, Bool.true_or,
      if_true, hknown]
    cases hdir : o.isDirectory s.path with
    | false => simp [hlast rfl, emitsSlashed, hdir]
    | true =>
      cases hig : w.ignored (spell s.out) true with
      | false => exact hnext
      | true => simp [hlast rfl, emitsSlashed_of_ignored hign hig]

theorem slashesAlike_choose (htell : Telling o) (hign : w.IgnoresBy decision)
    {deeper deeper' : Spot → List Spot} {e : Entry} (he : e ∈ o.entries s.path)
    (ht : t = (s.enter o).child e.name.text (some e.isDir)) (hlast : rest = [] → next t = [t])
    (hdeeper : w.SlashesAlike o deeper deeper' t) (hnext : w.SlashesAlike o next next' t) :
    (w.choose o (rest ++ [.empty]) deeper' next' s e).filterMap (w.emits o) =
      (w.choose o rest deeper next s e).filterMap (w.emitsSlashed o) := by
  have hknown : t.isDirectory o = o.isDirectory t.path := by
    rw [ht]
    exact htell s.path e he
  simp only [choose, ← ht]
  split_ifs
  · rfl
  · rfl
  · exact hdeeper
  · exact slashesAlike_onward hign hknown hlast hnext

theorem standsAlone_slash (rest : List Segment) :
    standsAlone (rest ++ [.empty]) = standsAlone rest := by
  cases rest <;> rfl

theorem slashesAlike_sweep (htell : Telling o) (hign : w.IgnoresBy decision)
    {next next' : Nat → Spot → List Spot} (hlast : rest = [] → ∀ depth s, next depth s = [s])
    (hnext : ∀ depth s, w.SlashesAlike o (next depth) (next' depth) s) (depth : Nat) (s : Spot) :
    w.SlashesAlike o (w.sweep o rest next depth) (w.sweep o (rest ++ [.empty]) next' depth) s := by
  unfold SlashesAlike
  induction depth generalizing s with
  | zero => rfl
  | succ depth ih =>
    rw [sweep, sweep, List.filterMap_append, List.filterMap_append, standsAlone_slash]
    congr 1
    · split
      · rfl
      · exact hnext depth _
    · split
      · rfl
      · rw [List.filterMap_flatMap, List.filterMap_flatMap]
        refine List.flatMap_congr fun e he => ?_
        exact slashesAlike_choose htell hign he rfl (fun hnil => hlast hnil depth _) (ih _)
          (hnext depth _)

/-- With an empty segment behind, the trails end where they end without, at directories only. -/
theorem slashesAlike_ends (htell : Telling o) (hign : w.IgnoresBy decision) (segs : List Segment)
    (depth : Nat) (s : Spot) :
    w.SlashesAlike o (w.ends o segs depth) (w.ends o (segs ++ [.empty]) depth) s := by
  induction segs generalizing depth s with
  | nil => exact slashesAlike_nil
  | cons first rest ih =>
    have hlast : rest = [] → ∀ depth s, w.ends o rest depth s = [s] := by
      rintro rfl depth s
      rfl
    unfold SlashesAlike
    rw [List.cons_append]
    cases first with
    | empty =>
      rw [ends, ends]
      split
      · exact ih depth s.slash
      · rfl
    | literal text name =>
      rw [ends, ends]
      split
      · exact slashesAlike_onward hign rfl (fun hnil => hlast hnil _ _) (ih depth _)
      · rfl
    | magic text mode tokens =>
      rw [ends, ends, List.filterMap_flatMap, List.filterMap_flatMap]
      refine List.flatMap_congr fun e he => ?_
      split
      · exact slashesAlike_onward (s := s.child e.name.text (some e.isDir)) hign
          (htell s.path e he) (fun hnil => hlast hnil _ _) (ih depth _)
      · rfl
    | globstar =>
      rw [ends, ends]
      exact slashesAlike_sweep htell hign hlast ih depth s

/-! ## Results -/

/-- A relative alternative does not begin with a slash, unless it is empty. -/
theorem exists_head (ha : w.alternative.Compiled) (hroot : w.alternative.root = "")
    (hlast : w.alternative.segments.getLast? ≠ some .empty) :
    ∃ first rest, w.alternative.segments = first :: rest ∧ first ≠ .empty := by
  obtain ⟨first, rest, hsegs⟩ := List.exists_cons_of_ne_nil ha.segments_ne_nil
  refine ⟨first, rest, hsegs, ?_⟩
  rintro rfl
  rcases ha.head_of_relative hroot with hempty | hno
  · exact hlast (by rw [hempty]; rfl)
  · exact hno rest hsegs

theorem ahead_of_relative (hroot : w.alternative.root = "") :
    w.ahead = w.alternative.segments := by
  simp [ahead, Alternative.isAbsolute, hroot]

theorem onRoute_of_relative (ha : w.alternative.Compiled) (hroot : w.alternative.root = "")
    (hlast : w.alternative.segments.getLast? ≠ some .empty) (htell : Telling o)
    (hdir : o.isDirectory w.root = true) (hlays : w.Lays o w.ahead w.start t) : w.OnRoute o t := by
  obtain ⟨first, rest, hsegs, hfirst⟩ := exists_head ha hroot hlast
  have hready : Ready o w.ahead w.start := by
    refine ⟨fun _ => hdir, ?_⟩
    rintro - more hmore
    rw [ahead_of_relative hroot, hsegs] at hmore
    exact hfirst (List.cons.inj hmore).1
  exact onRoute_of_lays htell hlays (names_ahead ha) (onRoute_start ha (.inr hroot)) hready

/-- A bare working directory is no result, with or without a slash. -/
theorem emitsSlashed_of_nil (hout : t.out = []) : w.emitsSlashed o t = none := by
  have hempty : spell t.slash.out = "" := by rw [Spot.slash, hout]; rfl
  unfold emitsSlashed emits
  rw [if_pos hempty, ite_self]

theorem emitsSlashed_eq (hnodir : w.options.nodir = false) (hreal : w.options.realpath = false)
    (habs : w.options.absolute = false) (hign : w.IgnoresBy decision) (hne : t.out ≠ []) :
    w.emitsSlashed o t =
      if o.isDirectory t.path && !w.ignored (spell t.out) true then some (spell t.out ++ "/")
      else none := by
  unfold emitsSlashed
  cases hdir : o.isDirectory t.path with
  | false => rfl
  | true =>
    have hisDir : t.slash.isDirectory o = true := hdir
    have hspell : spell t.slash.out = spell t.out ++ "/" := by
      rw [Spot.slash, spell_append hne, String.append_empty]
    have hig : w.ignored (spell t.slash.out) true = w.ignored (spell t.out) true :=
      ignored_slash hign t.out true
    have hslash : Path.endsWithSlash (spell t.slash.out) = true := endsWithSlash_spell hne
    have hmarked : w.marked true (spell t.slash.out) = spell t.slash.out := by
      simp [marked, hslash]
    rw [hspell] at hig hmarked
    simp only [if_true, Bool.true_and, emits, hisDir, hspell, hig, hnodir, Bool.false_and,
      Bool.false_or, shown, hreal, habs, Bool.false_eq_true, if_false, hmarked]
    cases w.ignored (spell t.out) true <;> simp

def slashedResult (w : Walk) (h : Host) (r : String) : Option String :=
  if Oracle.isDirectory h.answer (Path.join w.cwd r) then some (r ++ "/") else none

/-- What is reported with a slash behind an end is what is reported there, with a slash. -/
theorem emitsSlashed_eq_bind {w' : Walk} (hplain : w.plain = w) (hoptions : w'.options = w.options)
    (hignored : w'.ignored = w.ignored) (hign : w.IgnoresBy decision)
    (hroot : w.alternative.root = "") (hlays : w.Lays h.answer w.ahead w.start t)
    (ht : w.OnRoute h.answer t) :
    w'.emitsSlashed h.answer t = (w.emits h.answer t).bind (w.slashedResult h) := by
  have hemits := emits_plain (o := h.answer) (t := t) (hplain.symm ▸ hlays)
  rw [hplain] at hemits
  rw [hemits]
  by_cases hout : t.out = []
  · have hempty : spell t.out = "" := by rw [hout]; rfl
    rw [if_pos (.inl hempty), emitsSlashed_of_nil hout]
    rfl
  have hbegin : t.out ≠ w.beginning := by
    simpa [beginning, Alternative.isAbsolute, hroot] using hout
  have hne : spell t.out ≠ "" := (ht.route.alike (.inr hroot) hbegin).1
  have hnodir : w'.options.nodir = false := by rw [hoptions, ← hplain]; rfl
  have hreal : w'.options.realpath = false := by rw [hoptions, ← hplain]; rfl
  have habs : w'.options.absolute = false := by rw [hoptions, ← hplain]; rfl
  have hign' : w'.IgnoresBy decision := by rwa [IgnoresBy, hignored]
  have hisDir := ht.isDirectory (.inr hroot) hne
  rw [emitsSlashed_eq hnodir hreal habs hign' hout, hignored, ht.known]
  cases hdir : Oracle.isDirectory h.answer t.path with
  | false =>
    rw [ht.known, hdir] at hisDir
    rw [Bool.false_and, if_neg Bool.false_ne_true]
    split_ifs <;> simp [slashedResult, hisDir]
  | true =>
    rw [ht.known, hdir] at hisDir
    cases hig : w.ignored (spell t.out) true <;> simp [slashedResult, hisDir, hne]

theorem listsFirst_slash (segs : List Segment) :
    listsFirst (segs ++ [.empty]) = listsFirst segs := by
  induction segs with
  | nil => rfl
  | cons first rest ih =>
    cases first with
    | empty => exact ih
    | literal text name => rfl
    | magic text mode tokens => rfl
    | globstar => rfl

/-- Repeats are left out before slashes are put behind results as well as afterwards. -/
theorem eraseDups_filterMap_slashed (xs : List String) :
    (xs.filterMap (w.slashedResult h)).eraseDups =
      (xs.eraseDups.filter fun r => Oracle.isDirectory h.answer (Path.join w.cwd r)).map
        (· ++ "/") := by
  have hmap : xs.eraseDups.filterMap (w.slashedResult h) =
      (xs.eraseDups.filter fun r => Oracle.isDirectory h.answer (Path.join w.cwd r)).map
        (· ++ "/") := by
    rw [← List.filterMap_eq_map, List.filterMap_filter]
    rfl
  have hnodup : ((xs.eraseDups.filter fun r =>
      Oracle.isDirectory h.answer (Path.join w.cwd r)).map (· ++ "/")).Nodup :=
    ((nodup_eraseDups xs).filter _).map fun _ _ heq => (String.append_left_inj "/").mp heq
  rw [← eraseDups_filterMap, hmap, eraseDups_of_nodup hnodup]

/-! ## Two walks -/

structure Slashed (w w' : Walk) : Prop where
  ahead : w'.ahead = w.ahead ++ [.empty]
  root : w'.root = w.root
  start : w'.start = w.start
  options : w'.options = w.options
  ignored : w'.ignored = w.ignored

namespace Slashed

variable {w' : Walk}

theorem result_runOn_iff (hs : w.Slashed w') (hreal : w.options.realpath = false)
    (hnames : ∀ text name, .literal text name ∈ w.ahead → name ≠ "" ∧ hasNull name = false) :
    (w'.runOn h).result = .ok () ↔ (w.runOn h).result = .ok () := by
  have hempty := Cache.agrees_empty h.answer
  have hnames' : ∀ text name, .literal text name ∈ w'.ahead →
      name ≠ "" ∧ hasNull name = false := by
    intro text name hmem
    rw [hs.ahead, List.mem_append] at hmem
    exact hnames text name (hmem.resolve_right (by simp))
  have hcanon : w.Canonizes h.answer := canonizes_of_realpath hreal h.answer
  have hcanon' : w'.Canonizes h.answer := canonizes_of_realpath (hs.options ▸ hreal) h.answer
  have hslashed := outcome_script_iff hempty hnames' hcanon' le_rfl
  rw [hs.ahead, listsFirst_slash, hs.root] at hslashed
  exact hslashed.trans (outcome_script_iff hempty hnames hcanon le_rfl).symm

/-- With a slash behind, the directories among the results are found, each with a slash. -/
theorem paths_runOn (hs : w.Slashed w') (hplain : w.plain = w) (ha : w.alternative.Compiled)
    (hroot : w.alternative.root = "") (hlast : w.alternative.segments.getLast? ≠ some .empty)
    (htell : Telling h.answer) (hign : w.IgnoresBy decision) (hok : (w.runOn h).result = .ok ())
    (hok' : (w'.runOn h).result = .ok ()) :
    Event.paths (w'.runOn h).events =
      ((Event.paths (w.runOn h).events).filter fun r =>
        Oracle.isDirectory h.answer (Path.join w.cwd r)).map (· ++ "/") := by
  let depth := max (w.depthOn h .empty) (w'.depthOn h .empty)
  have hlike : w'.GoesLike w :=
    ⟨congrArg Options.follow hs.options.symm, congrArg Options.dot hs.options.symm,
      hs.ignored.symm⟩
  have hign' : w'.IgnoresBy decision := by rwa [IgnoresBy, hs.ignored]
  have hends : ∀ t ∈ w.ends h.answer w.ahead depth w.start,
      w'.emitsSlashed h.answer t = (w.emits h.answer t).bind (w.slashedResult h) := by
    intro t ht
    have hlays := lays_of_mem_ends ht
    exact emitsSlashed_eq_bind hplain hs.options hs.ignored hign hroot hlays
      (onRoute_of_relative ha hroot hlast htell (isDirectory_root_of_outcome hok) hlays)
  calc Event.paths (w'.runOn h).events
      = ((w'.ends h.answer (w.ahead ++ [.empty]) depth w.start).filterMap
          (w'.emits h.answer)).eraseDups := by
        rw [paths_runOn_of_le (le_max_right _ _) hok', hs.ahead, hs.start]
    _ = ((w.ends h.answer w.ahead depth w.start).filterMap
          (w'.emitsSlashed h.answer)).eraseDups := by
        rw [slashesAlike_ends htell hign' w.ahead depth w.start, ← hlike.ends w.ahead depth w.start]
    _ = (((w.ends h.answer w.ahead depth w.start).filterMap (w.emits h.answer)).filterMap
          (w.slashedResult h)).eraseDups := by
        rw [List.filterMap_filterMap, List.filterMap_congr hends]
    _ = _ := by
        rw [eraseDups_filterMap_slashed, paths_runOn_of_le (le_max_left _ _) hok]

end Slashed

end Walk

/-! ## Whole walks -/

namespace Glob

variable {o : Options} {a b : Alternative} {p : String}

theorem segments_of_parts_slash (ha : Pattern.compile o false 0 0 p = .ok [a])
    (hb : Pattern.compile o false 0 0 (p ++ "/") = .ok [b]) (hparts : b.parts = a.parts ++ [""]) :
    b.segments = a.segments ++ [.empty] := by
  rw [segments_eq_map_parts hb, hparts, List.map_append, ← segments_eq_map_parts ha]
  rfl

/-- A slash behind a relative alternative is one behind the segments that are walked. -/
theorem slashed_of_segments {w : Walk} (hcompiled : w.alternative.Compiled)
    (hb : Pattern.compile o false 0 0 p = .ok [b])
    (hsegs : b.segments = w.alternative.segments ++ [.empty]) (hroot : w.alternative.root = "")
    (hlast : w.alternative.segments.getLast? ≠ some .empty) :
    w.Slashed { w with alternative := b } := by
  obtain ⟨first, rest, hfirst, hne⟩ := Walk.exists_head hcompiled hroot hlast
  have hroot' : b.root = "" := root_of_segments hb (by rw [hsegs, hfirst]; rfl) hne
  have hwalkRoot : ({ w with alternative := b } : Walk).root = w.root := by
    simp [Walk.root, Alternative.isAbsolute, hroot, hroot']
  refine ⟨?_, hwalkRoot, ?_, rfl, rfl⟩
  · rw [Walk.ahead_of_relative hroot', Walk.ahead_of_relative hroot]
    exact hsegs
  · simp [Walk.start, hwalkRoot, Alternative.isAbsolute, hroot, hroot']

/-- Where all directories may be searched, the walk of a relative pattern with a slash behind it
fails if and only if the walk of the pattern does. Else it returns the directories that the walk
of the pattern returns, in the same order and each with a slash behind it. The pattern stands for
one alternative that does not end with a slash, and with a slash behind for its parts and an empty
one. -/
theorem paths_slash (w : Walk) (b : Alternative) (h : Host) (c c' : Cache) (p : String)
    (ha : Pattern.compile w.options false 0 0 p = .ok [w.alternative])
    (hb : Pattern.compile w.options false 0 0 (p ++ "/") = .ok [b])
    (hparts : b.parts = w.alternative.parts ++ [""]) (hroot : w.alternative.root = "")
    (hlast : w.alternative.segments.getLast? ≠ some .empty) (hnull : hasNull p = false)
    (hsearch : h.files.Searchable) (hc : c.Agrees h.answer) (hc' : c'.Agrees h.answer)
    (hmark : w.options.mark = false) (hnodir : w.options.nodir = false)
    (hreal : w.options.realpath = false) (habs : w.options.absolute = false)
    (decision : String → Bool → Bool) (hign : w.IgnoresBy decision) :
    let slashed : Walk := { w with alternative := b }
    ((slashed.run h c').result = .ok () ↔ (w.run h c).result = .ok ()) ∧
      ((w.run h c).result = .ok () → Event.paths (slashed.run h c').events =
        ((Event.paths (w.run h c).events).filter fun r =>
          Oracle.isDirectory h.answer (Path.join w.cwd r)).map (· ++ "/")) := by
  intro slashed
  have hcompiled := compiled_of_compile ha
  have hs : w.Slashed slashed :=
    slashed_of_segments hcompiled hb (segments_of_parts_slash ha hb hparts) hroot hlast
  have hnames := Walk.names_of_clean hcompiled (clean_of_compile hnull ha _ (by simp))
  have hresult : (slashed.runOn h).result = .ok () ↔ (w.runOn h).result = .ok () :=
    hs.result_runOn_iff hreal hnames
  rw [Walk.run_of_agrees w h hc, Walk.run_of_agrees slashed h hc']
  refine ⟨hresult, fun hok => ?_⟩
  exact hs.paths_runOn (Walk.plain_eq_self hmark hnodir hreal habs) hcompiled hroot hlast
    (Walk.telling_answer hsearch) hign hok (hresult.mpr hok)

/-- The file is left out, and the link is kept as the directory that it leads to. -/
theorem paths_slash_link :
    let w : Walk := ⟨Pattern.readAlternative {} false 0 0 "**".toList, {}, fun _ _ => false, "/"⟩
    let slashed : Walk :=
      { w with alternative := Pattern.readAlternative {} false 0 0 "**/".toList }
    Event.paths (w.run Walk.linkedHost .empty).events = ["d", "d/f", "l"] ∧
      (slashed.run Walk.linkedHost .empty).result = .ok () ∧
      Event.paths (slashed.run Walk.linkedHost .empty).events = ["d/", "l/"] := by
  intro w slashed
  have hempty := Cache.agrees_empty Walk.linkedHost.answer
  obtain ⟨-, hsearch⟩ := FileSystem.open_of_isOpen Walk.linkedHost.files (by decide +kernel)
  have ha : Pattern.compile w.options false 0 0 "**" = .ok [w.alternative] :=
    compile_eq_ok.mpr ⟨by decide, ["**".toList], by decide +kernel, rfl⟩
  have hb : Pattern.compile w.options false 0 0 ("**" ++ "/") = .ok [slashed.alternative] :=
    compile_eq_ok.mpr ⟨by decide, ["**/".toList], by decide +kernel, rfl⟩
  have hign : w.IgnoresBy fun _ _ => false := fun _ _ => (Bool.and_false _).symm
  have hlast : w.alternative.segments.getLast? ≠ some .empty := by
    have hsegs : w.alternative.segments = [.globstar] := rfl
    simp [hsegs]
  obtain ⟨hresult, hpaths⟩ := paths_slash w slashed.alternative Walk.linkedHost .empty .empty "**"
    ha hb (by decide +kernel) (by decide +kernel) hlast (by decide) hsearch hempty hempty rfl rfl
    rfl rfl _ hign
  have hok : (w.run Walk.linkedHost .empty).result = .ok () := by
    rw [Walk.run_of_agrees _ _ hempty]
    decide +kernel
  have hall : Event.paths (w.run Walk.linkedHost .empty).events = ["d", "d/f", "l"] := by
    rw [Walk.run_of_agrees _ _ hempty]
    decide +kernel
  refine ⟨hall, hresult.mpr hok, ?_⟩
  rw [hpaths hok, hall]
  decide +kernel

end Glob

end PathGlob
