import PathGlob.Proofs.Walk.Follow

/-!
# The reach of a followed globstar

A globstar that follows links chooses names along any way that lists in no directory twice. The
last name is chosen before the directory it may lead to is entered: so a directory that the way has
been through is reported once more, each time that a way comes back to it, and nothing in it is.
-/
namespace PathGlob

namespace Walk

variable {w : Walk} {o : Oracle} {rest segs : List Segment} {s t m : Spot} {e : Entry}

/-! ## Ways -/

/-- The names of entries, each in the directory before, that lead from a directory to a place; all
but the last are directories, be it by way of links. The names are listed in `through`. -/
inductive Winds (o : Oracle) (dot : Bool) :
    (dir : String) → List String → (place : String) → (through : List Identity) → Prop
  | last {dir : String} {e : Entry} {here : Identity} (chosen : Chosen o dot dir e)
      (listing : o.identity dir = some here) :
      Winds o dot dir [e.name.text] (Path.child dir e.name.text) [here]
  | down {dir place : String} {names : List String} {e : Entry} {here : Identity}
      {through : List Identity} (chosen : Chosen o dot dir e) (listing : o.identity dir = some here)
      (isDir : e.isDir = true) (more : Winds o dot (Path.child dir e.name.text) names place through) :
      Winds o dot dir (e.name.text :: names) place (here :: through)

/-- Some way of these names lists in no directory twice. -/
def Reaches (o : Oracle) (dot : Bool) (dir : String) (names : List String) (place : String) : Prop :=
  ∃ through, Winds o dot dir names place through ∧ through.Nodup

/-! ## One globstar -/

theorem offers_iff_of_follow (hf : w.options.follow = true) :
    w.Offers o s e ↔ Chosen o w.options.dot s.path e ∧
      ∃ here, o.identity s.path = some here ∧ here ∉ s.entered := by
  constructor
  · intro offered
    exact ⟨⟨offered.listed, offered.visible⟩, offered.fresh hf⟩
  · rintro ⟨⟨listed, visible⟩, fresh⟩
    exact ⟨fun _ => fresh, listed, visible⟩

theorem entered_enter {here : Identity} (hhere : o.identity s.path = some here) :
    (s.enter o).entered = here :: s.entered := by
  simp [Spot.enter, hhere]

theorem winds_of_sweeps (hw : w.Bare) (hf : w.options.follow = true) (htell : Telling o)
    (hsweep : w.Sweeps o rest s m) :
    (m.path = s.path ∧ m.out = s.out ∧ (s.out ≠ [] ∨ standsAlone rest = true)) ∨
      ∃ names through, Winds o w.options.dot s.path names m.path through ∧ through.Nodup ∧
        through.Disjoint s.entered ∧ m.out = s.out ++ names ∧
        (rest ≠ [] → o.isDirectory m.path = true) := by
  induction hsweep with
  | stay placed => exact .inl ⟨rfl, rfl, placed⟩
  | @last s e offered final goes =>
    obtain ⟨chosen, here, hhere, hfresh⟩ := (offers_iff_of_follow hf).mp offered
    refine .inr ⟨_, _, .last chosen hhere, List.nodup_singleton _, by simpa using hfresh, rfl,
      fun hne => ?_⟩
    have hdir := (goesOn_iff hw).mp goes hne
    exact (htell s.path e chosen.1).symm.trans hdir
  | @down s t e offered inner kept more ih =>
    obtain ⟨chosen, here, hhere, hfresh⟩ := (offers_iff_of_follow hf).mp offered
    have hdir : e.isDir = true := (Bool.and_eq_true_iff.mp inner).1
    rcases ih with ⟨hpath, hout, -⟩ | ⟨names, through, hwinds, hnodup, hapart, hout, hplace⟩
    · refine .inr ⟨[e.name.text], [here], ?_, List.nodup_singleton _, by simpa using hfresh, hout,
        fun _ => ?_⟩
      · rw [hpath]
        exact .last chosen hhere
      · rw [hpath]
        exact (htell s.path e chosen.1).symm.trans hdir
    · have hapart : through.Disjoint (here :: s.entered) := by
        rwa [← entered_enter hhere]
      obtain ⟨hhere', hapart⟩ := List.disjoint_cons_right.mp hapart
      refine .inr ⟨_, _, .down chosen hhere hdir hwinds, List.nodup_cons.mpr ⟨hhere', hnodup⟩,
        List.disjoint_cons_left.mpr ⟨hfresh, hapart⟩, ?_, hplace⟩
      rw [hout]
      exact List.append_assoc _ _ _

theorem sweeps_of_winds (hw : w.Bare) (hf : w.options.follow = true) (htell : Telling o)
    {path place : String} {names : List String} {through : List Identity}
    (hwinds : Winds o w.options.dot path names place through) (hnodup : through.Nodup)
    (hplace : rest ≠ [] → o.isDirectory place = true) (s : Spot) (hs : s.path = path)
    (hapart : through.Disjoint s.entered) :
    ∃ m, w.Sweeps o rest s m ∧ m.path = place ∧ m.out = s.out ++ names := by
  induction hwinds generalizing s with
  | @last path e here chosen listing =>
    subst hs
    have offered : w.Offers o s e :=
      (offers_iff_of_follow hf).mpr ⟨chosen, here, listing, by simpa using hapart⟩
    -- A globstar goes into a last directory, and stays there.
    cases hdir : e.isDir with
    | true =>
      refine ⟨_, .down offered (by simp [hdir, descends, hf]) (hw.ignored _ _) (.stay (.inl ?_)),
        rfl, rfl⟩
      simp [Spot.child]
    | false =>
      refine ⟨_, .last offered (by simp [hdir]) ((goesOn_iff hw).mpr fun hne => ?_), rfl, rfl⟩
      exact (htell s.path e chosen.1).trans (hplace hne)
  | @down path place names e here through chosen listing isDir more ih =>
    subst hs
    obtain ⟨hfresh, hapart⟩ := List.disjoint_cons_left.mp hapart
    obtain ⟨hhere, hnodup⟩ := List.nodup_cons.mp hnodup
    have inner : (e.isDir && w.descends e) = true := by simp [isDir, descends, hf]
    have hbelow : through.Disjoint (s.enter o).entered := by
      rw [entered_enter listing]
      exact List.disjoint_cons_right.mpr ⟨hhere, hapart⟩
    obtain ⟨m, hsweep, hpath, hout⟩ :=
      ih hnodup hplace ((s.enter o).child e.name.text (some e.isDir)) rfl hbelow
    refine ⟨m, .down ?_ inner (hw.ignored _ _) hsweep, hpath, ?_⟩
    · exact (offers_iff_of_follow hf).mpr ⟨chosen, here, listing, hfresh⟩
    · rw [hout]
      exact List.append_assoc _ _ _

/-! ## Whole walks -/

/-- No globstar is ahead, or one that nothing was entered before. -/
def Unentered (segs : List Segment) (s : Spot) : Prop :=
  globstars segs = 0 ∨ globstars segs = 1 ∧ s.entered = []

theorem guided_reaches (hw : w.Bare) (hf : w.options.follow = true) (htell : Telling o) :
    w.Guided o (Reaches o w.options.dot) Unentered where
  next {first rest s t} fit same := by
    have hcount := globstars_cons first rest
    unfold Unentered at fit ⊢
    cases first with
    | globstar => exact .inl (by simp_all [Segment.isGlobstar])
    | empty => simp_all [Segment.isGlobstar]
    | literal text name => simp_all [Segment.isGlobstar]
    | magic text mode tokens => simp_all [Segment.isGlobstar]
  leads _ hsweep := by
    rcases winds_of_sweeps hw hf htell hsweep with
      hstay | ⟨names, through, hwinds, hnodup, -, hout, hplace⟩
    · exact .inl hstay
    · exact .inr ⟨names, ⟨through, hwinds, hnodup⟩, hout, hplace⟩
  sweeps {rest s names place} fit way hplace := by
    obtain ⟨through, hwinds, hnodup⟩ := way
    have hentered : s.entered = [] := by
      have hcount : globstars (.globstar :: rest) = globstars rest + 1 := globstars_cons _ _
      rcases fit with hnone | ⟨-, hentered⟩
      · omega
      · exact hentered
    exact sweeps_of_winds hw hf htell hwinds hnodup hplace s rfl (by simp [hentered])

theorem unentered_start (hone : globstars w.alternative.segments = 1) :
    Unentered w.ahead w.start := by
  have hle : globstars w.ahead ≤ 1 := w.ahead_sublist.countP_le.trans hone.le
  rcases Nat.le_one_iff_eq_zero_or_eq_one.mp hle with hnone | hone
  · exact .inl hnone
  · exact .inr ⟨hone, rfl⟩

/-- On a file system that hides nothing a walk with one globstar, which follows links, fails only if
its root is no directory, and else reports, each once, exactly the paths that have a layout in which
the globstar lists in no directory twice. -/
theorem mem_paths_iff_reaches (w : Walk) (h : Host) (c : Cache) (ha : w.alternative.Compiled)
    (hroot : w.alternative.root = "/" ∨ w.alternative.root = "") (hclean : w.alternative.Clean)
    (hread : h.files.Readable) (hsearch : h.files.Searchable) (hc : c.Agrees h.answer)
    (hw : w.Bare) (hf : w.options.follow = true) (hone : globstars w.alternative.segments = 1) :
    ((w.run h c).result = .ok () ↔ Oracle.isDirectory h.answer w.root = true) ∧
      (Event.paths (w.run h c).events).Nodup ∧
      ∀ r, r ∈ Event.paths (w.run h c).events ↔
        Oracle.isDirectory h.answer w.root = true ∧ r ≠ "" ∧
          ∃ all, LaidOut h.answer (Reaches h.answer w.options.dot) w.ahead w.root w.beginning all ∧
            r = spell all := by
  rw [run_of_agrees w h hc]
  have hok : Oracle.isDirectory h.answer w.root = true → (w.runOn h).result = .ok () :=
    fun hdir => outcome_script_of_readable hread (Cache.agrees_empty _)
      (fun text name hmem => hclean text name (mem_segments_of_mem_ahead hmem)) hw.realpath hdir
      le_rfl
  have htell := telling_answer hsearch
  have hguide := guided_reaches hw hf htell
  have hstart := unentered_start hone
  refine ⟨⟨isDirectory_root_of_outcome, hok⟩, Event.nodup_paths _, fun r => ?_⟩
  constructor
  · intro hr
    have hfinds := Event.mem_paths.mp hr
    have hdir := isDirectory_root_of_finds hfinds
    obtain ⟨t, hlays, ht⟩ := (finds_script (hok hdir)).mp hfinds
    have hlaid := laidOut_of_lays hw htell hguide hlays hstart
    obtain ⟨hne, hr⟩ := (emits_of_laidOut hw hlaid).mp ht
    rw [start_out ha hroot] at hlaid
    exact ⟨hdir, hne, _, hlaid, hr⟩
  · rintro ⟨hdir, hne, all, hlaid, hr⟩
    obtain ⟨t, hlays, rfl⟩ :=
      lays_of_laidOut hw htell hguide hlaid w.start hstart rfl (start_out ha hroot)
    refine Event.mem_paths.mpr ((finds_script (hok hdir)).mpr ⟨t, hlays, ?_⟩)
    exact (emits_of_laidOut hw hlaid).mpr ⟨hne, hr⟩

/-- By way of the link the globstar comes back to where it began, and does not list there again. -/
theorem mem_paths_iff_reaches_loop :
    let w : Walk :=
      ⟨Pattern.readAlternative {} false 0 0 "**".toList, { follow := true }, fun _ _ => false, "/w"⟩
    (w.run loopHost .empty).result = .ok () ∧ "a/l" ∈ Event.paths (w.run loopHost .empty).events ∧
      ¬ ∃ place, Reaches loopHost.answer false "/w" ["a", "l", "a"] place := by
  intro w
  have hempty := Cache.agrees_empty loopHost.answer
  have hcompiled : w.alternative.Compiled :=
    Alternative.compiled_of_expand (by decide) (by decide +kernel) false 0 0
  obtain ⟨hread, hsearch⟩ := FileSystem.open_of_isOpen loopHost.files (by decide +kernel)
  obtain ⟨hresult, -, hpaths⟩ := mem_paths_iff_reaches w loopHost .empty hcompiled
    (.inr (by decide +kernel)) (by decide +kernel) hread hsearch hempty
    ⟨rfl, rfl, rfl, rfl, fun _ _ => rfl⟩ rfl (by decide +kernel)
  have hdir : Oracle.isDirectory loopHost.answer w.root = true := by decide +kernel
  refine ⟨hresult.mpr hdir, ?_, ?_⟩
  · have ha : Chosen loopHost.answer false "/w" ⟨⟨"a", by decide⟩, true, false⟩ :=
      ⟨by decide +kernel, by decide⟩
    have hl : Chosen loopHost.answer false "/w/a" ⟨⟨"l", by decide⟩, true, true⟩ :=
      ⟨by decide +kernel, by decide⟩
    have hreaches : Reaches loopHost.answer false "/w" ["a", "l"] "/w/a/l" :=
      ⟨[⟨.ofText "w", 1⟩, ⟨.ofText "w/a", 2⟩],
        .down ha (by decide +kernel) rfl (.last hl (by decide +kernel)), by decide⟩
    exact (hpaths "a/l").mpr
      ⟨hdir, by decide, ["a", "l"], .go hreaches (by simp) .nil, by decide +kernel⟩
  · rintro ⟨place, hreaches⟩
    have hmem := (hpaths "a/l/a").mpr
      ⟨hdir, by decide, ["a", "l", "a"], .go hreaches (by simp) .nil, by decide +kernel⟩
    rw [run_of_agrees _ _ hempty] at hmem
    revert hmem
    decide +kernel

end Walk

end PathGlob
