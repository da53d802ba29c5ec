import PathGlob.Proofs.Walk.Layout

/-!
# Following links

Globstars that follow links go into no directory twice on one way, be it for the same globstar or
for one behind it. So links may cost paths that are found without following them, but only such as
come twice by the same directory.
-/
namespace PathGlob

namespace Walk

def withFollow (w : Walk) (b : Bool) : Walk := { w with options := { w.options with follow := b } }

variable {w : Walk} {o : Oracle} {h : Host} {rest segs : List Segment} {s t m : Spot} {e : Entry}
  {r : String}

/-! ## Entered directories -/

theorem entered_suffix_of_sweeps (hsweep : w.Sweeps o rest s m) : s.entered <:+ m.entered := by
  have henter : ∀ (s : Spot) (name : String) (known : Option Bool),
      s.entered <:+ ((s.enter o).child name known).entered := fun s _ _ => List.suffix_append _ _
  induction hsweep with
  | stay placed => exact List.suffix_refl _
  | last offered final goes => exact henter _ _ _
  | down offered inner kept more ih => exact (henter _ _ _).trans ih

theorem entered_suffix_of_lays (hlays : w.Lays o segs s t) : s.entered <:+ t.entered := by
  induction hlays with
  | nil s => exact List.suffix_refl _
  | empty dir more ih => exact ih
  | literal there goes more ih => exact ih
  | magic listed accepted goes more ih => exact ih
  | globstar sweep more ih => exact (entered_suffix_of_sweeps sweep).trans ih

def Identified (o : Oracle) : Prop :=
  ∀ dir, ∀ e ∈ o.entries dir, ∃ i, o.identity dir = some i

theorem identified_answer (h : Host) : Identified h.answer :=
  fun _ _ he => Host.identity_of_entry he

/-- What is offered without following is offered with it, in a directory that is not entered yet. -/
theorem offers_following (hid : Identified o) (offered : (w.withFollow false).Offers o s e)
    (hnodup : (s.enter o).entered.Nodup) : (w.withFollow true).Offers o s e := by
  refine ⟨fun _ => ?_, offered.listed, offered.visible⟩
  obtain ⟨i, hi⟩ := hid s.path e offered.listed
  refine ⟨i, hi, ?_⟩
  simp only [Spot.enter, hi, Option.toList_some, List.singleton_append] at hnodup
  exact (List.nodup_cons.mp hnodup).1

/-- A globstar that follows links can choose the same names, if it enters no directory twice. Where
it goes into the last one, that may not be ignored. -/
theorem sweeps_following (hid : Identified o) (hsweep : (w.withFollow false).Sweeps o rest s m)
    (hnodup : m.entered.Nodup)
    (hkept : rest = [] → m.known = some true → w.ignored (spell m.out) true = false) :
    (w.withFollow true).Sweeps o rest s m := by
  induction hsweep with
  | stay placed => exact .stay placed
  | @last s e offered final goes =>
    have offered' := offers_following hid offered hnodup
    cases hdir : e.isDir with
    | false =>
      have hlast : (w.withFollow true).Sweeps o rest s _ := .last offered' (by simp [hdir]) goes
      rwa [hdir] at hlast
    | true =>
      -- The last name is that of a link, which is now gone into.
      rw [hdir] at goes hkept
      have kept : w.ignored (spell (s.out ++ [e.name.text])) true = false := by
        rcases goes with hnil | goes
        · exact hkept hnil rfl
        · exact goes.2
      have inner : (e.isDir && (w.withFollow true).descends e) = true := by
        simp [hdir, descends, withFollow]
      refine .down offered' inner kept ?_
      rw [hdir]
      exact .stay (.inl (by simp [Spot.child]))
  | @down s t e offered inner kept more ih =>
    have hsuffix := (entered_suffix_of_sweeps more).sublist
    have offered' := offers_following hid offered (hnodup.sublist hsuffix)
    have hdir : e.isDir = true := (Bool.and_eq_true_iff.mp inner).1
    exact .down offered' (by simp [hdir, descends, withFollow]) kept (ih hnodup hkept)

theorem lays_following (hid : Identified o) (hlays : (w.withFollow false).Lays o segs s t)
    (hnodup : t.entered.Nodup)
    (hkept : t.known = some true → w.ignored (spell t.out) true = false) :
    (w.withFollow true).Lays o segs s t := by
  induction hlays with
  | nil s => exact .nil s
  | empty dir more ih => exact .empty dir (ih hnodup hkept)
  | literal there goes more ih => exact .literal there goes (ih hnodup hkept)
  | magic listed accepted goes more ih => exact .magic listed accepted goes (ih hnodup hkept)
  | @globstar rest s m t sweep more ih =>
    have hsuffix := (entered_suffix_of_lays more).sublist
    refine .globstar (sweeps_following hid sweep (hnodup.sublist hsuffix) fun hnil hknown => ?_)
      (ih hnodup hkept)
    subst hnil
    obtain rfl := lays_nil_iff.mp more
    exact hkept hknown

theorem kept_of_emits (ht : w.emits o t = some r) (hknown : t.known = some true) :
    w.ignored (spell t.out) true = false := by
  have hdir : t.isDirectory o = true := by simp [Spot.isDirectory, hknown]
  unfold emits at ht
  rw [hdir] at ht
  split_ifs at ht with hempty hskip
  simp only [Bool.or_eq_true, not_or, Bool.not_eq_true] at hskip
  exact hskip.2

/-! ## One globstar -/

/-- All directories that were entered lie above the one that is reached. -/
structure Descended (o : Oracle) (s : Spot) : Prop where
  nodup : s.entered.Nodup
  above : ∀ i ∈ s.entered, ∀ here, o.identity s.path = some here →
    i.location.length < here.location.length

theorem Descended.of_nil (hs : s.entered = []) : Descended o s := by
  constructor
  · simp [hs]
  · simp [hs]

theorem Descended.nodup_enter (hs : Descended o s) : (s.enter o).entered.Nodup := by
  unfold Spot.enter
  cases hi : o.identity s.path with
  | none => exact hs.nodup
  | some i =>
    refine List.nodup_cons.mpr ⟨fun hmem => ?_, hs.nodup⟩
    exact lt_irrefl _ (hs.above i hmem i hi)

theorem Descended.child (hs : Descended h.answer s) (he : e ∈ Oracle.entries h.answer s.path)
    (hdir : e.isDir = true) (hlink : e.isLink = false) (known : Option Bool) :
    Descended h.answer ((s.enter h.answer).child e.name.text known) where
  nodup := hs.nodup_enter
  above i hi there hthere := by
    obtain ⟨here, hhere⟩ := Host.identity_of_entry he
    have hbelow : there.location = here.location ++ [e.name] :=
      Host.location_of_entry he hdir hlink hhere hthere
    rw [hbelow, List.length_append, List.length_singleton]
    simp only [Spot.child, Spot.enter, hhere, Option.toList_some, List.singleton_append,
      List.mem_cons] at hi
    rcases hi with rfl | hi
    · omega
    · have hlt := hs.above i hi here hhere
      omega

theorem nodup_entered_of_sweeps (hsweep : (w.withFollow false).Sweeps h.answer rest s m)
    (hs : Descended h.answer s) : m.entered.Nodup := by
  induction hsweep with
  | stay placed => exact hs.nodup
  | last offered final goes => exact hs.nodup_enter
  | @down s t e offered inner kept more ih =>
    obtain ⟨hdir, hdown⟩ := Bool.and_eq_true_iff.mp inner
    exact ih (hs.child offered.listed hdir (by simpa [descends, withFollow] using hdown) _)

theorem entered_of_lays (hlays : w.Lays o segs s t) (hnone : globstars segs = 0) :
    t.entered = s.entered := by
  induction hlays with
  | nil s => rfl
  | empty dir more ih => exact ih (by simpa [globstars_cons] using hnone)
  | literal there goes more ih => exact ih (by simpa [globstars_cons] using hnone)
  | magic listed accepted goes more ih =>
    exact ih (by simpa [globstars_cons] using hnone)
  | globstar sweep more ih => simp [globstars_cons] at hnone

/-- One globstar that follows no links goes down only, and so comes by no directory twice. -/
theorem nodup_entered_of_lays (hlays : (w.withFollow false).Lays h.answer segs s t)
    (hone : globstars segs ≤ 1) (hs : s.entered = []) : t.entered.Nodup := by
  induction hlays with
  | nil s => simp [hs]
  | empty dir more ih => exact ih (by simpa [globstars_cons] using hone) hs
  | literal there goes more ih => exact ih (by simpa [globstars_cons] using hone) hs
  | magic listed accepted goes more ih =>
    exact ih (by simpa [globstars_cons] using hone) hs
  | @globstar rest s m t sweep more ih =>
    have hnone : globstars rest = 0 := by
      have hcount : globstars (.globstar :: rest) = globstars rest + 1 := globstars_cons _ _
      omega
    rw [entered_of_lays more hnone]
    exact nodup_entered_of_sweeps sweep (.of_nil hs)

/-! ## Paths that stay -/

theorem hasNull_of_lays (hlays : w.Lays h.answer segs s t) :
    ∀ text name, .literal text name ∈ segs → hasNull name = false := by
  induction hlays with
  | nil s => simp
  | empty dir more ih => simpa using ih
  | @literal text name rest s t there goes more ih =>
    intro text' name' hmem
    rcases List.mem_cons.mp hmem with heq | hmem
    · cases heq
      by_contra hnull
      have hname : hasNull name = true := by simpa using hnull
      have hchild : hasNull (Path.child s.path name) = true := by
        rw [hasNull_child, hname, Bool.or_true]
      simp [Oracle.isThere, Host.answer, hchild] at there
    · exact ih text' name' hmem
  | magic listed accepted goes more ih => simpa using ih
  | globstar sweep more ih => simpa using ih

/-- Where all directories may be listed, a path that is found without following links is found with
it too, if some layout of it has its globstars enter no directory twice; and that is so if there is
at most one globstar. -/
theorem mem_paths_following (w : Walk) (h : Host) (c c' : Cache) (hread : h.files.Readable)
    (hc : c.Agrees h.answer) (hc' : c'.Agrees h.answer) (hreal : w.options.realpath = false)
    (r : String) (hoff : ((w.withFollow false).run h c).result = .ok ())
    (hr : r ∈ Event.paths ((w.withFollow false).run h c).events)
    (honce : globstars w.alternative.segments ≤ 1 ∨
      ∃ t, (w.withFollow false).Lays h.answer w.ahead w.start t ∧ w.emits h.answer t = some r ∧
        t.entered.Nodup) :
    ((w.withFollow true).run h c').result = .ok () ∧
      r ∈ Event.paths ((w.withFollow true).run h c').events := by
  rw [run_of_agrees _ h hc] at hoff hr
  have htrail : ∃ t, (w.withFollow false).Lays h.answer w.ahead w.start t ∧
      w.emits h.answer t = some r ∧ t.entered.Nodup := by
    rcases honce with hone | htrail
    · obtain ⟨t, hlays, ht⟩ := (finds_script hoff).mp (Event.mem_paths.mp hr)
      have hcount : globstars w.ahead ≤ 1 := by
        refine le_trans ?_ hone
        unfold ahead
        split
        · exact (List.drop_sublist 1 _).countP_le
        · exact le_rfl
      exact ⟨t, hlays, ht, nodup_entered_of_lays hlays hcount rfl⟩
    · exact htrail
  obtain ⟨t, hlays, ht, hnodup⟩ := htrail
  have hon : ((w.withFollow true).script ((w.withFollow true).depthOn h .empty)).outcome h.answer =
      .ok () :=
    outcome_script_of_readable (w := w.withFollow true) hread (Cache.agrees_empty _) (hasNull_of_lays hlays) hreal
      (isDirectory_root_of_outcome (w := w.withFollow false) hoff) le_rfl
  rw [run_of_agrees _ h hc']
  refine ⟨hon, Event.mem_paths.mpr ((finds_script hon).mpr ⟨t, ?_, ht⟩)⟩
  exact lays_following (identified_answer h) hlays hnodup (kept_of_emits ht)

/-- A link to a directory is found with following and without. -/
theorem mem_paths_following_link :
    let w : Walk := ⟨Pattern.readAlternative {} false 0 0 "**/f".toList, {}, fun _ _ => false, "/"⟩
    ((w.withFollow true).run linkedHost .empty).result = .ok () ∧
      "l/f" ∈ Event.paths ((w.withFollow true).run linkedHost .empty).events := by
  intro w
  have hempty := Cache.agrees_empty linkedHost.answer
  obtain ⟨hread, -⟩ := FileSystem.open_of_isOpen linkedHost.files (by decide +kernel)
  refine mem_paths_following w linkedHost .empty .empty hread hempty hempty rfl "l/f" ?_ ?_
    (.inl (by decide +kernel))
  · rw [run_of_agrees _ _ hempty]
    decide +kernel
  · rw [run_of_agrees _ _ hempty]
    decide +kernel

def loopHost : Host := ⟨FileSystem.empty.apply (.link (.ofText "w/a/l") ".."), "/w"⟩

/-- The first globstar goes into the working directory, so that the second does not go into it again
by way of the link. -/
theorem exists_lost_by_following :
    ¬ ∀ (w : Walk) (h : Host), w.alternative.Compiled → h.files.Readable → h.files.Searchable →
      w.options.realpath = false → w.options.absolute = false →
      ((w.withFollow false).run h .empty).result = .ok () →
      ∀ r ∈ Event.paths ((w.withFollow false).run h .empty).events,
        r ∈ Event.paths ((w.withFollow true).run h .empty).events := by
  intro hkeeps
  let w : Walk :=
    ⟨Pattern.readAlternative {} false 0 0 "**/l/**".toList, {}, fun _ _ => false, "/w"⟩
  have hempty := Cache.agrees_empty loopHost.answer
  obtain ⟨hread, hsearch⟩ := FileSystem.open_of_isOpen loopHost.files (by decide +kernel)
  have hoff : ((w.withFollow false).runOn loopHost).result = .ok () ∧
      Event.paths ((w.withFollow false).runOn loopHost).events = ["a/l", "a/l/a", "a/l/a/l"] := by
    decide +kernel
  have hon : Event.paths ((w.withFollow true).runOn loopHost).events = ["a/l"] := by
    decide +kernel
  have hlost := hkeeps w loopHost
    (Alternative.compiled_of_expand (by decide) (by decide +kernel) false 0 0) hread hsearch rfl rfl
  simp only [run_of_agrees _ _ hempty, hoff, hon] at hlost
  simpa using hlost trivial "a/l/a" (by simp)

end Walk

end PathGlob
