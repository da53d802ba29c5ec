import PathGlob.Proofs.Walk.Route

/-!
# What trails look up

A trail depends on what there is at paths and, where it chooses names, on what is listed. So it is
also a trail by another oracle that tells the same of every path and lists the names that are
chosen.
-/
namespace PathGlob.Walk

variable {w : Walk} {o o' : Oracle} {rest segs : List Segment} {s m t : Spot} {e : Entry}
  {all : List String}

/-! ## What listings do not matter for -/

theorem enter_of_same (hsame : o.SameStatus o') (s : Spot) : s.enter o' = s.enter o := by
  rw [Spot.enter, Spot.enter, hsame.identity]

theorem isDirectory_of_same (hsame : o.SameStatus o') (s : Spot) :
    s.isDirectory o' = s.isDirectory o := by
  rw [Spot.isDirectory, Spot.isDirectory, hsame.isDirectory]

theorem goesOn_of_same (hsame : o.SameStatus o') : w.GoesOn o' rest s ↔ w.GoesOn o rest s := by
  rw [GoesOn, GoesOn, isDirectory_of_same hsame]

theorem offers_of_same (hsame : o.SameStatus o') (offered : w.Offers o s e)
    (listed : e ∈ o'.entries s.path) : w.Offers o' s e where
  fresh hf := by
    rw [hsame.identity]
    exact offered.fresh hf
  listed := listed
  visible := offered.visible

theorem emits_of_same (hsame : o.SameStatus o')
    (hreal : w.options.realpath = true → ∀ p, o' (.realpath p) = o (.realpath p)) (t : Spot) :
    w.emits o' t = w.emits o t := by
  have hshown : ∀ path rel isDir, w.shown o' path rel isDir = w.shown o path rel isDir := by
    intro path rel isDir
    unfold shown
    split_ifs with hasked
    · rw [hreal hasked]
    · rfl
    · rfl
  simp only [emits, hshown, isDirectory_of_same hsame]

/-! ## Longer listings -/

theorem sweeps_mono (hsame : o.SameStatus o')
    (hmono : ∀ path e, e ∈ o.entries path → e ∈ o'.entries path) (hsweep : w.Sweeps o rest s t) :
    w.Sweeps o' rest s t := by
  induction hsweep with
  | stay placed => exact .stay placed
  | last offered final goes =>
    rw [← enter_of_same hsame] at goes ⊢
    exact .last (offers_of_same hsame offered (hmono _ _ offered.listed)) final
      ((goesOn_of_same hsame).mpr goes)
  | down offered inner kept more ih =>
    rw [← enter_of_same hsame] at ih
    exact .down (offers_of_same hsame offered (hmono _ _ offered.listed)) inner kept ih

/-- What is found by some listings is also found by listings with more entries. -/
theorem lays_mono (hsame : o.SameStatus o')
    (hmono : ∀ path e, e ∈ o.entries path → e ∈ o'.entries path) (hlays : w.Lays o segs s t) :
    w.Lays o' segs s t := by
  induction hlays with
  | nil s => exact .nil s
  | empty dir more ih =>
    rw [← hsame.isDirectory] at dir
    exact .empty dir ih
  | literal there goes more ih =>
    rw [← hsame.isThere] at there
    exact .literal there ((goesOn_of_same hsame).mpr goes) ih
  | magic listed accepted goes more ih =>
    exact .magic (hmono _ _ listed) accepted ((goesOn_of_same hsame).mpr goes) ih
  | globstar sweep more ih => exact .globstar (sweeps_mono hsame hmono sweep) ih

/-! ## Listings along the way -/

/-- The names on the way to some components that one oracle lists are also listed by the other. -/
def ListsAlong (w : Walk) (o o' : Oracle) (all : List String) : Prop :=
  ∀ out path e, w.Route o out path → e ∈ o.entries path → out ++ [e.name.text] <+: all →
    e ∈ o'.entries path

theorem sweeps_of_listsAlong (hsame : o.SameStatus o') (htell : Telling o)
    (hlists : w.ListsAlong o o' all) (hsweep : w.Sweeps o rest s m) (hs : w.OnRoute o s)
    (hdir : o.isDirectory s.path = true) (hall : m.out <+: all) : w.Sweeps o' rest s m := by
  induction hsweep with
  | stay placed => exact .stay placed
  | last offered final goes =>
    have listed := hlists _ _ _ hs.route offered.listed hall
    rw [← enter_of_same hsame] at goes ⊢
    exact .last (offers_of_same hsame offered listed) final ((goesOn_of_same hsame).mpr goes)
  | @down s m e offered inner kept more ih =>
    have houts : s.out ++ [e.name.text] <+: m.out := (out_of_sweeps more).1
    have listed := hlists _ _ _ hs.route offered.listed (houts.trans hall)
    have hchild := hs.entry htell hdir offered.listed
    have hinner : o.isDirectory (Path.child s.path e.name.text) = true :=
      hchild.known.symm.trans (Bool.and_eq_true_iff.mp inner).1
    have deeper := ih hchild hinner hall
    rw [← enter_of_same hsame] at deeper
    exact .down (offers_of_same hsame offered listed) inner kept deeper

/-- A trail is one by the other oracle too if that lists the names on its way. -/
theorem lays_of_listsAlong (hsame : o.SameStatus o') (htell : Telling o)
    (hlists : w.ListsAlong o o' t.out) (hlays : w.Lays o segs s t)
    (hnames : ∀ text name, .literal text name ∈ segs → name ≠ "" ∧ '/' ∉ name.toList)
    (hs : w.OnRoute o s) (hready : Ready o segs s) : w.Lays o' segs s t := by
  induction hlays with
  | nil s => exact .nil s
  | empty dir more ih =>
    obtain ⟨hnext, hready⟩ := underway_slash hs hready dir
    rw [← hsame.isDirectory] at dir
    exact .empty dir (ih hlists (names_of_cons hnames) hnext hready)
  | @literal text name rest s t there goes more ih =>
    obtain ⟨hne, hslash⟩ := hnames text name List.mem_cons_self
    obtain ⟨hnext, hready⟩ := underway_name hs hready hne hslash rfl goes
    rw [← hsame.isThere] at there
    exact .literal there ((goesOn_of_same hsame).mpr goes)
      (ih hlists (names_of_cons hnames) hnext hready)
  | magic listed accepted goes more ih =>
    obtain ⟨hnext, hready⟩ := underway_entry htell hs hready listed goes
    have listed' := hlists _ _ _ hs.route listed (out_of_lays more).1
    exact .magic listed' accepted ((goesOn_of_same hsame).mpr goes)
      (ih hlists (names_of_cons hnames) hnext hready)
  | globstar sweep more ih =>
    obtain ⟨hnext, hready'⟩ := underway_sweep htell hs hready sweep
    exact .globstar
      (sweeps_of_listsAlong hsame htell hlists sweep hs (hready.dir (by simp)) (out_of_lays more).1)
      (ih hlists (names_of_cons hnames) hnext hready')

end PathGlob.Walk
