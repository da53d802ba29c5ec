import PathGlob.Proofs.FileSystem.Spelling
import PathGlob.Proofs.Pattern.Segments

/-!
# Routes

A route goes from the root of a walk through directories, by names and by empty components. At the
end of a trail the components that are reported are a route to the path that was looked up, so that
they lead to the same place.
-/
namespace PathGlob.Walk

inductive Route (w : Walk) (o : Oracle) : List String → String → Prop
  | start : Route w o w.beginning w.root
  | slash {out : List String} {path : String} (before : Route w o out path) (placed : out ≠ [])
      (dir : o.isDirectory path = true) : Route w o (out ++ [""]) path
  | name {out : List String} {path name : String} (before : Route w o out path)
      (dir : o.isDirectory path = true) (nonempty : name ≠ "") (slashless : '/' ∉ name.toList) :
      Route w o (out ++ [name]) (Path.child path name)

structure OnRoute (w : Walk) (o : Oracle) (s : Spot) : Prop where
  route : w.Route o s.out s.path
  known : s.isDirectory o = o.isDirectory s.path

variable {w : Walk} {o : Oracle} {h : Host} {rest segs : List Segment} {s t m : Spot}
  {out : List String} {path : String}

/-! ## Trails follow routes -/

theorem OnRoute.entry (htell : Telling o) (hs : w.OnRoute o s) (hdir : o.isDirectory s.path = true)
    {e : Entry} (he : e ∈ o.entries s.path) :
    w.OnRoute o ((s.enter o).child e.name.text (some e.isDir)) :=
  ⟨.name hs.route hdir e.name.text_ne_empty e.name.slash_not_mem, htell s.path e he⟩

theorem isDirectory_of_goesOn (hs : w.OnRoute o s) (goes : w.GoesOn o rest s) (hne : rest ≠ []) :
    o.isDirectory s.path = true := by
  rcases goes with hnil | ⟨hdir, -⟩
  · exact absurd hnil hne
  · rw [← hs.known, hdir]

theorem onRoute_of_sweeps (htell : Telling o) (hsweep : w.Sweeps o rest s m)
    (hs : w.OnRoute o s) (hdir : o.isDirectory s.path = true) :
    w.OnRoute o m ∧ (rest ≠ [] → o.isDirectory m.path = true) ∧
      (m.out = [] → standsAlone rest = true) := by
  induction hsweep with
  | stay placed =>
    refine ⟨⟨hs.route, hdir.symm⟩, fun _ => hdir, fun hout => ?_⟩
    exact placed.resolve_left (absurd hout)
  | last offered final goes =>
    have hchild := hs.entry htell hdir offered.listed
    exact ⟨hchild, isDirectory_of_goesOn hchild goes, by simp [Spot.child]⟩
  | down offered inner kept more ih =>
    have hchild := hs.entry htell hdir offered.listed
    obtain ⟨hisDir, -⟩ := Bool.and_eq_true_iff.mp inner
    refine ih hchild ?_
    rw [← hchild.known]
    exact hisDir

/-- What is behind a spot may be laid there: it is a directory, and no slash comes first. -/
structure Ready (o : Oracle) (segs : List Segment) (s : Spot) : Prop where
  dir : segs ≠ [] → o.isDirectory s.path = true
  head : s.out = [] → ∀ rest, segs ≠ .empty :: rest

theorem underway_slash (hs : w.OnRoute o s) (hready : Ready o (.empty :: rest) s)
    (dir : o.isDirectory s.path = true) : w.OnRoute o s.slash ∧ Ready o rest s.slash :=
  ⟨⟨.slash hs.route (fun hout => hready.head hout rest rfl) dir, rfl⟩,
    fun _ => dir, by simp [Spot.slash]⟩

theorem underway_name {first : Segment} {name : String} {known : Option Bool}
    (hs : w.OnRoute o s) (hready : Ready o (first :: rest) s) (hne : name ≠ "")
    (hslash : '/' ∉ name.toList)
    (hknown : (s.child name known).isDirectory o = o.isDirectory (Path.child s.path name))
    (goes : w.GoesOn o rest (s.child name known)) :
    w.OnRoute o (s.child name known) ∧ Ready o rest (s.child name known) :=
  have hchild : w.OnRoute o (s.child name known) :=
    ⟨.name hs.route (hready.dir (by simp)) hne hslash, hknown⟩
  ⟨hchild, isDirectory_of_goesOn hchild goes, by simp [Spot.child]⟩

theorem underway_entry {first : Segment} {e : Entry} (htell : Telling o) (hs : w.OnRoute o s)
    (hready : Ready o (first :: rest) s) (listed : e ∈ o.entries s.path)
    (goes : w.GoesOn o rest (s.child e.name.text (some e.isDir))) :
    w.OnRoute o (s.child e.name.text (some e.isDir)) ∧
      Ready o rest (s.child e.name.text (some e.isDir)) :=
  underway_name hs hready e.name.text_ne_empty e.name.slash_not_mem (htell s.path e listed) goes

theorem underway_sweep (htell : Telling o) (hs : w.OnRoute o s)
    (hready : Ready o (.globstar :: rest) s) (sweep : w.Sweeps o rest s m) :
    w.OnRoute o m ∧ Ready o rest m := by
  obtain ⟨hm, hdir, hstands⟩ := onRoute_of_sweeps htell sweep hs (hready.dir (by simp))
  refine ⟨hm, hdir, ?_⟩
  rintro hout rest rfl
  have hno := hstands hout
  simp [standsAlone, Segment.isEmpty] at hno

theorem names_of_cons {first : Segment} {P : String → Prop}
    (hnames : ∀ text name, .literal text name ∈ first :: rest → P name) :
    ∀ text name, .literal text name ∈ rest → P name :=
  fun text name hmem => hnames text name (List.mem_cons_of_mem _ hmem)

theorem onRoute_of_lays (htell : Telling o) (hlays : w.Lays o segs s t)
    (hnames : ∀ text name, .literal text name ∈ segs → name ≠ "" ∧ '/' ∉ name.toList)
    (hs : w.OnRoute o s) (hready : Ready o segs s) : w.OnRoute o t := by
  induction hlays with
  | nil => exact hs
  | empty dir more ih =>
    obtain ⟨hnext, hready⟩ := underway_slash hs hready dir
    exact ih (names_of_cons hnames) hnext hready
  | @literal text name rest s t there goes more ih =>
    obtain ⟨hne, hslash⟩ := hnames text name List.mem_cons_self
    obtain ⟨hnext, hready⟩ := underway_name hs hready hne hslash rfl goes
    exact ih (names_of_cons hnames) hnext hready
  | magic listed accepted goes more ih =>
    obtain ⟨hnext, hready⟩ := underway_entry htell hs hready listed goes
    exact ih (names_of_cons hnames) hnext hready
  | globstar sweep more ih =>
    obtain ⟨hnext, hready⟩ := underway_sweep htell hs hready sweep
    exact ih (names_of_cons hnames) hnext hready

/-! ## Where routes lead -/

theorem Route.slash_not_mem (hr : w.Route o out path) : ∀ c ∈ out, '/' ∉ c.toList := by
  induction hr with
  | start =>
    unfold beginning
    split <;> simp
  | slash before placed dir ih => simpa [or_imp, forall_and] using ih
  | name before dir nonempty slashless ih =>
    intro c hc
    rcases List.mem_append.mp hc with hc | hc
    · exact ih c hc
    · rw [List.mem_singleton.mp hc]
      exact slashless

theorem Route.components_spell (hr : w.Route o out path) (hne : out ≠ []) :
    Path.components (spell out) = out := Path.components_intercalate hne hr.slash_not_mem

theorem beginning_cases (hroot : w.alternative.root = "/" ∨ w.alternative.root = "") :
    (w.root = "/" ∧ w.beginning = [""]) ∨ (w.root = w.cwd ∧ w.beginning = []) := by
  unfold root beginning Alternative.isAbsolute
  rcases hroot with hroot | hroot <;> simp [hroot]

theorem Route.path_of_beginning (hr : w.Route o out path) (hbegin : out = w.beginning) :
    path = w.root := by
  have hlast : ∀ xs c, xs ++ [c] = w.beginning → xs = [] ∧ c = "" := by
    intro xs c heq
    unfold beginning at heq
    split at heq
    · simpa [List.append_eq_singleton_iff] using heq
    · simp at heq
  cases hr with
  | start => rfl
  | slash before placed dir => exact absurd (hlast _ _ hbegin).1 placed
  | name before dir nonempty slashless => exact absurd (hlast _ _ hbegin).2 nonempty

/-- A component behind the beginning is looked up in the root. -/
theorem join_spell_beginning (hroot : w.alternative.root = "/" ∨ w.alternative.root = "")
    (hne : w.root ≠ "") {name : String} (hname : '/' ∉ name.toList) :
    Path.join w.cwd (spell (w.beginning ++ [name])) = Path.child w.root name := by
  rcases beginning_cases hroot with ⟨hslash, hbegin⟩ | ⟨hcwd, hbegin⟩
  · have hspell : spell ([""] ++ [name]) = "/" ++ name := by
      rw [spell_append (by simp)]
      simp [spell]
    rw [hbegin, hslash, hspell]
    simp [Path.join, Path.isAbsolute, Path.child, Path.endsWithSlash]
  · rw [hcwd] at hne ⊢
    rw [hbegin, ← Path.join_name hne hname]
    simp [spell]

/-- Behind the beginning a route is the path that is looked up in another spelling. -/
theorem Route.alike (hr : w.Route h.answer out path)
    (hroot : w.alternative.root = "/" ∨ w.alternative.root = "") (hne : out ≠ w.beginning) :
    spell out ≠ "" ∧ h.Alike (Path.join w.cwd (spell out)) path := by
  induction hr with
  | start => exact absurd rfl hne
  | @slash out path before placed dir ih =>
    by_cases hbegin : out = w.beginning
    · obtain rfl := before.path_of_beginning hbegin
      obtain ⟨hslash, hb⟩ := (beginning_cases hroot).resolve_right fun ⟨_, hnil⟩ =>
        placed (hbegin.trans hnil)
      have hchild : Path.child "/" "" = "/" := rfl
      rw [hbegin, join_spell_beginning hroot (by simp [hslash]) (by simp), hslash, hchild, hb]
      exact ⟨by decide, .refl (by simp)⟩
    · obtain ⟨hsp, ha⟩ := ih hbegin
      rw [spell_append placed, String.append_empty, Path.join_append hsp]
      exact ⟨by simp, ha.slash dir⟩
  | @name out path name before dir nonempty slashless ih =>
    by_cases hbegin : out = w.beginning
    · obtain rfl := before.path_of_beginning hbegin
      obtain ⟨-, loc, access, hloc, -⟩ := Host.isDirectory_answer.mp dir
      have hspell : spell (w.beginning ++ [name]) ≠ "" := by
        rcases beginning_cases hroot with ⟨-, hb⟩ | ⟨-, hb⟩ <;> simp [hb, spell, nonempty]
      rw [hbegin, ← join_spell_beginning hroot (Host.ne_empty_of_locate hloc) slashless]
      exact ⟨hspell, .refl (Path.join_ne_empty hspell)⟩
    · obtain ⟨hsp, ha⟩ := ih hbegin
      have hout : out ≠ [] := by
        rintro rfl
        exact hsp rfl
      have hjoin : Path.join w.cwd (spell out ++ "/" ++ name) =
          Path.join w.cwd (spell out) ++ "/" ++ name := by
        rw [String.append_assoc, Path.join_append hsp, String.append_assoc]
      rw [spell_append hout, hjoin]
      exact ⟨by simp, ha.child dir slashless⟩

/-! ## Whole walks -/

theorem spell_beginning (w : Walk) : spell w.beginning = "" := by
  unfold beginning
  split <;> rfl

theorem ne_beginning_of_spell (hne : spell out ≠ "") : out ≠ w.beginning :=
  fun hout => hne (by rw [hout, spell_beginning])

theorem onRoute_start (ha : w.alternative.Compiled)
    (hroot : w.alternative.root = "/" ∨ w.alternative.root = "") : w.OnRoute o w.start :=
  ⟨by rw [start_out ha hroot]; exact .start, rfl⟩

theorem names_ahead (ha : w.alternative.Compiled) :
    ∀ text name, .literal text name ∈ w.ahead → name ≠ "" ∧ '/' ∉ name.toList :=
  fun _ _ hmem => ha.name_of_literal (mem_segments_of_mem_ahead hmem)

/-- Where a walk reports something, its segments may be laid at the root: a relative alternative
that begins with a slash is empty, and so is what it finds. -/
theorem ready_start (ha : w.alternative.Compiled)
    (hroot : w.alternative.root = "/" ∨ w.alternative.root = "")
    (hdir : o.isDirectory w.root = true) (hlays : w.Lays o w.ahead w.start t)
    (hne : spell t.out ≠ "") : Ready o w.ahead w.start := by
  refine ⟨fun _ => hdir, fun hnil rest hrest => ?_⟩
  have hrelative : w.alternative.root = "" := by
    refine hroot.resolve_left fun hslash => ?_
    rw [start_out ha hroot] at hnil
    simp [beginning, Alternative.isAbsolute, hslash] at hnil
  have hahead : w.ahead = w.alternative.segments := by
    simp [ahead, Alternative.isAbsolute, hrelative]
  rcases ha.head_of_relative hrelative with hsegs | hno
  · rw [hahead, hsegs] at hlays
    cases hlays with
    | empty dir more =>
      obtain rfl := lays_nil_iff.mp more
      simp [Spot.slash, hnil, spell] at hne
  · exact hno rest (hahead ▸ hrest)

/-- What a walk reports comes from the end of a route. -/
theorem onRoute_of_lays_start (htell : Telling o) (ha : w.alternative.Compiled)
    (hroot : w.alternative.root = "/" ∨ w.alternative.root = "")
    (hdir : o.isDirectory w.root = true) (hlays : w.Lays o w.ahead w.start t)
    (hne : spell t.out ≠ "") : w.OnRoute o t :=
  onRoute_of_lays htell hlays (names_ahead ha) (onRoute_start ha hroot)
    (ready_start ha hroot hdir hlays hne)

theorem OnRoute.components_spell (ht : w.OnRoute o t) (hne : spell t.out ≠ "") :
    Path.components (spell t.out) = t.out := by
  refine ht.route.components_spell fun hnil => hne ?_
  rw [hnil]
  rfl

/-- What is reported leads to a directory if the walk takes it for one. -/
theorem OnRoute.isDirectory (ht : w.OnRoute h.answer t)
    (hroot : w.alternative.root = "/" ∨ w.alternative.root = "") (hne : spell t.out ≠ "") :
    Oracle.isDirectory h.answer (Path.join w.cwd (spell t.out)) = t.isDirectory h.answer := by
  rw [ht.known, (ht.route.alike hroot (ne_beginning_of_spell hne)).2.isDirectory]

theorem exists_of_lays_empty (hlays : w.Lays o segs s t) (hlast : segs.getLast? = some .empty) :
    ∃ xs, t.out = xs ++ [""] := by
  induction hlays with
  | nil => cases hlast
  | @empty rest s t dir more ih =>
    by_cases hne : rest = []
    · subst hne
      obtain rfl := lays_nil_iff.mp more
      exact ⟨s.out, rfl⟩
    · exact ih (by rwa [List.getLast?_cons_of_ne_nil hne] at hlast)
  | @literal text name rest s t there goes more ih =>
    by_cases hne : rest = []
    · simp [hne] at hlast
    · exact ih (by rwa [List.getLast?_cons_of_ne_nil hne] at hlast)
  | @magic text mode tokens rest s t e listed accepted goes more ih =>
    by_cases hne : rest = []
    · simp [hne] at hlast
    · exact ih (by rwa [List.getLast?_cons_of_ne_nil hne] at hlast)
  | @globstar rest s m t sweep more ih =>
    by_cases hne : rest = []
    · simp [hne] at hlast
    · exact ih (by rwa [List.getLast?_cons_of_ne_nil hne] at hlast)

theorem marked_of_lays (hmark : w.options.mark = false) (hlays : w.Lays o w.ahead s t)
    (hne : spell t.out ≠ "") (isDir : Bool) : w.marked isDir (spell t.out) = spell t.out :=
  marked_of_ends hmark (exists_of_lays_empty hlays) hne isDir

end PathGlob.Walk
