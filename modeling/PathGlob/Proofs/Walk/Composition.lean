import PathGlob.Proofs.FileSystem.Rooted
import PathGlob.Proofs.Pattern.Segments
import PathGlob.Proofs.Walk.Display

/-!
# Globstars in front

With a globstar in front, a walk goes to directories below its own, and goes on in each as it would
if it began there.
-/
namespace PathGlob.Walk

variable {w : Walk} {o : Oracle} {dot : Bool} {segs : List Segment} {path place s : String}
  {cs names done all more : List String}

/-! ## Layouts -/

def beginsWithName : List Segment → Bool
  | .literal .. :: _ => true
  | .magic .. :: _ => true
  | _ => false

theorem exists_of_beginsWithName (h : beginsWithName segs = true) :
    ∃ first rest, segs = first :: rest ∧ first ≠ .empty := by
  rcases segs with _ | ⟨first, rest⟩
  · cases h
  · refine ⟨first, rest, rfl, ?_⟩
    rintro rfl
    cases h

theorem ne_nil_of_leads (hleads : Leads o dot path names place) : names ≠ [] := by
  cases hleads <;> simp

/-- What is laid over segments does not depend on what is in front of it, unless a globstar comes
first: at the very beginning, that one may not stand for no names at all. -/
theorem Layout.shift (hlayout : Layout o dot segs path done all) :
    ∃ more, all = done ++ more ∧ ∀ done', beginsWithName segs = true ∨ done' ≠ [] →
      Layout o dot segs path done' (done' ++ more) := by
  induction hlayout with
  | nil => exact ⟨[], by simp, fun done' _ => by simpa using .nil⟩
  | @empty path done all rest dir _ ih =>
    obtain ⟨more, rfl, hmore⟩ := ih
    refine ⟨"" :: more, by simp, fun done' _ => .empty dir ?_⟩
    simpa using hmore (done' ++ [""]) (.inr (by simp))
  | @literal path text name done all rest there dir _ ih =>
    obtain ⟨more, rfl, hmore⟩ := ih
    refine ⟨name :: more, by simp, fun done' _ => .literal there dir ?_⟩
    simpa using hmore (done' ++ [name]) (.inr (by simp))
  | @magic path text mode tokens e done all rest listed accepted dir _ ih =>
    obtain ⟨more, rfl, hmore⟩ := ih
    refine ⟨e.name.text :: more, by simp, fun done' _ => .magic listed accepted dir ?_⟩
    simpa using hmore (done' ++ [e.name.text]) (.inr (by simp))
  | stay placed _ ih =>
    obtain ⟨more, rfl, hmore⟩ := ih
    refine ⟨more, rfl, fun done' hdone => ?_⟩
    have hne : done' ≠ [] := hdone.resolve_left (by simp [beginsWithName])
    exact .stay (.inl hne) (hmore done' (.inr hne))
  | @go path place names done all rest leads dir _ ih =>
    obtain ⟨more, rfl, hmore⟩ := ih
    refine ⟨names ++ more, by simp, fun done' hdone => .go leads dir ?_⟩
    have hne : done' ++ names ≠ [] := by simp [ne_nil_of_leads leads]
    simpa using hmore (done' ++ names) (.inr hne)

theorem standsAlone_of_beginsWithName (h : beginsWithName segs = true) :
    standsAlone segs = true := by
  obtain ⟨first, rest, rfl, hfirst⟩ := exists_of_beginsWithName h
  cases first <;> simp_all [standsAlone, Segment.isEmpty]

theorem layout_globstar_iff (hname : beginsWithName segs = true) :
    Layout o dot (.globstar :: segs) path [] all ↔ Layout o dot segs path [] all ∨
      ∃ names place more, Leads o dot path names place ∧ o.isDirectory place = true ∧
        Layout o dot segs place [] more ∧ all = names ++ more := by
  have hne : segs ≠ [] := by
    rintro rfl
    cases hname
  constructor
  · rintro (_ | _ | _ | _ | ⟨-, hmore⟩ | ⟨hleads, hdir, hmore⟩)
    · exact .inl hmore
    · obtain ⟨more, rfl, hshift⟩ := hmore.shift
      exact .inr ⟨_, _, more, hleads, hdir hne, hshift [] (.inl hname), rfl⟩
  · rintro (hlayout | ⟨names, place, more, hleads, hdir, hlayout, rfl⟩)
    · exact .stay (.inr (standsAlone_of_beginsWithName hname)) hlayout
    · obtain ⟨more, rfl, hshift⟩ := hlayout.shift
      exact .go hleads (fun _ => hdir) (hshift names (.inl hname))

/-- A globstar with a slash behind it stands for the directories below. -/
theorem layout_directories_iff :
    Layout o dot [.globstar, .empty] path [] all ↔ ∃ names place,
      Leads o dot path names place ∧ o.isDirectory place = true ∧ all = names ++ [""] := by
  constructor
  · rintro (_ | _ | _ | _ | ⟨placed, -⟩ | ⟨hleads, hdir, hmore⟩)
    · simp [standsAlone, Segment.isEmpty] at placed
    · cases hmore with
      | empty dir hlast =>
        cases hlast
        exact ⟨_, _, hleads, dir, rfl⟩
  · rintro ⟨names, place, hleads, hdir, rfl⟩
    exact .go hleads (fun _ => hdir) (.empty hdir .nil)

/-- What is laid over a name first is neither empty nor absolute. -/
theorem relative_of_layout (hname : beginsWithName segs = true)
    (hliteral : ∀ text name, .literal text name ∈ segs → name ≠ "" ∧ '/' ∉ name.toList)
    (hlayout : Layout o dot segs path [] all) :
    spell all ≠ "" ∧ Path.isAbsolute (spell all) = false := by
  have hfirst : ∃ c more, all = c :: more ∧ c ≠ "" ∧ '/' ∉ c.toList := by
    cases hlayout with
    | @literal _ text name _ _ rest there dir hmore =>
      obtain ⟨more, rfl, -⟩ := hmore.shift
      exact ⟨name, more, by simp, hliteral text name (by simp)⟩
    | @magic _ text mode tokens e _ _ rest listed accepted dir hmore =>
      obtain ⟨more, rfl, -⟩ := hmore.shift
      exact ⟨e.name.text, more, by simp, e.name.text_ne_empty, e.name.slash_not_mem⟩
    | nil => cases hname
    | empty => cases hname
    | stay => cases hname
    | go => cases hname
  obtain ⟨c, more, rfl, hc, hslash⟩ := hfirst
  exact ⟨Path.intercalate_ne_empty hc more, Path.not_isAbsolute_intercalate hc hslash more⟩

/-! ## Places -/

/-- Names that are gone down from a normal form lead to the normal form with the names. -/
theorem rooted_of_leads (hleads : Leads o dot path names place) (hn : Path.Normal s cs)
    (hpath : path = Path.rooted s cs) :
    (∀ c ∈ names, Path.EntryName c) ∧ place = Path.rooted s (cs ++ names) := by
  induction hleads generalizing cs with
  | @last path e chosen =>
    have hname := Path.entryName_name e.name
    rw [hpath, Path.child_rooted hn hname]
    exact ⟨by simpa using hname, rfl⟩
  | @down path place names e chosen isDir noLink more ih =>
    have hname := Path.entryName_name e.name
    have hn' : Path.Normal s (cs ++ [e.name.text]) := hn.append (by simpa using hname)
    rw [hpath] at ih
    obtain ⟨hnames, hplace⟩ := ih hn' (Path.child_rooted hn hname)
    refine ⟨List.forall_mem_cons.mpr ⟨hname, hnames⟩, ?_⟩
    rw [hplace, List.append_assoc, List.singleton_append]

/-! ## Results -/

/-- A path that is spelled in some way is reported in another: marked, or not at all if it is a
directory that is not wanted. -/
structure Shows (w : Walk) (o : Oracle) (rel r : String) : Prop where
  nonempty : rel ≠ ""
  wanted : (w.options.nodir && o.isDirectory (Path.join w.cwd rel)) = false
  shown : r = w.marked (o.isDirectory (Path.join w.cwd rel)) rel

/-- A walk returns the paths that are laid out from its directory. -/
def Returns (w : Walk) (o : Oracle) (r : String) : Prop :=
  ∃ all, Layout o w.options.dot w.alternative.segments w.cwd [] all ∧ w.Shows o (spell all) r

theorem styled_of_relative {h : Host} (hreal : w.options.realpath = false)
    (habs : w.options.absolute = false) (r : String) :
    w.styled h r = .ok (if w.options.nodir && Oracle.isDirectory h.answer (Path.join w.cwd r)
      then none else some (w.marked (Oracle.isDirectory h.answer (Path.join w.cwd r)) r)) := by
  simp only [styled, hreal, habs, Bool.false_and, Bool.false_eq_true, if_false]
  split_ifs <;> rfl

/-- On a file system that hides nothing, and without null characters, a walk fails only if it begins
at no directory. -/
theorem runOn_eq_ok_iff {h : Host} (hclean : w.alternative.Clean) (hread : h.files.Readable)
    (hreal : w.options.realpath = false) :
    (w.runOn h).result = .ok () ↔ Oracle.isDirectory h.answer w.root = true := by
  refine ⟨isDirectory_root_of_outcome, fun hdir => ?_⟩
  exact outcome_script_of_readable hread (Cache.agrees_empty _)
    (fun text name hmem => hclean text name (mem_segments_of_mem_ahead hmem)) hreal hdir le_rfl

/-- A plain walk that ignores nothing and follows no links reports what is laid out. -/
theorem mem_plain_iff_layout {h : Host} (ha : w.alternative.Compiled)
    (hroot : w.alternative.root = "/" ∨ w.alternative.root = "") (hsearch : h.files.Searchable)
    (hf : w.options.follow = false) (hign : ∀ path isDir, w.ignored path isDir = false)
    (hok : (w.plain.runOn h).result = .ok ()) {r : String} :
    r ∈ Event.paths (w.plain.runOn h).events ↔ r ≠ "" ∧ ∃ all,
      Layout h.answer w.options.dot w.ahead w.root w.beginning all ∧ r = spell all := by
  have hw : w.plain.Bare := ⟨rfl, rfl, rfl, rfl, hign⟩
  have htell := telling_answer hsearch
  have hout : w.plain.start.out = w.beginning := start_out (w := w.plain) ha hroot
  refine (Event.mem_paths.trans (finds_script hok)).trans ⟨?_, ?_⟩
  · rintro ⟨t, hlays, ht⟩
    have hlayout := layout_of_lays hw hf htell hlays
    obtain ⟨hne, hr⟩ := (emits_of_layout hw hlayout).mp ht
    rw [hout] at hlayout
    exact ⟨hne, _, hlayout, hr⟩
  · rintro ⟨hne, all, hlayout, hr⟩
    obtain ⟨t, hlays, rfl⟩ := lays_of_layout hw hf htell hlayout w.plain.start rfl hout
    exact ⟨t, hlays, (emits_of_layout hw hlayout).mpr ⟨hne, hr⟩⟩

/-- Where nothing is hidden, ignored, followed or displayed in another way, a relative walk fails
only if it begins at no directory, and else returns what is laid out. -/
theorem mem_paths_iff_returns {h : Host} {c : Cache} (ha : w.alternative.Compiled)
    (hroot : w.alternative.root = "") (hclean : w.alternative.Clean) (hread : h.files.Readable)
    (hsearch : h.files.Searchable) (hc : c.Agrees h.answer) (hf : w.options.follow = false)
    (hreal : w.options.realpath = false) (habs : w.options.absolute = false)
    (hign : ∀ path isDir, w.ignored path isDir = false) :
    ((w.run h c).result = .ok () ↔ Oracle.isDirectory h.answer w.cwd = true) ∧
      ((w.run h c).result = .ok () →
        ∀ r, r ∈ Event.paths (w.run h c).events ↔ w.Returns h.answer r) := by
  have hrel : w.alternative.isAbsolute = false := by simp [Alternative.isAbsolute, hroot]
  have hstart : w.root = w.cwd := by simp [root, hrel]
  have hnone : w.beginning = [] := by simp [beginning, hrel]
  have hahead : w.ahead = w.alternative.segments := by simp [ahead, hrel]
  rw [run_of_agrees w h hc]
  have hok := runOn_eq_ok_iff (w := w) hclean hread hreal
  refine ⟨by rw [hok, hstart], fun hrun r => ?_⟩
  have hplain := (result_iff_plain.mp hrun).1
  rw [paths_eq_styled ha (.inr hroot) hsearch hrun, List.mem_eraseDups, List.mem_filterMap]
  simp only [mem_plain_iff_layout ha (.inr hroot) hsearch hf hign hplain, hstart, hnone, hahead,
    styled_of_relative hreal habs, Except.toOption, Option.join_some]
  constructor
  · rintro ⟨rel, ⟨hne, all, hlayout, rfl⟩, hr⟩
    split_ifs at hr with hskip
    exact ⟨all, hlayout, hne, by simpa using hskip, by simpa [eq_comm] using hr⟩
  · rintro ⟨all, hlayout, hne, hskip, rfl⟩
    exact ⟨spell all, ⟨hne, all, hlayout, rfl⟩, by simp [hskip]⟩

/-! ## A globstar in front -/

theorem dirOnly_globstar {a b : Alternative} (hname : beginsWithName a.segments = true)
    (hb : b.segments = .globstar :: a.segments) : b.dirOnly = a.dirOnly := by
  unfold Alternative.dirOnly
  rw [hb]
  rcases hsegs : a.segments with _ | ⟨first, _ | ⟨second, rest⟩⟩
  · rw [hsegs] at hname
    cases hname
  · rw [hsegs] at hname
    cases first <;> first | rfl | cases hname
  · simp

/-- What is laid from a place below is spelled behind the names that lead there. -/
theorem spell_behind (hn : Path.Normal s cs) (hleads : Leads o dot (Path.rooted s cs) names place)
    (hmore : spell more ≠ "") (hrel : Path.isAbsolute (spell more) = false) :
    spell (names ++ more) = spell (names ++ [""]) ++ spell more ∧
      Path.join (Path.rooted s cs) (spell (names ++ more)) = Path.join place (spell more) := by
  have hnames := ne_nil_of_leads hleads
  have hne : more ≠ [] := by
    rintro rfl
    exact hmore rfl
  obtain ⟨hentries, hplace⟩ := rooted_of_leads hleads hn rfl
  constructor
  · rw [spell_append hnames, String.append_empty]
    exact Path.intercalate_append hnames hne
  · obtain ⟨first, others, rfl⟩ := List.exists_cons_of_ne_nil hnames
    have hfirst := hentries first (by simp)
    have habs : Path.isAbsolute (spell (first :: others ++ more)) = false :=
      Path.not_isAbsolute_intercalate hfirst.proper.ne_empty hfirst.slashless _
    rw [hplace, spell, Path.join_rooted hn (by simp) habs, spell,
      Path.join_rooted (hn.append hentries) hne hrel, List.append_assoc]

/-- Two walks that mark alike, of paths that lead to one place, behind one of which stands more. -/
theorem shows_append (w w' : Walk) (hdirOnly : w.alternative.dirOnly = w'.alternative.dirOnly)
    (hoptions : w.options = w'.options) {d rel : String} (hne : rel ≠ "")
    (hjoin : Path.join w.cwd (d ++ rel) = Path.join w'.cwd rel) {r : String} :
    w.Shows o (d ++ rel) r ↔ ∃ r', w'.Shows o rel r' ∧ r = d ++ r' := by
  have hends : Path.endsWithSlash (d ++ rel) = Path.endsWithSlash rel := by
    have hlast : rel.toList ≠ [] := by simpa using hne
    rw [Path.endsWithSlash, String.toList_append, List.getLast?_append_of_ne_nil _ hlast]
    rfl
  have hmarked : ∀ isDir, w.marked isDir (d ++ rel) = d ++ w'.marked isDir rel := by
    intro isDir
    unfold marked
    rw [hends, hdirOnly, hoptions]
    split_ifs
    · rw [String.append_assoc]
    · rfl
  constructor
  · rintro ⟨-, wanted, rfl⟩
    rw [hjoin, hoptions] at wanted
    exact ⟨_, ⟨hne, wanted, rfl⟩, by rw [hjoin, hmarked]⟩
  · rintro ⟨r', ⟨-, wanted, rfl⟩, rfl⟩
    exact ⟨by simp [hne], by rwa [hjoin, hoptions], by rw [hjoin, hmarked]⟩

/-- With a globstar in front, a walk returns what it returns without, and behind each directory that
the globstar goes to what the walk returns that begins there. -/
theorem returns_globstar_iff {b : Alternative} (ha : w.alternative.Compiled)
    (hname : beginsWithName w.alternative.segments = true)
    (hb : b.segments = .globstar :: w.alternative.segments) (hn : Path.Normal s cs)
    (hcwd : w.cwd = Path.rooted s cs) {r : String} :
    { w with alternative := b }.Returns o r ↔ w.Returns o r ∨
      ∃ names place, Leads o w.options.dot w.cwd names place ∧ o.isDirectory place = true ∧
        ∃ r', { w with cwd := place }.Returns o r' ∧ r = spell (names ++ [""]) ++ r' := by
  have hdirOnly := dirOnly_globstar hname hb
  -- What is laid out from here, and from a directory below.
  have hown : ∀ all, spell all ≠ "" →
      ({ w with alternative := b }.Shows o (spell all) r ↔ w.Shows o (spell all) r) := by
    intro all hne
    simpa using shows_append { w with alternative := b } w hdirOnly rfl (d := "") hne (by simp)
  have hbelow : ∀ {names place more}, Leads o w.options.dot w.cwd names place →
      Layout o w.options.dot w.alternative.segments place [] more →
      ({ w with alternative := b }.Shows o (spell (names ++ more)) r ↔
        ∃ r', { w with cwd := place }.Shows o (spell more) r' ∧
          r = spell (names ++ [""]) ++ r') := by
    intro names place more hleads hmore
    obtain ⟨hne, hrel⟩ := relative_of_layout hname (fun _ _ => ha.name_of_literal) hmore
    obtain ⟨hspell, hjoin⟩ := spell_behind hn (hcwd ▸ hleads) hne hrel
    rw [← hcwd, hspell] at hjoin
    rw [hspell]
    exact shows_append { w with alternative := b } { w with cwd := place } hdirOnly rfl hne hjoin
  unfold Returns
  simp only [hb, layout_globstar_iff hname]
  constructor
  · rintro ⟨all, hlayout | ⟨names, place, more, hleads, hdir, hmore, rfl⟩, hshows⟩
    · exact .inl ⟨all, hlayout, (hown all hshows.nonempty).mp hshows⟩
    · obtain ⟨r', hshows', rfl⟩ := (hbelow hleads hmore).mp hshows
      exact .inr ⟨names, place, hleads, hdir, r', ⟨more, hmore, hshows'⟩, rfl⟩
  · rintro (⟨all, hlayout, hshows⟩ | ⟨names, place, hleads, hdir, r', ⟨more, hmore, hshows⟩, hr⟩)
    · exact ⟨all, .inl hlayout, (hown all hshows.nonempty).mpr hshows⟩
    · exact ⟨_, .inr ⟨names, place, more, hleads, hdir, hmore, rfl⟩,
        (hbelow hleads hmore).mpr ⟨r', hshows, hr⟩⟩

/-- A globstar and a slash return the directories that the globstar goes to, with or without
marks. -/
theorem returns_directories_iff (hsegs : w.alternative.segments = [.globstar, .empty])
    (hnodir : w.options.nodir = false) {r : String} :
    w.Returns o r ↔ ∃ names place, Leads o w.options.dot w.cwd names place ∧
      o.isDirectory place = true ∧ r = spell (names ++ [""]) := by
  have hshows : ∀ {names}, names ≠ [] →
      (w.Shows o (spell (names ++ [""])) r ↔ r = spell (names ++ [""])) := by
    intro names hne
    have hmarked : ∀ isDir, w.marked isDir (spell (names ++ [""])) = spell (names ++ [""]) := by
      intro isDir
      simp [marked, endsWithSlash_spell hne]
    constructor
    · rintro ⟨-, -, rfl⟩
      exact hmarked _
    · rintro rfl
      exact ⟨by simp [spell_append hne], by simp [hnodir], (hmarked _).symm⟩
  unfold Returns
  simp only [hsegs, layout_directories_iff]
  constructor
  · rintro ⟨all, ⟨names, place, hleads, hdir, rfl⟩, hr⟩
    exact ⟨names, place, hleads, hdir, (hshows (ne_nil_of_leads hleads)).mp hr⟩
  · rintro ⟨names, place, hleads, hdir, hr⟩
    exact ⟨_, ⟨names, place, hleads, hdir, rfl⟩, (hshows (ne_nil_of_leads hleads)).mpr hr⟩

end PathGlob.Walk
