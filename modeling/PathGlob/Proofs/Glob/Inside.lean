import PathGlob.Proofs.Glob.Composition
import PathGlob.Proofs.Glob.Escape
import PathGlob.Proofs.Walk.Descent

/-!
# Searching inside a directory

A search inside a directory with absolute results finds what a search finds for the pattern with the
escaped directory and a slash in front.
-/
namespace PathGlob

/-- Options under which backslashes escape, names are matched in their own case where they are given,
nothing is ignored, and nothing but matches is reported. -/
structure Options.Portable (o : Options) : Prop where
  nocase : o.nocase = false
  matchBase : o.matchBase = false
  nonull : o.nonull = false
  ignore : o.ignore.toList = []
  noEscape : o.noEscape = false

namespace Path

/-- The normal form of an absolute path that is not the root is a slash and names, if it does not
begin with two slashes. -/
theorem exists_rooted {p : String} (habs : isAbsolute p = true) (hnormal : normalize p = p)
    (hone : leadingSlashes p.toList = 1) (hroot : p ≠ "/") :
    ∃ names, names ≠ [] ∧ (∀ c ∈ names, EntryName c) ∧ p = rooted "/" names := by
  obtain ⟨s, names, hn, hp⟩ := exists_normal habs
  rw [hnormal] at hp
  have hrel : isAbsolute ("/".intercalate names) = false := by
    rcases names with _ | ⟨first, more⟩
    · rfl
    · have hfirst := hn.names first (by simp)
      exact not_isAbsolute_intercalate hfirst.proper.ne_empty hfirst.slashless more
  obtain rfl : s = "/" := by
    refine hn.slashes.resolve_right ?_
    rintro rfl
    rw [hp, rooted, leadingSlashes_slashes (.inr rfl) hrel] at hone
    cases hone
  refine ⟨names, ?_, hn.names, hp⟩
  rintro rfl
  exact hroot hp

end Path

namespace Glob

/-- A pattern that leads down from where it begins: it stands for one alternative, in which no name
is a dot or a double dot and no slash stands beside another or in front, and which is no bare
globstar, with or without a slash. -/
structure LeadsDown (o : Options) (p : String) (a : Alternative) : Prop where
  nonempty : p ≠ ""
  clean : hasNull p = false
  compile : Pattern.compile o false 0 0 p = .ok [a]
  dots : ∀ text name, .literal text name ∈ a.segments → name ≠ "." ∧ name ≠ ".."
  solid : .empty ∉ a.segments.dropLast
  star : a.parts ≠ [globstarText]
  stars : a.parts ≠ [globstarText, ""]

variable {o : Options} {h : Host} {c : Cache} {g : Glob} {a b d : Alternative} {p q dir : String}
  {names xs : List String}

/-! ## What a pattern of one alternative is read as -/

/-- A pattern that is not empty has an alternative that is not, if it has one only. -/
theorem segments_ne_empty (hp : p ≠ "") (ha : Pattern.compile o false 0 0 p = .ok [a]) :
    a.segments ≠ [.empty] := by
  intro hsegs
  obtain ⟨-, texts, hexpand, has⟩ := compile_eq_ok.mp ha
  obtain ⟨cs, rfl⟩ : ∃ cs, texts = [cs] := by
    have hlen := congrArg List.length has
    rw [List.length_mapIdx] at hlen
    exact List.length_eq_one_iff.mp hlen.symm
  have hread : a = Pattern.readAlternative o false 0 0 cs := by simpa using has
  obtain ⟨part, hsplit, hpart⟩ := List.map_eq_singleton_iff.mp (hread ▸ hsegs)
  rw [Pattern.readSegment_eq_empty.mp hpart] at hsplit
  obtain rfl := Pattern.eq_nil_of_splitParts hsplit
  unfold Pattern.expand at hexpand
  split at hexpand
  · exact hp (by simpa using hexpand)
  · split at hexpand
    next texts hbrace =>
      obtain rfl := Except.ok.inj hexpand
      exact Brace.expand_ne_empty _ hbrace
    · cases hexpand

theorem LeadsDown.describesName (hp : LeadsDown o p a) :
    Walk.describesName a.segments = true := by
  obtain ⟨cs, hread⟩ := read_of_compile hp.compile
  refine Walk.describesName_of_solid (compiled_of_compile hp.compile).segments_ne_nil hp.solid
    (segments_ne_empty hp.nonempty hp.compile) (fun hsegs => hp.star ?_)
    (fun hsegs => hp.stars ?_) (hread ▸ Pattern.segments_ne_globstars o false 0 0 cs)
  · rw [Alternative.parts, hsegs]
    rfl
  · rw [Alternative.parts, hsegs]
    rfl

theorem LeadsDown.root (hp : LeadsDown o p a) : a.root = "" := by
  obtain ⟨first, rest, hsegs⟩ :=
    List.exists_cons_of_ne_nil (compiled_of_compile hp.compile).segments_ne_nil
  refine root_of_segments hp.compile hsegs ?_
  rintro rfl
  have hdescribes := hp.describesName
  rw [hsegs] at hdescribes
  cases hdescribes

theorem LeadsDown.entryName (hp : LeadsDown o p a) {text name : String}
    (hmem : .literal text name ∈ a.segments) : Path.EntryName name := by
  obtain ⟨hne, hslash⟩ := (compiled_of_compile hp.compile).name_of_literal hmem
  obtain ⟨hdot, hdots⟩ := hp.dots text name hmem
  exact ⟨⟨hne, hdot, hdots⟩, hslash⟩

/-- An escaped path is read as its components. -/
theorem segments_of_compile_escape (hcase : o.nocase = false) (hdir : dir ≠ "")
    (hd : Pattern.compile o false 0 0 (Pattern.escape .backslash dir) = .ok [d]) :
    d.segments = (Path.components dir).map Segment.ofName := by
  obtain ⟨-, texts, hexpand, has⟩ := compile_eq_ok.mp hd
  obtain rfl : [(Pattern.escape .backslash dir).toList] = texts :=
    Except.ok.inj ((Pattern.expand_escape hdir).symm.trans hexpand)
  obtain rfl : d = .ofPath 0 0 dir := by
    simpa [Pattern.readAlternative_escape hcase] using has
  rfl

/-! ## Two searches -/

def inside (o : Options) (dir : String) : Options := { o with cwd := dir, absolute := true }

theorem portable_inside (ho : o.Portable) (dir : String) : (inside o dir).Portable := { ho with }

theorem make_of_compile {as : List Alternative} (ho : o.Portable)
    (hcompile : Pattern.compile o false 0 0 p = .ok as) :
    make o false [.text p] = .ok ⟨[p], o, as, .none⟩ := by
  rw [make_eq_ok, prepare_eq_self ho.noEscape ho.matchBase, fits_iff_eq_none ho.matchBase ho.ignore,
    settle_eq_self ho.noEscape]
  refine ⟨rfl, rfl, ?_⟩
  rw [compileAll, hcompile]
  simp [compileAll, bind, Except.bind, pure, Except.pure]

theorem search_eq_ok_of_singleton (hg : g.alternatives = [a]) (hc : c.Agrees h.answer) :
    (g.search h c).result = .ok xs ↔ ((g.walk h a).runOn h).result = .ok () ∧
      g.merge [Event.paths ((g.walk h a).runOn h).events] = xs := by
  rw [search, hg, walkAll, Walk.run_of_agrees _ _ hc]
  cases hrun : ((g.walk h a).runOn h).result with
  | error e => simp [Except.map]
  | ok u => simp [walkAll, Except.map]

/-- The directory in front of a pattern is read as the names on the way to it. -/
theorem segments_of_parts_append (hcase : o.nocase = false) (hne : names ≠ [])
    (hnames : ∀ c ∈ names, Path.EntryName c) (ha : Pattern.compile o false 0 0 p = .ok [a])
    (hd : Pattern.compile o false 0 0 (Pattern.escape .backslash (Path.rooted "/" names)) =
      .ok [d])
    (hb : Pattern.compile o false 0 0 q = .ok [b]) (hparts : b.parts = d.parts ++ a.parts) :
    b.segments = .empty :: (names.map Segment.ofName ++ a.segments) := by
  have hcomponents : Path.components (Path.rooted "/" names) = "" :: names := by
    rw [Path.rooted, Path.components_of_slash,
      Path.components_intercalate hne fun c hc => (hnames c hc).slashless]
  rw [segments_eq_map_parts hb, hparts, List.map_append, ← segments_eq_map_parts hd,
    ← segments_eq_map_parts ha, segments_of_compile_escape hcase (by simp [Path.rooted]) hd,
    hcomponents]
  rfl

/-- An alternative that begins with a slash, and goes on behind it, is absolute. -/
theorem root_of_slash {rest : List Segment} (hb : Pattern.compile o false 0 0 q = .ok [b])
    (hsegs : b.segments = .empty :: rest) (hrest : rest ≠ []) : b.root = "/" := by
  refine (root_of_compile hb).resolve_right fun hroot => ?_
  rcases (compiled_of_compile hb).head_of_relative hroot with hempty | hno
  · rw [hsegs] at hempty
    exact hrest (List.cons.inj hempty).2
  · exact hno rest hsegs

/-- One pattern is walked from the directory, and the other comes there by name. -/
theorem walks_inside (hp : LeadsDown o p a) (hne : names ≠ [])
    (hnames : ∀ c ∈ names, Path.EntryName c) (hb : Pattern.compile o false 0 0 q = .ok [b])
    (hsegs : b.segments = .empty :: (names.map Segment.ofName ++ a.segments)) (start : String) :
    (walkFrom (Path.rooted "/" names) (inside o (Path.rooted "/" names)) a).Inside
      (walkFrom start o b) names where
  relative := hp.root
  rooted := root_of_slash hb hsegs (by simp [hne])
  segments := hsegs
  cwd := rfl
  nonempty := hne
  entryNames := hnames
  literals _ _ hmem := hp.entryName hmem
  solid := hp.solid
  describes := hp.describesName
  like := ⟨rfl, rfl, rfl⟩
  ignored _ _ := rfl
  mark := rfl
  nodir := rfl
  realpath := rfl

theorem walk_unignored (ps : List String) (as : List Alternative) (a : Alternative) :
    (⟨ps, o, as, .none⟩ : Glob).walk h a = walkFrom (directory o h) o a := rfl

theorem directory_inside (habs : Path.isAbsolute dir = true) (hnormal : Path.normalize dir = dir) :
    directory (inside o dir) h = dir :=
  (directory_of_absolute (o := { o with absolute := true }) habs).trans hnormal

theorem merge_inside (hnull : o.nonull = false) (ps qs : List String) (as bs : List Alternative)
    (results : List (List String)) :
    (⟨ps, inside o dir, as, .none⟩ : Glob).merge results =
      (⟨qs, o, bs, .none⟩ : Glob).merge results := by
  simp [merge, nulls, inside, hnull]

/-- A search inside a directory with absolute results, and one for the pattern behind the escaped
directory and a slash, find the same in the same order. The directory can be listed, and its path is
a normal form that begins with one slash. Both searches return, unless a canonical form is refused
for a null character, which only the target of a link can bring in. -/
theorem search_inside (o : Options) (h : Host) (dir p : String) (a b d : Alternative)
    (ho : o.Portable) (habs : Path.isAbsolute dir = true) (hnormal : Path.normalize dir = dir)
    (hone : Path.leadingSlashes dir.toList = 1) (hroot : dir ≠ "/")
    (hlist : ∃ es, h.answer (.list dir) = .ok (.ok es)) (hp : LeadsDown o p a)
    (hd : Pattern.compile o false 0 0 (Pattern.escape .backslash dir) = .ok [d])
    (hb : Pattern.compile o false 0 0 (Pattern.escape .backslash dir ++ "/" ++ p) = .ok [b])
    (hparts : b.parts = d.parts ++ a.parts) :
    ∃ g g', make (inside o dir) false [.text p] = .ok g ∧
      make o false [.text (Pattern.escape .backslash dir ++ "/" ++ p)] = .ok g' ∧
      ∀ c c', c.Agrees h.answer → c'.Agrees h.answer →
        (∀ xs, (g.search h c).result = .ok xs ↔ (g'.search h c').result = .ok xs) ∧
        ((o.realpath = true → h.files.NullFree) → ∃ xs, (g.search h c).result = .ok xs) := by
  obtain ⟨names, hne, hnames, rfl⟩ := Path.exists_rooted habs hnormal hone hroot
  have hsegs := segments_of_parts_append ho.nocase hne hnames hp.compile hd hb hparts
  have hin := walks_inside hp hne hnames hb hsegs (directory o h)
  obtain ⟨es, hes⟩ := hlist
  have hdir := Host.isDirectory_of_listed hes
  have hclean := clean_of_compile hp.clean hp.compile a (by simp)
  obtain ⟨hresult, hpaths⟩ := hin.runOn_alike rfl hclean hdir ⟨es, hes⟩
  refine ⟨_, _, make_of_compile (portable_inside ho _) hp.compile, make_of_compile ho hb,
    fun c c' hc hc' => ?_⟩
  refine ⟨fun xs => ?_, fun hfree => ?_⟩
  · rw [search_eq_ok_of_singleton rfl hc, search_eq_ok_of_singleton rfl hc', walk_unignored,
      walk_unignored, directory_inside habs hnormal, hresult]
    refine and_congr_right fun hok => ?_
    rw [hpaths hok, merge_inside ho.nonull]
  · refine ⟨_, (search_eq_ok_of_singleton rfl hc).mpr ⟨?_, rfl⟩⟩
    rw [walk_unignored, directory_inside habs hnormal]
    exact hin.result_inside hclean hdir ⟨es, hes⟩ fun hreal _ hnull =>
      Host.exists_canonical (hfree hreal) hnull

def classHost : Host :=
  ⟨(FileSystem.empty.apply (.file (.ofText "[x]/f") [])).apply (.file (.ofText "x/g") []), "/x"⟩

/-- Inside the directory and behind its escaped name the same file is found. -/
theorem search_inside_class :
    ∃ g g', make (inside {} "/[x]") false [.text "*"] = .ok g ∧
      make {} false [.text "/\\[x\\]/*"] = .ok g' ∧
      (g.search classHost .empty).result = .ok ["/[x]/f"] ∧
      (g'.search classHost .empty).result = .ok ["/[x]/f"] := by
  have hempty := Cache.agrees_empty classHost.answer
  have hescape : Pattern.escape .backslash "/[x]" = "/\\[x\\]" := by decide
  have hportable : ({} : Options).Portable := ⟨rfl, rfl, rfl, rfl, rfl⟩
  have ha : Pattern.compile {} false 0 0 "*" = .ok [Pattern.readAlternative {} false 0 0 ['*']] :=
    compile_eq_ok.mpr ⟨by decide, [['*']], by decide +kernel, rfl⟩
  have hp : LeadsDown {} "*" (Pattern.readAlternative {} false 0 0 ['*']) :=
    { nonempty := by decide
      clean := by decide
      compile := ha
      dots := by
        rintro text name (_ | ⟨_, hno⟩)
        cases hno
      solid := List.not_mem_nil
      star := by decide +kernel
      stars := by decide +kernel }
  have hd : Pattern.compile {} false 0 0 "/\\[x\\]" =
      .ok [Pattern.readAlternative {} false 0 0 "/\\[x\\]".toList] :=
    compile_eq_ok.mpr ⟨by decide, ["/\\[x\\]".toList], by decide +kernel, rfl⟩
  have hb : Pattern.compile {} false 0 0 ("/\\[x\\]" ++ "/" ++ "*") =
      .ok [Pattern.readAlternative {} false 0 0 "/\\[x\\]/*".toList] :=
    compile_eq_ok.mpr ⟨by decide, ["/\\[x\\]/*".toList], by decide +kernel, rfl⟩
  have hlist : ∃ es, classHost.answer (.list "/[x]") = .ok (.ok es) := ⟨_, rfl⟩
  obtain ⟨g, g', hg, hg', hsame⟩ := search_inside {} classHost "/[x]" "*" _ _ _ hportable
    (by decide) (by decide) (by decide) (by decide) hlist hp (hescape ▸ hd) (hescape ▸ hb)
    (by decide +kernel)
  have hfound : (g.search classHost .empty).result = .ok ["/[x]/f"] := by
    obtain rfl := Except.ok.inj ((make_of_compile (portable_inside hportable _) ha).symm.trans hg)
    rw [search_of_agrees hempty]
    decide +kernel
  rw [hescape] at hg'
  exact ⟨g, g', hg, hg', hfound, ((hsame .empty .empty hempty hempty).1 _).mp hfound⟩

end Glob

end PathGlob
