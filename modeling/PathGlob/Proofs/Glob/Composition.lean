import PathGlob.Proofs.Glob.Merge
import PathGlob.Proofs.Pattern.Reread
import PathGlob.Proofs.Walk.Composition

/-!
# Patterns below

A pattern with a globstar and a slash in front finds what the pattern finds in the directory, and in
each directory below it that the globstar finds.
-/
namespace PathGlob

/-- Options under which a pattern is searched for below as it is here: links are not followed, and
matches are reported as they are spelled from the directory, all of them and nothing else. -/
structure Options.Composable (o : Options) : Prop where
  follow : o.follow = false
  realpath : o.realpath = false
  absolute : o.absolute = false
  nonull : o.nonull = false
  nounique : o.nounique = false
  matchBase : o.matchBase = false
  noglobstar : o.noglobstar = false
  ignore : o.ignore.toList = []
  noEscape : o.noEscape = false

def Options.unmarked (o : Options) : Options := { o with mark := false, nodir := false }

theorem Options.Composable.unmarked {o : Options} (ho : o.Composable) : o.unmarked.Composable :=
  { ho with }

namespace Glob

def below (o : Options) (h : Host) (d : String) : Options :=
  { o with cwd := Path.join (directory o h) d }

theorem composable_below {o : Options} (ho : o.Composable) (h : Host) (d : String) :
    (below o h d).Composable :=
  { ho with }

variable {o : Options} {h : Host} {a b : Alternative} {p q : String} {xs : List String}

/-! ## Reading a pattern of one alternative -/

theorem clean_of_compile {as : List Alternative} {drives : Bool} {i n : Nat}
    (hnull : hasNull p = false) (hcompile : Pattern.compile o drives i n p = .ok as) :
    ∀ a ∈ as, a.Clean := by
  obtain ⟨-, texts, hexpand, rfl⟩ := compile_eq_ok.mp hcompile
  have hlacks : '\x00' ∉ p.toList := by simpa [hasNull] using hnull
  intro a ha
  obtain ⟨k, hk, rfl⟩ := List.mem_mapIdx.mp ha
  exact Pattern.clean_readAlternative
    (Pattern.not_mem_of_expand Brace.foreign_null hlacks hexpand _ (List.getElem_mem hk)) _ _ _

theorem compiled_of_compile (hcompile : Pattern.compile o false 0 0 p = .ok [a]) : a.Compiled :=
  ⟨_, _, _, _, _, _, hcompile, List.mem_singleton_self a⟩

theorem read_of_compile (hcompile : Pattern.compile o false 0 0 p = .ok [a]) :
    ∃ cs, a = Pattern.readAlternative o false 0 0 cs := by
  obtain ⟨-, texts, -, has⟩ := compile_eq_ok.mp hcompile
  match texts with
  | [] => cases has
  | cs :: texts =>
    rw [List.mapIdx_cons] at has
    exact ⟨cs, (List.cons.inj has).1⟩

/-- Where there are no drives an absolute alternative begins at the root. -/
theorem root_of_compile (hcompile : Pattern.compile o false 0 0 p = .ok [a]) :
    a.root = "/" ∨ a.root = "" := by
  obtain ⟨cs, rfl⟩ := read_of_compile hcompile
  simp only [Pattern.readAlternative]
  unfold Pattern.rootOf
  split <;> simp [em]

/-- An alternative that does not begin with a slash is relative. -/
theorem root_of_segments {first : Segment} {rest : List Segment}
    (hcompile : Pattern.compile o false 0 0 p = .ok [a]) (hsegs : a.segments = first :: rest)
    (hfirst : first ≠ .empty) : a.root = "" := by
  refine (root_of_compile hcompile).resolve_left fun habs => ?_
  have hcompiled := compiled_of_compile hcompile
  obtain ⟨more, hmore⟩ := hcompiled.head_of_root habs
  rw [hsegs] at hmore
  exact hfirst (List.cons.inj hmore).1

theorem segments_eq_map_parts (hcompile : Pattern.compile o false 0 0 p = .ok [a]) :
    a.segments = a.parts.map fun part => Pattern.readSegment o part.toList := by
  obtain ⟨cs, rfl⟩ := read_of_compile hcompile
  exact Pattern.segments_readAlternative o false 0 0 cs

/-- What is read from the same parts is made of the same segments. -/
theorem segments_of_parts (ho : o.noglobstar = false)
    (ha : Pattern.compile o false 0 0 p = .ok [a]) (hb : Pattern.compile o false 0 0 q = .ok [b])
    (hparts : b.parts = globstarText :: a.parts) : b.segments = .globstar :: a.segments := by
  have hstar : Pattern.readSegment o globstarText.toList = .globstar := by
    have hchars : globstarText.toList = ['*', '*'] := rfl
    simp [hchars, Pattern.readSegment, Options.globstar, ho]
  rw [segments_eq_map_parts hb, hparts, List.map_cons, ← segments_eq_map_parts ha, hstar]

/-! ## Searching for a pattern of one alternative -/

def walkFrom (dir : String) (o : Options) (a : Alternative) : Walk := ⟨a, o, fun _ _ => false, dir⟩

theorem returns_core {w : Walk} {o : Oracle} {r : String} :
    w.core.Returns o r ↔ w.Returns o r := by
  have hshows : ∀ x, w.core.Shows o x r ↔ w.Shows o x r := fun x =>
    ⟨fun ⟨hne, hwanted, hr⟩ => ⟨hne, hwanted, hr⟩, fun ⟨hne, hwanted, hr⟩ => ⟨hne, hwanted, hr⟩⟩
  exact exists_congr fun all => and_congr_right fun _ => hshows _

theorem settle_eq_self (hno : o.noEscape = false) : settle o false = o := by
  have hwindows : o.windowsPathsNoEscape = false := by
    rw [Options.noEscape, Bool.or_eq_false_iff] at hno
    exact hno.1
  calc settle o false = { o with windowsPathsNoEscape := o.noEscape } := rfl
    _ = { o with windowsPathsNoEscape := false } := by rw [hno]
    _ = o := by rw [← hwindows]

theorem alternativesOf_of_compile (ho : o.Composable)
    (hcompile : Pattern.compile o false 0 0 p = .ok [a]) :
    Readable o false ([p].map .text) ∧ alternativesOf o false ([p].map .text) = [a] := by
  have hread : readings o false (.text p) = some [a] := by
    obtain ⟨cs, rfl⟩ := read_of_compile hcompile
    rw [readings, hcompile]
    rfl
  simp only [List.map_cons, List.map_nil, Readable, alternativesOf,
    prepare_eq_self ho.noEscape ho.matchBase, settle_eq_self ho.noEscape]
  simp [hread]

/-- A search for a relative pattern of one alternative fails only where there is no directory to
begin at, and else finds what the walk of the alternative returns. -/
theorem find_of_compile (ho : o.Composable) (hread : h.files.Readable)
    (hsearch : h.files.Searchable) (hclean : a.Clean) (hroot : a.root = "")
    (hcompile : Pattern.compile o false 0 0 p = .ok [a]) :
    (Oracle.isDirectory h.answer (directory o h) = false → find o false h [p] = none) ∧
      (Oracle.isDirectory h.answer (directory o h) = true → ∃ xs, find o false h [p] = some xs ∧
        ∀ r, r ∈ xs ↔ (walkFrom (directory o h) o a).Returns h.answer r) := by
  have hcompiled := compiled_of_compile hcompile
  obtain ⟨hreadable, halternatives⟩ := alternativesOf_of_compile ho hcompile
  have hwalk : (common o false .none).walk h a = walkFrom (directory o h) o a := by
    simp only [common, walk, settle_eq_self ho.noEscape]
    rfl
  obtain ⟨hok, hpaths⟩ := Walk.mem_paths_iff_returns (w := walkFrom (directory o h) o a) (h := h)
    (c := .empty) hcompiled hroot hclean hread hsearch (Cache.agrees_empty _) ho.follow ho.realpath
    ho.absolute fun _ _ => rfl
  have hsucceeds : (common o false .none).Succeeds h a ↔
      Oracle.isDirectory h.answer (directory o h) = true := by
    rw [Succeeds, hwalk, hok, walkFrom]
  constructor
  · intro hdir
    by_contra hfound
    obtain ⟨f, hf, -, hall⟩ := (find_ne_none ho.nounique).mp hfound
    obtain rfl := (fits_iff_eq_none ho.matchBase ho.ignore).mp hf
    have hyes := hsucceeds.mp (hall a (halternatives ▸ List.mem_singleton_self a))
    rw [hdir] at hyes
    cases hyes
  · intro hdir
    have hrun := hsucceeds.mpr hdir
    have hfound : find o false h [p] = some (arrange o ((common o false .none).harvest h [a])) := by
      have hfits : Fits o false .none := (fits_iff_eq_none ho.matchBase ho.ignore).mpr rfl
      refine (find_eq_some ho.nounique).mpr ⟨.none, hfits, hreadable, ?_, ?_⟩
      · simpa only [halternatives, List.forall_mem_singleton] using hrun
      · rw [halternatives]
    rw [Succeeds, hwalk] at hrun
    refine ⟨_, hfound, fun r => ?_⟩
    rw [mem_arrange, harvest_of_nonull _ ho.nonull, List.flatMap_singleton, pathsOf, hwalk,
      hpaths hrun]

/-! ## Directories below -/

theorem compile_directories (hstar : o.noglobstar = false) :
    ∃ a, Pattern.compile o false 0 0 "**/" = .ok [a] ∧ a.segments = [.globstar, .empty] ∧
      a.root = "" := by
  have hexpand : Pattern.expand o "**/" = .ok ["**/".toList] := by
    unfold Pattern.expand
    cases o.nobrace with
    | true => rfl
    | false => decide
  have hsplit : Pattern.splitParts o ['*', '*', '/'] = [['*', '*'], []] := by
    have hstar' : o.globstar = true := by simp [Options.globstar, hstar]
    rw [Pattern.splitParts, if_pos hstar']
    decide
  refine ⟨_, compile_eq_ok.mpr ⟨by decide, _, hexpand, rfl⟩, ?_, ?_⟩
  · simp [Pattern.readAlternative, hsplit, Pattern.readSegment, Options.globstar, hstar]
  · simp [Pattern.readAlternative, hsplit, Pattern.rootOf]

/-- Directories are given in normal form. -/
theorem directory_of_absolute (hp : Path.isAbsolute p = true) :
    directory { o with cwd := p } h = Path.normalize p := by
  simp only [directory, if_neg (Path.ne_empty_of_absolute hp), Path.absolute, Path.join, hp,
    if_true]

theorem exists_normal_directory (hcwd : Path.isAbsolute h.cwd = true) :
    ∃ s cs, Path.Normal s cs ∧ directory o h = Path.rooted s cs := by
  rw [directory, Path.absolute]
  exact Path.exists_normal (Path.isAbsolute_join hcwd _)

variable {names : List String} {place : String} {dot : Bool}

/-- The names that lead to a directory lead there also as a working directory. -/
theorem directory_below (hcwd : Path.isAbsolute h.cwd = true)
    (hleads : Walk.Leads h.answer dot (directory o h) names place) :
    directory (below o h (Walk.spell (names ++ [""]))) h = place := by
  obtain ⟨s, cs, hn, hdir⟩ := exists_normal_directory (o := o) hcwd
  obtain ⟨hentries, hplace⟩ := Walk.rooted_of_leads hleads hn hdir
  have hnames := Walk.ne_nil_of_leads hleads
  have hrel : Path.isAbsolute (Walk.spell (names ++ [""])) = false := by
    obtain ⟨first, others, rfl⟩ := List.exists_cons_of_ne_nil hnames
    have hfirst := hentries first (by simp)
    exact Path.not_isAbsolute_intercalate hfirst.proper.ne_empty hfirst.slashless _
  have hjoin : Path.join (directory o h) (Walk.spell (names ++ [""])) =
      Path.rooted s (cs ++ names ++ [""]) := by
    rw [hdir, List.append_assoc]
    exact Path.join_rooted hn (by simp) hrel
  have habs := Path.isAbsolute_rooted hn.slashes (cs ++ names ++ [""])
  rw [below, hjoin, directory_of_absolute habs, hplace]
  exact Path.normalize_rooted_slash (hn.append hentries) (by simp [hnames])

/-- The directories below are found by a globstar and a slash, each with a slash behind it. -/
theorem find_directories (ho : o.Composable) (hread : h.files.Readable)
    (hsearch : h.files.Searchable) :
    (Oracle.isDirectory h.answer (directory o h) = false →
        find o.unmarked false h ["**/"] = none) ∧
      (Oracle.isDirectory h.answer (directory o h) = true →
        ∃ dirs, find o.unmarked false h ["**/"] = some dirs ∧ ∀ d, d ∈ dirs ↔ ∃ names place,
          Walk.Leads h.answer o.dot (directory o h) names place ∧
            Oracle.isDirectory h.answer place = true ∧ d = Walk.spell (names ++ [""])) := by
  obtain ⟨a, hcompile, hsegs, hroot⟩ := compile_directories (o := o.unmarked) ho.noglobstar
  have hclean := clean_of_compile (by decide) hcompile a (by simp)
  obtain ⟨hnone, hfound⟩ := find_of_compile ho.unmarked hread hsearch hclean hroot hcompile
  have hcwd : o.unmarked.cwd = o.cwd := rfl
  have hsame : directory o.unmarked h = directory o h := by simp only [directory, hcwd]
  rw [hsame] at hnone hfound
  refine ⟨hnone, fun hdir => ?_⟩
  obtain ⟨dirs, hdirs, hmem⟩ := hfound hdir
  refine ⟨dirs, hdirs, fun d => ?_⟩
  rw [hmem, Walk.returns_directories_iff (w := walkFrom (directory o h) o.unmarked a) hsegs rfl]
  simp only [walkFrom]
  rfl

/-- In a directory below, a pattern is found by the walk that begins there. -/
theorem find_below (ho : o.Composable) (hcwd : Path.isAbsolute h.cwd = true)
    (hread : h.files.Readable) (hsearch : h.files.Searchable) (hclean : a.Clean)
    (hroot : a.root = "") (hcompile : Pattern.compile o false 0 0 q = .ok [a])
    (hleads : Walk.Leads h.answer dot (directory o h) names place)
    (hdir : Oracle.isDirectory h.answer place = true) :
    ∃ xs, find (below o h (Walk.spell (names ++ [""]))) false h [q] = some xs ∧
      ∀ r, r ∈ xs ↔ (walkFrom place o a).Returns h.answer r := by
  have hcompile' :
      Pattern.compile (below o h (Walk.spell (names ++ [""]))) false 0 0 q = .ok [a] := hcompile
  obtain ⟨-, hfound⟩ :=
    find_of_compile (composable_below ho h _) hread hsearch hclean hroot hcompile'
  rw [directory_below hcwd hleads] at hfound
  obtain ⟨xs, hxs, hmem⟩ := hfound hdir
  have hcore : (walkFrom place (below o h (Walk.spell (names ++ [""]))) a).core =
      (walkFrom place o a).core := rfl
  refine ⟨xs, hxs, fun r => ?_⟩
  rw [hmem, ← returns_core, hcore, returns_core]

/-- A pattern with a globstar and a slash in front finds what the pattern finds, and behind each
directory that the globstar finds what the pattern finds there. The pattern is relative, stands for
one alternative that begins with a name, and does so with the globstar in front. Nothing is found
if there is no directory to begin at, since then all searches fail. -/
theorem find_globstar (o : Options) (h : Host) (q : String) (a b : Alternative) (ho : o.Composable)
    (hcwd : Path.isAbsolute h.cwd = true) (hread : h.files.Readable)
    (hsearch : h.files.Searchable) (hnull : hasNull q = false)
    (ha : Pattern.compile o false 0 0 q = .ok [a])
    (hname : Walk.beginsWithName a.segments = true)
    (hb : Pattern.compile o false 0 0 ("**/" ++ q) = .ok [b])
    (hparts : b.parts = globstarText :: a.parts) :
    (Oracle.isDirectory h.answer (directory o h) = false →
      find o false h ["**/" ++ q] = none ∧ find o false h [q] = none ∧
        find o.unmarked false h ["**/"] = none) ∧
    (Oracle.isDirectory h.answer (directory o h) = true → ∃ all own dirs,
      find o false h ["**/" ++ q] = some all ∧ find o false h [q] = some own ∧
        find o.unmarked false h ["**/"] = some dirs ∧
        (∀ d ∈ dirs, (find (below o h d) false h [q]).isSome) ∧
        ∀ r, r ∈ all ↔ r ∈ own ∨ ∃ d ∈ dirs, ∃ found, find (below o h d) false h [q] = some found ∧
          ∃ r' ∈ found, r = d ++ r') := by
  have hsegs := segments_of_parts ho.noglobstar ha hb hparts
  have hcompiled := compiled_of_compile ha
  have hroot : a.root = "" := by
    obtain ⟨first, rest, hfirst, hne⟩ := Walk.exists_of_beginsWithName hname
    exact root_of_segments ha hfirst hne
  have hclean := clean_of_compile hnull ha a (by simp)
  have hroot' : b.root = "" := root_of_segments hb hsegs (by simp)
  have hclean' : b.Clean := by
    intro text name hmem
    rw [hsegs] at hmem
    exact hclean text name ((List.mem_cons.mp hmem).resolve_left (by simp))
  obtain ⟨hnone, hown⟩ := find_of_compile ho hread hsearch hclean hroot ha
  obtain ⟨hnone', hall⟩ := find_of_compile ho hread hsearch hclean' hroot' hb
  obtain ⟨hnone'', hdirs⟩ := find_directories ho hread hsearch
  refine ⟨fun hdir => ⟨hnone' hdir, hnone hdir, hnone'' hdir⟩, fun hdir => ?_⟩
  obtain ⟨own, hown, hmemOwn⟩ := hown hdir
  obtain ⟨all, hall, hmemAll⟩ := hall hdir
  obtain ⟨dirs, hdirs, hmemDirs⟩ := hdirs hdir
  have hbelow : ∀ {names place}, Walk.Leads h.answer o.dot (directory o h) names place →
      Oracle.isDirectory h.answer place = true →
      ∃ found, find (below o h (Walk.spell (names ++ [""]))) false h [q] = some found ∧
        ∀ r, r ∈ found ↔ (walkFrom place o a).Returns h.answer r := fun hleads hplace =>
    find_below ho hcwd hread hsearch hclean hroot ha hleads hplace
  refine ⟨all, own, dirs, hall, hown, hdirs, fun d hd => ?_, fun r => ?_⟩
  · obtain ⟨names, place, hleads, hplace, rfl⟩ := (hmemDirs d).mp hd
    obtain ⟨found, hfound, -⟩ := hbelow hleads hplace
    rw [hfound]
    rfl
  · obtain ⟨s, cs, hn, hnormal⟩ := exists_normal_directory (o := o) hcwd
    rw [hnormal] at hmemAll hmemOwn hmemDirs hbelow
    rw [hmemAll, hmemOwn]
    refine (Walk.returns_globstar_iff (w := walkFrom (Path.rooted s cs) o a) hcompiled hname hsegs
      hn rfl).trans (or_congr_right ?_)
    constructor
    · rintro ⟨names, place, hleads, hplace, r', hr', rfl⟩
      obtain ⟨found, hfound, hmem⟩ := hbelow hleads hplace
      exact ⟨_, (hmemDirs _).mpr ⟨names, place, hleads, hplace, rfl⟩, found, hfound, r',
        (hmem r').mpr hr', rfl⟩
    · rintro ⟨d, hd, found, hfound, r', hr', rfl⟩
      obtain ⟨names, place, hleads, hplace, rfl⟩ := (hmemDirs d).mp hd
      obtain ⟨found', hfound', hmem⟩ := hbelow hleads hplace
      obtain rfl := Option.some.inj (hfound.symm.trans hfound')
      exact ⟨names, place, hleads, hplace, r', (hmem r').mp hr', rfl⟩

/-- The link is found as a directory, and so is what the pattern finds there. -/
theorem find_globstar_link :
    let o : Options := { nosort := true }
    ∃ all, find o false Walk.linkedHost ["**/" ++ "*"] = some all ∧ "l/f" ∈ all := by
  intro o
  have hopen := FileSystem.open_of_isOpen Walk.linkedHost.files (by decide +kernel)
  have ha : Pattern.compile o false 0 0 "*" = .ok [Pattern.readAlternative o false 0 0 ['*']] :=
    compile_eq_ok.mpr ⟨by decide, [['*']], by decide +kernel, rfl⟩
  have hb : Pattern.compile o false 0 0 ("**/" ++ "*") =
      .ok [Pattern.readAlternative o false 0 0 "**/*".toList] :=
    compile_eq_ok.mpr ⟨by decide, ["**/*".toList], by decide +kernel, rfl⟩
  have hdirs : find o.unmarked false Walk.linkedHost ["**/"] = some ["d/", "l/"] := by
    rw [find_eq_searchOn]
    decide +kernel
  have hfound : find (below o Walk.linkedHost "l/") false Walk.linkedHost ["*"] = some ["f"] := by
    rw [find_eq_searchOn]
    decide +kernel
  obtain ⟨-, hall⟩ := find_globstar o Walk.linkedHost "*" _ _
    ⟨rfl, rfl, rfl, rfl, rfl, rfl, rfl, rfl, rfl⟩ (by decide) hopen.1 hopen.2 (by decide) ha
    (by decide +kernel) hb (by decide +kernel)
  obtain ⟨all, own, dirs, hall, -, hdirs', -, hmem⟩ := hall (by decide +kernel)
  obtain rfl := Option.some.inj (hdirs'.symm.trans hdirs)
  exact ⟨all, hall, (hmem "l/f").mpr (.inr ⟨"l/", by simp, ["f"], hfound, "f", by simp, rfl⟩)⟩

end Glob

end PathGlob
