import PathGlob.Proofs.Walk.Composition
import PathGlob.Proofs.Walk.Names

/-!
# Walks inside a directory

A walk that begins in a directory and one that comes there from the root by name go on alike. Where
the first shows absolute results both report the same, since a normal form of the directory and what
is found inside is what is spelled on the way from the root.
-/
namespace PathGlob

def Spot.behind (front : List String) (s : Spot) : Spot := { s with out := front ++ s.out }

theorem Spot.behind_child (front : List String) (s : Spot) (name : String) (known : Option Bool) :
    (s.behind front).child name known = (s.child name known).behind front := by
  simp [behind, child]

theorem Spot.behind_slash (front : List String) (s : Spot) :
    (s.behind front).slash = s.slash.behind front := by
  simp [behind, slash]

namespace Walk

variable {w w' : Walk} {o : Oracle} {h : Host} {rest segs : List Segment} {s t m : Spot}
  {depth : Nat} {front names cs : List String} {next : Spot → List Spot}

/-! ## Components in front -/

def describesName : List Segment → Bool
  | [] => false
  | .empty :: _ => false
  | .globstar :: rest => describesName rest
  | .literal .. :: _ => true
  | .magic .. :: _ => true

theorem standsAlone_of_describesName (h : describesName segs = true) :
    standsAlone segs = true := by
  rcases segs with _ | ⟨first, rest⟩
  · cases h
  · cases first with
    | empty => cases h
    | literal text name => rfl
    | magic text mode tokens => rfl
    | globstar => rfl

/-- A spot that is no bare working directory any more, or will not be when segments are laid. -/
def Leaves (segs : List Segment) (s : Spot) : Prop := s.out ≠ [] ∨ describesName segs = true

theorem leaves_child (segs : List Segment) (s : Spot) (name : String) (known : Option Bool) :
    Leaves segs (s.child name known) := .inl (by simp [Spot.child])

/-- The ends of the trails from a spot stay the same with components in front. -/
def KeepsFront (front : List String) (next : Spot → List Spot) (s : Spot) : Prop :=
  next (s.behind front) = (next s).map (Spot.behind front)

theorem keepsFront_onward (hign : ∀ path isDir, w.ignored path isDir = false)
    (hnext : KeepsFront front next s) : KeepsFront front (w.onward o rest next) s := by
  unfold KeepsFront onward
  rw [hign, hign]
  have hisDir : (s.behind front).isDirectory o = s.isDirectory o := rfl
  rw [hisDir]
  split
  · exact hnext
  · rfl

theorem keepsFront_choose (hign : ∀ path isDir, w.ignored path isDir = false)
    {deeper : Spot → List Spot} {e : Entry} (ht : t = (s.enter o).child e.name.text (some e.isDir))
    (hdeeper : KeepsFront front deeper t) (hnext : KeepsFront front next t) :
    w.choose o rest deeper next (s.behind front) e =
      (w.choose o rest deeper next s e).map (Spot.behind front) := by
  have hbehind : ((s.behind front).enter o).child e.name.text (some e.isDir) = t.behind front := by
    rw [ht, ← Spot.behind_child]
    rfl
  simp only [choose, hbehind, ← ht, hign, Bool.false_eq_true, if_false]
  split_ifs
  · rfl
  · exact hdeeper
  · exact keepsFront_onward hign hnext

theorem keepsFront_sweep (hign : ∀ path isDir, w.ignored path isDir = false)
    {next : Nat → Spot → List Spot}
    (hnext : ∀ depth s, Leaves rest s → KeepsFront front (next depth) s) (depth : Nat) (s : Spot)
    (hleaves : Leaves (.globstar :: rest) s) : KeepsFront front (w.sweep o rest next depth) s := by
  induction depth generalizing s with
  | zero => rfl
  | succ depth ih =>
    have hloops : w.loops o (s.behind front) = w.loops o s := rfl
    have hpath : (s.behind front).path = s.path := rfl
    -- Whatever is in front, the globstar may stand for no name here.
    have hplaced : ∀ out : List String, (s.out ≠ [] → out ≠ []) →
        (decide (out = []) && !standsAlone rest) = false := by
      intro out hout
      rcases hleaves with hne | hname
      · simp [hout hne]
      · have hstands : standsAlone rest = true := standsAlone_of_describesName hname
        simp [hstands]
    have hanchor := hnext depth { s with known := some true } hleaves
    unfold KeepsFront at hanchor ⊢
    rw [sweep, sweep, hloops, hpath, hplaced _ id,
      hplaced _ fun hne => by simp [Spot.behind, hne], List.map_append]
    refine congrArg₂ _ hanchor ?_
    split
    · rfl
    · rw [List.map_flatMap]
      refine List.flatMap_congr fun e _ => ?_
      exact keepsFront_choose hign rfl (ih _ (leaves_child _ _ _ _))
        (hnext depth _ (leaves_child _ _ _ _))

/-- Trails that leave the spot where they begin have the same ends with components in front. -/
theorem keepsFront_ends (hign : ∀ path isDir, w.ignored path isDir = false) (segs : List Segment)
    (depth : Nat) (s : Spot) (hleaves : Leaves segs s) :
    KeepsFront front (w.ends o segs depth) s := by
  induction segs generalizing depth s with
  | nil => rfl
  | cons first rest ih =>
    have hpath : (s.behind front).path = s.path := rfl
    unfold KeepsFront
    cases first with
    | empty =>
      rw [ends, ends, hpath, Spot.behind_slash]
      split
      · exact ih depth s.slash (.inl (by simp [Spot.slash]))
      · rfl
    | literal text name =>
      rw [ends, ends, hpath, Spot.behind_child]
      split
      · exact keepsFront_onward hign (ih depth _ (leaves_child _ _ _ _))
      · rfl
    | magic text mode tokens =>
      rw [ends, ends, hpath, List.map_flatMap]
      refine List.flatMap_congr fun e _ => ?_
      rw [Spot.behind_child]
      split
      · exact keepsFront_onward hign (ih depth _ (leaves_child _ _ _ _))
      · rfl
    | globstar =>
      rw [ends]
      exact keepsFront_sweep hign ih depth s hleaves

/-! ## Down by name -/

/-- On the way down to a directory everything is one. -/
theorem isDirectory_of_rooted_append (hn : Path.Normal "/" cs)
    (hdir : Oracle.isDirectory h.answer (Path.rooted "/" (cs ++ names)) = true) :
    Oracle.isDirectory h.answer (Path.rooted "/" cs) = true := by
  by_cases hcs : cs = []
  · subst hcs
    exact h.isDirectory_slash
  by_cases hnames : names = []
  · rwa [hnames, List.append_nil] at hdir
  have hsplit : Path.rooted "/" (cs ++ names) =
      Path.rooted "/" cs ++ "/" ++ "/".intercalate names := by
    simp only [Path.rooted, Path.intercalate_append hcs hnames, String.append_assoc]
  obtain ⟨hnull, loc, access, hloc, hnode⟩ := Host.isDirectory_answer.mp hdir
  rw [hsplit, hasNull_append, hasNull_append, Bool.or_eq_false_iff, Bool.or_eq_false_iff] at hnull
  rw [hsplit] at hloc
  refine Host.isDirectory_of_status ?_ hnull.1.1 (Host.status_eq_ok.mpr ⟨loc, _, hloc, hnode, rfl⟩)
  simp [Path.rooted]

/-- Trails that go down to a directory by name have the same ends as those that begin there. -/
theorem ends_names (hign : ∀ path isDir, w.ignored path isDir = false)
    (hn : Path.Normal "/" cs) (hnames : ∀ c ∈ names, Path.EntryName c)
    (hdir : Oracle.isDirectory h.answer (Path.rooted "/" (cs ++ names)) = true)
    (out : List String) (entered : List Identity) :
    w.ends h.answer (names.map Segment.ofName ++ segs) depth
        ⟨Path.rooted "/" cs, out, none, entered⟩ =
      w.ends h.answer segs depth ⟨Path.rooted "/" (cs ++ names), out ++ names, none, entered⟩ := by
  induction names generalizing cs out with
  | nil => simp
  | cons c rest ih =>
    obtain ⟨hc, hrest⟩ := List.forall_mem_cons.mp hnames
    have hn' : Path.Normal "/" (cs ++ [c]) := hn.append (by simpa using hc)
    have hspot : (⟨Path.rooted "/" cs, out, none, entered⟩ : Spot).child c none =
        ⟨Path.rooted "/" (cs ++ [c]), out ++ [c], none, entered⟩ := by
      simp [Spot.child, Path.child_rooted hn hc]
    rw [List.append_cons] at hdir
    have hinner := isDirectory_of_rooted_append hn' hdir
    have hgoes : ((rest.map Segment.ofName ++ segs).isEmpty ||
        Spot.isDirectory h.answer ⟨Path.rooted "/" (cs ++ [c]), out ++ [c], none, entered⟩ &&
          !w.ignored (spell (out ++ [c])) true) = true := by
      rw [hign]
      simp [Spot.isDirectory, hinner]
    rw [List.map_cons, ofName_of_ne hc.proper.ne_empty, List.cons_append, ends, hspot,
      Path.child_rooted hn hc, if_pos (isThere_of_isDirectory hinner), onward, if_pos hgoes,
      ih hn' hrest hdir, ← List.append_cons, ← List.append_cons]

/-! ## What is laid inside -/

/-- The empty component that a slash behind segments comes to. -/
def finalSlash (segs : List Segment) : List String :=
  if (segs.getLast?.map Segment.isEmpty).getD false then [""] else []

theorem finalSlash_cons {first : Segment} (hfirst : first ≠ .empty) (rest : List Segment) :
    finalSlash (first :: rest) = finalSlash rest := by
  by_cases hrest : rest = []
  · cases first with
    | empty => exact absurd rfl hfirst
    | literal text name => rw [hrest]; rfl
    | magic text mode tokens => rw [hrest]; rfl
    | globstar => rw [hrest]; rfl
  · rw [finalSlash, List.getLast?_cons_of_ne_nil hrest, finalSlash]

theorem entryNames_of_sweeps (hsweep : w.Sweeps o rest s m)
    (hs : ∀ c ∈ s.out, Path.EntryName c) (hleaves : Leaves (.globstar :: rest) s) :
    (∀ c ∈ m.out, Path.EntryName c) ∧ Leaves rest m := by
  have hchild : ∀ {s : Spot} {e : Entry}, (∀ c ∈ s.out, Path.EntryName c) →
      ∀ c ∈ s.out ++ [e.name.text], Path.EntryName c := fun {s e} hs =>
    List.forall_mem_append.mpr ⟨hs, by simpa using Path.entryName_name e.name⟩
  induction hsweep with
  | stay placed => exact ⟨hs, hleaves⟩
  | last offered final goes => exact ⟨hchild hs, leaves_child _ _ _ _⟩
  | down offered inner kept more ih => exact ih (hchild hs) (leaves_child _ _ _ _)

theorem solid_of_cons {first : Segment} (hsolid : .empty ∉ (first :: rest).dropLast) :
    .empty ∉ rest.dropLast := by
  by_cases hrest : rest = []
  · simp [hrest]
  · rw [List.dropLast_cons_of_ne_nil hrest] at hsolid
    exact fun hmem => hsolid (List.mem_cons_of_mem _ hmem)

theorem eq_nil_of_solid (hsolid : .empty ∉ (.empty :: rest : List Segment).dropLast) :
    rest = [] := by
  by_contra hrest
  exact hsolid (by simp [List.dropLast_cons_of_ne_nil hrest])

/-- Segments with a slash at most at their end describe a name, unless they are a globstar, with or
without a slash, or nothing but a slash. -/
theorem describesName_of_solid (hne : segs ≠ []) (hsolid : .empty ∉ segs.dropLast)
    (hempty : segs ≠ [.empty]) (hstar : segs ≠ [.globstar]) (hslash : segs ≠ [.globstar, .empty])
    (hstars : ∀ rest, segs ≠ .globstar :: .globstar :: rest) : describesName segs = true := by
  obtain ⟨first, rest, rfl⟩ := List.exists_cons_of_ne_nil hne
  cases first with
  | empty => exact absurd (by rw [eq_nil_of_solid hsolid]) hempty
  | literal text name => rfl
  | magic text mode tokens => rfl
  | globstar =>
    rcases rest with _ | ⟨second, rest⟩
    · exact absurd rfl hstar
    · cases second with
      | empty => exact absurd (by rw [eq_nil_of_solid (solid_of_cons hsolid)]) hslash
      | literal text name => rfl
      | magic text mode tokens => rfl
      | globstar => exact absurd rfl (hstars rest)

/-- Segments with a slash at most at their end lay names, and an empty component for the slash. -/
theorem exists_names_of_lays (hlays : w.Lays o segs s t)
    (hliteral : ∀ text name, .literal text name ∈ segs → Path.EntryName name)
    (hsolid : .empty ∉ segs.dropLast) (hs : ∀ c ∈ s.out, Path.EntryName c)
    (hleaves : Leaves segs s) :
    ∃ found, found ≠ [] ∧ (∀ c ∈ found, Path.EntryName c) ∧ t.out = found ++ finalSlash segs := by
  induction hlays with
  | nil s =>
    exact ⟨s.out, hleaves.resolve_right (by simp [describesName]), hs, by simp [finalSlash]⟩
  | @empty rest s t dir more ih =>
    obtain rfl := eq_nil_of_solid hsolid
    obtain rfl := lays_nil_iff.mp more
    exact ⟨s.out, hleaves.resolve_right (by simp [describesName]), hs, rfl⟩
  | @literal text name rest s t there goes more ih =>
    have hname := hliteral text name List.mem_cons_self
    rw [finalSlash_cons (by simp)]
    exact ih (names_of_cons hliteral) (solid_of_cons hsolid)
      (List.forall_mem_append.mpr ⟨hs, by simpa using hname⟩) (leaves_child _ _ _ _)
  | @magic text mode tokens rest s t e listed accepted goes more ih =>
    rw [finalSlash_cons (by simp)]
    exact ih (names_of_cons hliteral) (solid_of_cons hsolid)
      (List.forall_mem_append.mpr ⟨hs, by simpa using Path.entryName_name e.name⟩)
      (leaves_child _ _ _ _)
  | @globstar rest s m t sweep more ih =>
    obtain ⟨hm, hleaves'⟩ := entryNames_of_sweeps sweep hs hleaves
    rw [finalSlash_cons (by simp)]
    exact ih (names_of_cons hliteral) (solid_of_cons hsolid) hm hleaves'

/-- Where segments describe a name, a slash at their end is not all there is. -/
theorem dirOnly_of_describesName {a : Alternative} (ha : describesName a.segments = true) :
    a.dirOnly = (a.segments.getLast?.map Segment.isEmpty).getD false := by
  unfold Alternative.dirOnly
  rcases hsegs : a.segments with _ | ⟨first, _ | ⟨second, rest⟩⟩
  · rfl
  · rw [hsegs] at ha
    cases first <;> first | rfl | cases ha
  · simp

theorem finalSlash_of_describesName {a : Alternative} (ha : describesName a.segments = true) :
    finalSlash a.segments = if a.dirOnly then [""] else [] := by
  rw [finalSlash, dirOnly_of_describesName ha]

/-- If the plain walk ends well, only results that cannot be displayed make a walk fail. -/
theorem result_iff_displays (hdepth : w.depthOn h .empty ≤ depth)
    (hplain : (w.plain.script depth).outcome h.answer = .ok ()) : (w.runOn h).result = .ok () ↔
      ∀ t ∈ w.ends h.answer w.ahead depth w.start, w.Displays h.answer t := by
  rw [w.runOn_eq_of_le h hdepth]
  exact outcome_script_iff_plain.trans (and_iff_right hplain)

/-! ## Two walks -/

/-- One walk begins in a directory. The other comes to the directory from the root by name, and goes
on as the first does. -/
structure Inside (w w' : Walk) (names : List String) : Prop where
  relative : w.alternative.root = ""
  rooted : w'.alternative.root = "/"
  segments : w'.alternative.segments =
    .empty :: (names.map Segment.ofName ++ w.alternative.segments)
  cwd : w.cwd = Path.rooted "/" names
  nonempty : names ≠ []
  entryNames : ∀ c ∈ names, Path.EntryName c
  literals : ∀ text name, .literal text name ∈ w.alternative.segments → Path.EntryName name
  solid : .empty ∉ w.alternative.segments.dropLast
  describes : describesName w.alternative.segments = true
  like : w.GoesLike w'
  ignored : ∀ path isDir, w.ignored path isDir = false
  mark : w'.options.mark = w.options.mark
  nodir : w'.options.nodir = w.options.nodir
  realpath : w'.options.realpath = w.options.realpath

namespace Inside

variable {found : List String} {isDir : Bool}

theorem isAbsolute (hin : w.Inside w' names) :
    w.alternative.isAbsolute = false ∧ w'.alternative.isAbsolute = true := by
  simp [Alternative.isAbsolute, hin.relative, hin.rooted]

theorem normal (hin : w.Inside w' names) : Path.Normal "/" names := ⟨.inl rfl, hin.entryNames⟩

/-! ### The way -/

theorem ahead_start (hin : w.Inside w' names) : w.ahead = w.alternative.segments ∧
    w.start = ⟨Path.rooted "/" names, [], none, []⟩ := by
  simp [ahead, start, root, hin.isAbsolute.1, hin.cwd]

theorem ahead_start_rooted (hin : w.Inside w' names) :
    w'.ahead = names.map Segment.ofName ++ w.alternative.segments ∧
      w'.start = ⟨"/", [""], none, []⟩ := by
  simp [ahead, start, root, hin.isAbsolute.2, hin.rooted, hin.segments, Alternative.parts,
    Segment.text]

/-- The trails from the root end where those from the directory do, spelled from the root. -/
theorem ends (hin : w.Inside w' names)
    (hdir : Oracle.isDirectory h.answer (Path.rooted "/" names) = true) (depth : Nat) :
    w'.ends h.answer w'.ahead depth w'.start =
      (w.ends h.answer w.ahead depth w.start).map (Spot.behind ("" :: names)) := by
  have hroot : Path.rooted "/" [] = "/" := rfl
  obtain ⟨hahead, hstart⟩ := hin.ahead_start
  obtain ⟨hahead', hstart'⟩ := hin.ahead_start_rooted
  have hbehind : (⟨Path.rooted "/" names, [""] ++ names, none, []⟩ : Spot) =
      w.start.behind ("" :: names) := by
    simp [hstart, Spot.behind]
  have hfront : KeepsFront ("" :: names) (w.ends h.answer w.alternative.segments depth) w.start :=
    keepsFront_ends hin.ignored _ _ _ (.inr hin.describes)
  rw [hin.like.ends, hahead', hstart', ← hroot,
    ends_names hin.ignored ⟨.inl rfl, by simp⟩ hin.entryNames (by simpa using hdir) [""] [],
    List.nil_append, hbehind, hahead]
  exact hfront

/-! ### Results -/

theorem exists_names (hin : w.Inside w' names) (hlays : w.Lays o w.ahead w.start t) :
    ∃ found, found ≠ [] ∧ (∀ c ∈ found, Path.EntryName c) ∧
      t.out = found ++ finalSlash w.alternative.segments := by
  rw [hin.ahead_start.1, hin.ahead_start.2] at hlays
  exact exists_names_of_lays hlays hin.literals hin.solid (by simp) (.inr hin.describes)

theorem dirOnly (hin : w.Inside w' names) : w'.alternative.dirOnly = w.alternative.dirOnly := by
  have hne : w.alternative.segments ≠ [] := fun hnil => by
    have hdescribes := hin.describes
    rw [hnil] at hdescribes
    cases hdescribes
  have hlast : w'.alternative.segments.getLast? = w.alternative.segments.getLast? := by
    rw [hin.segments, List.getLast?_cons_of_ne_nil (by simp [hne]),
      List.getLast?_append_of_ne_nil _ hne]
  have hlen : 1 < w'.alternative.segments.length := by
    have hnames := List.length_pos_iff.mpr hin.nonempty
    simp only [hin.segments, List.length_cons, List.length_append, List.length_map]
    omega
  rw [dirOnly_of_describesName hin.describes, Alternative.dirOnly, hlast, decide_eq_true hlen,
    Bool.true_and]

theorem marked_eq (hin : w.Inside w' names) (isDir : Bool) (path : String) :
    w'.marked isDir path = w.marked isDir path := by
  rw [marked, marked, hin.dirOnly, hin.mark]

/-- The absolute form of what is found inside is what is spelled from the root. -/
theorem marked_spell (hin : w.Inside w' names) (hfound : found ≠ [])
    (hentries : ∀ c ∈ found, Path.EntryName c) (isDir : Bool) :
    w'.marked isDir (spell ("" :: names ++ (found ++ finalSlash w.alternative.segments))) =
      w.marked isDir
        (Path.absolute w.cwd (spell (found ++ finalSlash w.alternative.segments))) := by
  have hne : names ++ found ≠ [] := by simp [hfound]
  have hn : Path.Normal "/" (names ++ found) := hin.normal.append hentries
  have hspell : ∀ final, spell ("" :: names ++ (found ++ final)) =
      Path.rooted "/" (names ++ found ++ final) := by
    intro final
    rw [List.cons_append, spell_cons _ (by simp [hfound]), Path.rooted, List.append_assoc]
    simp [spell]
  have habsolute : ∀ final, Path.absolute w.cwd (spell (found ++ final)) =
      Path.normalize (Path.rooted "/" (names ++ found ++ final)) := by
    intro final
    have hrel : Path.isAbsolute (spell (found ++ final)) = false := by
      obtain ⟨first, more, rfl⟩ := List.exists_cons_of_ne_nil hfound
      have hfirst := hentries first (by simp)
      exact Path.not_isAbsolute_intercalate hfirst.proper.ne_empty hfirst.slashless _
    rw [Path.absolute, hin.cwd, List.append_assoc]
    exact congrArg _ (Path.join_rooted hin.normal (by simp [hfound]) hrel)
  rw [hspell, habsolute, hin.marked_eq, finalSlash_of_describesName hin.describes]
  cases hdirOnly : w.alternative.dirOnly with
  | false =>
    simp only [Bool.false_eq_true, if_false, List.append_nil]
    rw [Path.normalize_rooted hn hne]
  | true =>
    -- The slash is lost in the normal form, and put back as a mark.
    have hslash : Path.rooted "/" (names ++ found ++ [""]) =
        Path.rooted "/" (names ++ found) ++ "/" := by
      rw [Path.rooted, Path.intercalate_append hne (by simp), String.intercalate_singleton,
        String.append_empty, ← String.append_assoc, Path.rooted]
    have hends : Path.endsWithSlash (Path.rooted "/" (names ++ found) ++ "/") = true := by
      simp [Path.endsWithSlash]
    simp only [if_true]
    rw [Path.normalize_rooted_slash hn hne, hslash, marked, marked, hends, hdirOnly,
      Path.endsWithSlash_rooted hn]
    simp [hne]

theorem spell_ne_empty (hin : w.Inside w' names) (hlays : w.Lays o w.ahead w.start t) :
    spell t.out ≠ "" ∧ spell ("" :: names ++ t.out) ≠ "" := by
  obtain ⟨found, hfound, hentries, hout⟩ := hin.exists_names hlays
  obtain ⟨first, more, rfl⟩ := List.exists_cons_of_ne_nil hfound
  have hfirst := (hentries first (by simp)).proper.ne_empty
  refine ⟨?_, ?_⟩
  · rw [hout]
    exact Path.intercalate_ne_empty hfirst _
  · rw [List.cons_append, spell_cons _ (by simp [hin.nonempty])]
    simp

theorem display_behind (hin : w.Inside w' names) (habs : w.options.absolute = true)
    (hlays : w.Lays o w.ahead w.start t) :
    w'.display t.path (spell ("" :: names ++ t.out)) isDir =
      w.display t.path (spell t.out) isDir := by
  obtain ⟨found, hfound, hentries, hout⟩ := hin.exists_names hlays
  have hmarked : w'.marked isDir = w.marked isDir := funext (hin.marked_eq isDir)
  have hspell := hin.marked_spell hfound hentries isDir
  rw [← hout] at hspell
  simp only [display, hin.realpath, hmarked, habs, hin.isAbsolute, Bool.not_false,
    Bool.not_true, Bool.and_false, Bool.and_self, Bool.false_eq_true, if_false, if_true]
  rw [← hmarked, hspell, hmarked]

/-- What is looked up and reported at an end does not depend on how it was come to. -/
theorem found_behind (hin : w.Inside w' names) (habs : w.options.absolute = true)
    (hlays : w.Lays o w.ahead w.start t) :
    w'.found t.known t.path ("" :: names ++ t.out) = w.found t.known t.path t.out := by
  obtain ⟨hne, hne'⟩ := hin.spell_ne_empty hlays
  have hign : w'.ignored = w.ignored := hin.like.ignored
  simp only [found, if_neg hne, if_neg hne', hign, hin.ignored, hin.nodir,
    hin.display_behind habs hlays]

theorem displays_behind (hin : w.Inside w' names) (habs : w.options.absolute = true)
    (hlays : w.Lays o w.ahead w.start t) :
    w'.Displays o (t.behind ("" :: names)) ↔ w.Displays o t := by
  unfold Displays
  rw [← hin.found_behind habs hlays]
  rfl

theorem emits_behind (hin : w.Inside w' names) (habs : w.options.absolute = true)
    (hlays : w.Lays o w.ahead w.start t) (hdisplays : w.Displays o t) :
    w'.emits o (t.behind ("" :: names)) = w.emits o t := by
  have hdisplays' := (hin.displays_behind habs hlays).mpr hdisplays
  refine Option.ext fun r => ?_
  rw [← finds_found hdisplays, ← hin.found_behind habs hlays]
  exact (finds_found hdisplays').symm

/-! ### Whole walks -/

/-- A walk by name lists nothing before it has come down. -/
theorem listsFirst_rooted (hin : w.Inside w' names) : listsFirst w'.ahead = false := by
  obtain ⟨first, more, hnames⟩ := List.exists_cons_of_ne_nil hin.nonempty
  have hfirst := (hin.entryNames first (by simp [hnames])).proper.ne_empty
  rw [hin.ahead_start_rooted.1, hnames, List.map_cons, ofName_of_ne hfirst]
  rfl

/-- A name that is laid by either walk has no null character. -/
theorem literals_rooted (hin : w.Inside w' names) (hnull : hasNull w.cwd = false)
    (hclean : w.alternative.Clean) :
    ∀ text name, .literal text name ∈ w'.ahead → name ≠ "" ∧ hasNull name = false := by
  intro text name hmem
  rw [hin.ahead_start_rooted.1, List.mem_append] at hmem
  rcases hmem with hmem | hmem
  · obtain ⟨hne, hname⟩ := mem_of_literal_mem_names hmem
    refine ⟨hne, Host.hasNull_of_mem_components hnull ?_⟩
    rw [hin.cwd, Path.rooted, Path.components_of_slash,
      Path.components_intercalate hin.nonempty fun c hc => (hin.entryNames c hc).slashless]
    exact List.mem_cons_of_mem _ hname
  · exact ⟨(hin.literals text name hmem).proper.ne_empty, hclean text name hmem⟩

theorem literals_inside (hin : w.Inside w' names) (hclean : w.alternative.Clean) :
    ∀ text name, .literal text name ∈ w.ahead → name ≠ "" ∧ hasNull name = false := by
  intro text name hmem
  rw [hin.ahead_start.1] at hmem
  exact ⟨(hin.literals text name hmem).proper.ne_empty, hclean text name hmem⟩

/-- Where canonical forms can be told the walk inside ends well, if the directory can be listed. -/
theorem outcome_script_inside (hin : w.Inside w' names) (hclean : w.alternative.Clean)
    (hdir : Oracle.isDirectory h.answer w.cwd = true)
    (hlist : ∃ es, h.answer (.list w.cwd) = .ok (.ok es)) (hcanon : w.Canonizes h.answer)
    (hdepth : w.depthOn h .empty ≤ depth) : (w.script depth).outcome h.answer = .ok () := by
  have hroot : w.root = w.cwd := by simp [root, hin.isAbsolute.1]
  refine (outcome_script_iff (Cache.agrees_empty _) (hin.literals_inside hclean) hcanon hdepth).mpr
    ?_
  rw [hroot]
  exact ⟨hdir, fun _ => hlist⟩

theorem outcome_script_rooted (hin : w.Inside w' names) (hclean : w.alternative.Clean)
    (hdir : Oracle.isDirectory h.answer w.cwd = true) (hcanon : w'.Canonizes h.answer)
    (hdepth : w'.depthOn h .empty ≤ depth) : (w'.script depth).outcome h.answer = .ok () := by
  have hroot : w'.root = "/" := by simp [root, hin.isAbsolute.2, hin.rooted]
  have hnull := (Host.isDirectory_answer.mp hdir).1
  refine (outcome_script_iff (Cache.agrees_empty _) (hin.literals_rooted hnull hclean) hcanon
    hdepth).mpr ?_
  rw [hroot, hin.listsFirst_rooted]
  exact ⟨h.isDirectory_slash, fun hno => by cases hno⟩

theorem plain (hin : w.Inside w' names) : w.plain.Inside w'.plain names :=
  { hin with
    like := ⟨hin.like.follow, hin.like.dot, hin.like.ignored⟩
    mark := rfl
    nodir := rfl
    realpath := rfl }

theorem result_inside (hin : w.Inside w' names) (hclean : w.alternative.Clean)
    (hdir : Oracle.isDirectory h.answer w.cwd = true)
    (hlist : ∃ es, h.answer (.list w.cwd) = .ok (.ok es)) (hcanon : w.Canonizes h.answer) :
    (w.runOn h).result = .ok () := by
  rw [w.runOn_eq_of_le h le_rfl]
  exact hin.outcome_script_inside hclean hdir hlist hcanon le_rfl

/-- If the directory can be listed, the walk that begins there and shows absolute results fails just
if the walk from the root does, and else returns the same. -/
theorem runOn_alike (hin : w.Inside w' names) (habs : w.options.absolute = true)
    (hclean : w.alternative.Clean) (hdir : Oracle.isDirectory h.answer w.cwd = true)
    (hlist : ∃ es, h.answer (.list w.cwd) = .ok (.ok es)) :
    ((w'.runOn h).result = .ok () ↔ (w.runOn h).result = .ok ()) ∧
      ((w.runOn h).result = .ok () →
        Event.paths (w'.runOn h).events = Event.paths (w.runOn h).events) := by
  let depth := max (w.depthOn h .empty) (w'.depthOn h .empty)
  have hends := hin.ends (hin.cwd ▸ hdir) depth
  have hdepth : w.depthOn h .empty ≤ depth := le_max_left _ _
  have hdepth' : w'.depthOn h .empty ≤ depth := le_max_right _ _
  have hplain := hin.plain.outcome_script_inside hclean hdir hlist (canonizes_of_realpath rfl _)
    hdepth
  have hplain' := hin.plain.outcome_script_rooted hclean hdir (canonizes_of_realpath rfl _) hdepth'
  have hresult := result_iff_displays hdepth hplain
  have hresult' : (w'.runOn h).result = .ok () ↔
      ∀ t ∈ w.ends h.answer w.ahead depth w.start, w.Displays h.answer t := by
    rw [result_iff_displays hdepth' hplain', hends, List.forall_mem_map]
    exact forall₂_congr fun t ht => hin.displays_behind habs (lays_of_mem_ends ht)
  refine ⟨hresult'.trans hresult.symm, fun hok => ?_⟩
  rw [paths_runOn_of_le hdepth' (hresult'.mpr (hresult.mp hok)),
    paths_runOn_of_le hdepth hok, hends, List.filterMap_map]
  refine congrArg _ (List.filterMap_congr fun t ht => ?_)
  exact hin.emits_behind habs (lays_of_mem_ends ht) (hresult.mp hok t ht)

end Inside

end Walk

end PathGlob
