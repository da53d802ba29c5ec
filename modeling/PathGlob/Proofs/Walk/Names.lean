import PathGlob.Proofs.Pattern.Escape
import PathGlob.Proofs.Walk.Absolute

/-!
# Walks by name

Segments that are names take no listing. A walk over them looks up one name after the other, and it
comes to their end just if all of them, looked up at once, lead somewhere.
-/
namespace PathGlob

/-! ## Names behind a directory -/

namespace Path

theorem child_append (dir name x : String) : child dir (name ++ x) = child dir name ++ x := by
  unfold child
  split <;> simp [String.append_assoc]

theorem child_ne_empty (dir : String) {name : String} (hne : name ≠ "") : child dir name ≠ "" := by
  unfold child
  split <;> simp [hne]

theorem child_child (dir : String) {name : String} (hne : name ≠ "") (hslash : '/' ∉ name.toList)
    (x : String) : child (child dir name) x = child dir name ++ "/" ++ x := by
  have hends : endsWithSlash (child dir name) = false := by
    unfold child
    split
    · exact endsWithSlash_append hne hslash
    · exact endsWithSlash_append hne hslash
  rw [child, if_neg (by simp [hends])]

theorem join_of_relative {dir p : String} (hdir : dir ≠ "") (hp : isAbsolute p = false) :
    join dir p = child dir p := by
  simp [join, child, hp, hdir]

end Path

namespace Host

variable {h : Host} {p x : String}

/-- What stands in front of a slash is a directory, if the whole leads somewhere. -/
theorem isDirectory_of_status {f : Bool} {st : Status} (hp : p ≠ "") (hnull : hasNull p = false)
    (hst : h.status f (p ++ "/" ++ x) = .ok st) : Oracle.isDirectory h.answer p = true := by
  obtain ⟨loc, -, hloc, -, -⟩ := status_eq_ok.mp hst
  obtain ⟨c, ys, hcs⟩ := List.exists_cons_of_ne_nil (Path.components_ne_nil x)
  rw [locate, if_neg (by simp), String.append_assoc, startOf_append hp, ← String.append_assoc,
    Path.components_append, hcs] at hloc
  obtain ⟨there, left, access, hnode, hbehind⟩ := FileSystem.exists_behind hloc
  refine isDirectory_answer.mpr ⟨hnull, there, access, ?_, hnode⟩
  have hthere := hbehind true [] (.inl rfl)
  rw [List.append_nil, FileSystem.resolve_nil] at hthere
  exact (if_neg hp).trans hthere

/-- Behind a directory a slash more makes no difference. -/
theorem status_child_slash (hdir : Oracle.isDirectory h.answer p = true) (f : Bool) :
    h.status f (Path.child p ("" ++ "/" ++ x)) = h.status f (Path.child p x) := by
  obtain ⟨-, loc, access, hloc, hnode⟩ := isDirectory_answer.mp hdir
  obtain ⟨left, hleft⟩ := locate_child hloc
  have hsame : h.locate f (Path.child p ("" ++ "/" ++ x)) = h.locate f (Path.child p x) := by
    rw [hleft, hleft, Path.components_append, Path.components_empty, List.singleton_append,
      FileSystem.resolve_cons]
    simp [hnode]
  rw [status, status, hsame]

theorem exists_status_child_empty (hdir : Oracle.isDirectory h.answer p = true) (f : Bool) :
    ∃ st, h.status f (Path.child p "") = .ok st := by
  obtain ⟨-, loc, access, hloc, hnode⟩ := isDirectory_answer.mp hdir
  obtain ⟨left, hleft⟩ := locate_child hloc
  refine ⟨_, status_eq_ok.mpr ⟨loc, _, ?_, hnode, rfl⟩⟩
  rw [hleft, Path.components_empty, FileSystem.resolve_cons]
  simp [hnode, FileSystem.resolve_nil]

theorem isDirectory_slash (h : Host) : Oracle.isDirectory h.answer "/" = true := by
  refine isDirectory_answer.mpr ⟨hasNull_slash, [], h.files.root, ?_, by simp [FileSystem.node?]⟩
  have hcomponents : Path.components "/" = ["", ""] := by decide
  rw [locate, if_neg (by decide), hcomponents, startOf, if_pos (by decide)]
  rw [FileSystem.resolve_root_skip, FileSystem.resolve_root_skip, FileSystem.resolve_nil]

end Host

namespace Walk

variable {w : Walk} {o : Oracle} {h : Host} {cache : Cache} {rest : List Segment}
  {cs : List String} {c : String} {s t : Spot}

/-! ## Trails over names -/

theorem ofName_empty : Segment.ofName "" = .empty := rfl

theorem ofName_of_ne (hc : c ≠ "") :
    Segment.ofName c = .literal (Pattern.escape .backslash c) c := if_neg hc

theorem out_of_lays_names (hlays : w.Lays o (cs.map Segment.ofName) s t) :
    t.out = s.out ++ cs := by
  induction cs generalizing s with
  | nil =>
    obtain rfl := lays_nil_iff.mp hlays
    simp
  | cons c rest ih =>
    rw [List.map_cons] at hlays
    by_cases hc : c = ""
    · subst hc
      rw [ih (lays_empty_iff.mp hlays).2]
      exact List.append_assoc _ _ _
    · rw [ofName_of_ne hc] at hlays
      rw [ih (lays_literal_iff.mp hlays).2.2]
      exact List.append_assoc _ _ _

theorem spell_cons (c : String) (hcs : cs ≠ []) : spell (c :: cs) = c ++ "/" ++ spell cs :=
  String.intercalate_cons_of_ne_nil hcs

theorem spell_singleton (c : String) : spell [c] = c := String.intercalate_singleton

/-- What is behind a name leads somewhere if the name is a directory's and the rest leads somewhere
from there. -/
theorem exists_status_child_iff {p : String} (hc : c ≠ "") (hslash : '/' ∉ c.toList)
    (hnull : hasNull (Path.child p c) = false) (x : String) :
    (∃ st, h.status false (Path.child p (c ++ "/" ++ x)) = .ok st) ↔
      Oracle.isDirectory h.answer (Path.child p c) = true ∧
        ∃ st, h.status false (Path.child (Path.child p c) x) = .ok st := by
  rw [Path.child_child p hc hslash, String.append_assoc, Path.child_append, ← String.append_assoc]
  refine (and_iff_right_of_imp ?_).symm
  rintro ⟨st, hst⟩
  exact Host.isDirectory_of_status (Path.child_ne_empty p hc) hnull hst

/-- From a directory a trail over names comes to an end just if the path that they spell leads
somewhere. -/
theorem exists_lays_names_iff (hw : w.Bare) (hcs : cs ≠ [])
    (hnames : ∀ c ∈ cs, '/' ∉ c.toList ∧ hasNull c = false)
    (hdir : Oracle.isDirectory h.answer s.path = true) :
    (∃ t, w.Lays h.answer (cs.map Segment.ofName) s t) ↔
      ∃ st, h.status false (Path.child s.path (spell cs)) = .ok st := by
  induction cs generalizing s with
  | nil => exact absurd rfl hcs
  | cons c rest ih =>
    obtain ⟨⟨hslash, hnull⟩, hrest⟩ := List.forall_mem_cons.mp hnames
    have hchild : hasNull (Path.child s.path c) = false := by
      rw [hasNull_child, (Host.isDirectory_answer.mp hdir).1, hnull]
      rfl
    rw [List.map_cons]
    by_cases hne : rest = []
    · subst hne
      rw [List.map_nil, spell_singleton]
      by_cases hc : c = ""
      · subst hc
        simp only [ofName_empty, lays_empty_iff, hdir, true_and, lays_nil_iff, exists_eq]
        exact iff_of_true trivial (Host.exists_status_child_empty hdir false)
      · simp only [ofName_of_ne hc, lays_literal_iff, lays_nil_iff, GoesOn, true_or, true_and,
          exists_and_left, exists_eq, and_true]
        exact isThere_answer.trans (and_iff_right hchild)
    · rw [spell_cons c hne]
      by_cases hc : c = ""
      · subst hc
        simp only [ofName_empty, lays_empty_iff, hdir, true_and]
        rw [Host.status_child_slash hdir]
        exact ih hne hrest hdir
      · have hgoes : w.GoesOn h.answer (rest.map Segment.ofName) (s.child c none) ↔
            Oracle.isDirectory h.answer (Path.child s.path c) = true :=
          (goesOn_iff hw).trans (forall_prop_of_true (by simpa using hne))
        simp only [ofName_of_ne hc, lays_literal_iff, hgoes, exists_and_left]
        rw [exists_status_child_iff hc hslash hchild, ← and_assoc,
          and_iff_right_of_imp isThere_of_isDirectory]
        exact and_congr_right fun hinner => ih hne hrest (s := s.child c none) hinner

/-! ## Walks over names -/

theorem listsFirst_names (cs : List String) : listsFirst (cs.map Segment.ofName) = false := by
  induction cs with
  | nil => rfl
  | cons c rest ih =>
    rw [List.map_cons]
    by_cases hc : c = ""
    · subst hc
      exact ih
    · rw [ofName_of_ne hc]
      rfl

theorem mem_of_literal_mem_names {text name : String}
    (hmem : .literal text name ∈ cs.map Segment.ofName) : name ≠ "" ∧ name ∈ cs := by
  obtain ⟨c, hc, heq⟩ := List.mem_map.mp hmem
  by_cases hempty : c = ""
  · subst hempty
    cases heq
  · rw [ofName_of_ne hempty] at heq
    cases heq
    exact ⟨hempty, hc⟩

theorem spell_components (p : String) : spell (Path.components p) = p := by
  have hlists : (Path.components p).map String.toList = p.toList.splitOn '/' := by
    simp [Path.components, Function.comp_def]
  refine String.toList_inj.mp ?_
  rw [spell, String.toList_intercalate, hlists]
  exact List.intercalate_splitOn '/'

theorem result_of_names (hw : w.Bare) (hahead : w.ahead = cs.map Segment.ofName)
    (hnames : ∀ c ∈ cs, '/' ∉ c.toList ∧ hasNull c = false)
    (hdir : Oracle.isDirectory h.answer w.root = true) : (w.runOn h).result = .ok () := by
  have hliteral : ∀ text name, .literal text name ∈ w.ahead →
      name ≠ "" ∧ hasNull name = false := by
    intro text name hmem
    rw [hahead] at hmem
    obtain ⟨hne, hname⟩ := mem_of_literal_mem_names hmem
    exact ⟨hne, (hnames name hname).2⟩
  refine (outcome_script_iff (Cache.agrees_empty h.answer) hliteral
    (canonizes_of_realpath hw.realpath _) le_rfl).mpr
    ⟨hdir, fun hlists => ?_⟩
  rw [hahead, listsFirst_names] at hlists
  cases hlists

theorem mem_paths_of_names (hw : w.Bare) (hahead : w.ahead = cs.map Segment.ofName) (hcs : cs ≠ [])
    (hnames : ∀ c ∈ cs, '/' ∉ c.toList ∧ hasNull c = false)
    (hspell : spell (w.start.out ++ cs) ≠ "")
    (hdir : Oracle.isDirectory h.answer w.root = true) {r : String} :
    r ∈ Event.paths (w.runOn h).events ↔
      (∃ st, h.status false (Path.child w.root (spell cs)) = .ok st) ∧
        r = spell (w.start.out ++ cs) := by
  have hout : ∀ {t}, w.Lays h.answer w.ahead w.start t → t.out = w.start.out ++ cs := by
    intro t hlays
    rw [hahead] at hlays
    exact out_of_lays_names hlays
  have htrail := exists_lays_names_iff (s := w.start) hw hcs hnames hdir
  rw [← hahead] at htrail
  refine Iff.trans ?_ (and_congr_left' htrail)
  refine Event.mem_paths.trans ((finds_script (result_of_names hw hahead hnames hdir)).trans ?_)
  constructor
  · rintro ⟨t, hlays, ht⟩
    rw [emits_iff hw (exists_of_lays_empty hlays), hout hlays] at ht
    exact ⟨⟨t, hlays⟩, ht.2⟩
  · rintro ⟨⟨t, hlays⟩, rfl⟩
    refine ⟨t, hlays, (emits_iff hw (exists_of_lays_empty hlays)).mpr ⟨hspell, ?_⟩⟩
    rw [hout hlays]

/-- A walk over names from a directory reports what they spell if that leads somewhere, and nothing
else. -/
theorem paths_of_names (hc : cache.Agrees h.answer) (hw : w.Bare)
    (hahead : w.ahead = cs.map Segment.ofName) (hcs : cs ≠ [])
    (hnames : ∀ c ∈ cs, '/' ∉ c.toList ∧ hasNull c = false)
    (hspell : spell (w.start.out ++ cs) ≠ "")
    (hdir : Oracle.isDirectory h.answer w.root = true) :
    (w.run h cache).result = .ok () ∧
      Event.paths (w.run h cache).events =
        if (h.status false (Path.child w.root (spell cs))).isOk then [spell (w.start.out ++ cs)]
        else [] := by
  rw [run_of_agrees w h hc]
  have hpaths := fun r => mem_paths_of_names (r := r) hw hahead hcs hnames hspell hdir
  refine ⟨result_of_names hw hahead hnames hdir, ?_⟩
  cases hst : h.status false (Path.child w.root (spell cs)) with
  | error e =>
    refine List.eq_nil_iff_forall_not_mem.mpr fun r hr => ?_
    obtain ⟨⟨st, hno⟩, -⟩ := (hpaths r).mp hr
    rw [hst] at hno
    cases hno
  | ok st =>
    refine List.perm_singleton.mp ((List.perm_ext_iff_of_nodup (Event.nodup_paths _)
      (List.nodup_singleton _)).mpr fun r => ?_)
    rw [hpaths r, List.mem_singleton, hst]
    exact and_iff_right ⟨st, rfl⟩

/-- A walk over the components of a path reports the path if it leads somewhere, and nothing
else. -/
theorem paths_of_path {t : String} {i n : Nat} (hc : cache.Agrees h.answer) (hw : w.Bare)
    (hpath : w.alternative = .ofPath i n t) (ht : t ≠ "") (hnull : hasNull t = false)
    (hcwd : Oracle.isDirectory h.answer w.cwd = true) :
    (w.run h cache).result = .ok () ∧
      Event.paths (w.run h cache).events =
        if (h.status false (Path.join w.cwd t)).isOk then [t] else [] := by
  have hnames : ∀ c ∈ Path.components t, '/' ∉ c.toList ∧ hasNull c = false := fun c hmem =>
    ⟨Path.slash_not_mem_of_mem_components hmem, Host.hasNull_of_mem_components hnull hmem⟩
  have hsegments : w.alternative.segments = (Path.components t).map Segment.ofName :=
    congrArg Alternative.segments hpath
  have hroot : w.alternative.root = if Path.isAbsolute t then "/" else "" :=
    congrArg Alternative.root hpath
  cases habs : Path.isAbsolute t with
  | true =>
    rw [habs, if_pos rfl] at hroot
    have hisAbsolute : w.alternative.isAbsolute = true := by simp [Alternative.isAbsolute, hroot]
    obtain ⟨q, rfl⟩ := Path.exists_of_absolute habs
    rw [Path.components_of_slash] at hsegments hnames
    have hahead : w.ahead = (Path.components q).map Segment.ofName := by
      simp [ahead, hisAbsolute, hsegments]
    have hout : w.start.out = [""] := by
      simp [start, hisAbsolute, Alternative.parts, hsegments, ofName_empty, Segment.text]
    have hwalkRoot : w.root = "/" := by simp [root, hisAbsolute, hroot]
    have hspell : spell (w.start.out ++ Path.components q) = "/" ++ q := by
      rw [hout, List.singleton_append, spell_cons _ (Path.components_ne_nil q), spell_components]
      rfl
    have hslash : Oracle.isDirectory h.answer w.root = true := hwalkRoot ▸ h.isDirectory_slash
    have hpaths := paths_of_names hc hw hahead (Path.components_ne_nil q)
      (List.forall_mem_cons.mp hnames).2 (by rwa [hspell]) hslash
    have hjoin : Path.join w.cwd ("/" ++ q) = Path.child "/" q := if_pos habs
    rwa [hspell, spell_components, hwalkRoot, ← hjoin] at hpaths
  | false =>
    rw [habs] at hroot
    have hisAbsolute : w.alternative.isAbsolute = false := by simp [Alternative.isAbsolute, hroot]
    have hahead : w.ahead = (Path.components t).map Segment.ofName := by
      simp [ahead, hisAbsolute, hsegments]
    have hwalkRoot : w.root = w.cwd := by simp [root, hisAbsolute]
    have hspell : spell (w.start.out ++ Path.components t) = t := by
      simp [start, hisAbsolute, spell_components]
    obtain ⟨-, loc, -, hloc, -⟩ := Host.isDirectory_answer.mp hcwd
    have hpaths := paths_of_names hc hw hahead (Path.components_ne_nil t) hnames (by rwa [hspell])
      (by rwa [hwalkRoot])
    rwa [hspell, spell_components, hwalkRoot,
      ← Path.join_of_relative (Host.ne_empty_of_locate hloc) habs] at hpaths

end Walk

end PathGlob
