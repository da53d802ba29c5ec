import PathGlob.Proofs.FileSystem.Footprint
import PathGlob.Proofs.Settings.Search

/-!
# The nearest settings file

Of the candidates the first that is usable counts, and loading it reads the table by which it is
usable. What stands in the way of a nearer candidate, or in its place, has no part in this as long
as it does not make that candidate usable; nor has anything where the search does not look.
-/
namespace PathGlob

namespace Settings

variable {h h' : Host} {name path start place : String} {cs : List (String × String)}
  {text : List Char} {fields table : Toml.Fields}

/-! ## Usable candidates -/

def HasTable (h : Host) (path : String) (table : Toml.Fields) : Prop :=
  ∃ text fields tools, h.readText path = .ok text ∧ Toml.read text = .ok fields ∧
    fields.lookup "tool" = some (.table tools) ∧ tools.lookup "shellglob" = some (.table table)

/-- A candidate is a file and, if it is a project file, has a table of settings. -/
def Usable (h : Host) (name path : String) : Prop :=
  isFile h path = .ok true ∧ (name = projectFile → ∃ table, HasTable h path table)

/-- A text is malformed, or what it says of tools is a table. -/
def Tame (text : List Char) : Prop :=
  Toml.read text = .error .malformed ∨ ∃ fields, Toml.read text = .ok fields ∧
    (fields.lookup "tool" = none ∨ ∃ tools, fields.lookup "tool" = some (.table tools))

/-- A text is malformed, or has no table of settings among its tools. -/
def Tableless (text : List Char) : Prop :=
  Toml.read text = .error .malformed ∨ ∃ fields, Toml.read text = .ok fields ∧
    (fields.lookup "tool" = none ∨ ∃ tools, fields.lookup "tool" = some (.table tools) ∧
      ∀ table, tools.lookup "shellglob" ≠ some (.table table))

theorem projectTable_eq_some : projectTable fields = .ok (some table) ↔ ∃ tools,
    fields.lookup "tool" = some (.table tools) ∧ tools.lookup "shellglob" = some (.table table) := by
  unfold projectTable
  cases htool : fields.lookup "tool" with
  | none => simp
  | some value =>
    cases value with
    | table tools =>
      cases hown : tools.lookup "shellglob" with
      | none => simp [hown]
      | some value => cases value <;> simp [hown]
    | _ => simp

theorem readProject_eq_some : readProject h path = .ok (some table) ↔ HasTable h path table := by
  unfold HasTable
  cases htext : h.readText path with
  | error e => cases e <;> simp [readProject, htext]
  | ok text =>
    cases hread : Toml.read text with
    | error e => cases e <;> simp [readProject, htext, hread]
    | ok fields => simp [readProject, htext, hread, projectTable_eq_some]

theorem isUsable_iff_usable : isUsable h name path = .ok true ↔ Usable h name path := by
  simp only [isUsable_eq_true, readProject_eq_some, Usable]

theorem exists_readProject (htext : h.readText path = .ok text) (htame : Tame text) :
    ∃ found, readProject h path = .ok found := by
  rcases htame with hread | ⟨fields, hread, htool⟩
  · exact ⟨none, by simp [readProject, htext, hread]⟩
  · have hproject : readProject h path = projectTable fields := by simp [readProject, htext, hread]
    rw [hproject]
    cases hfound : projectTable fields with
    | ok found => exact ⟨found, rfl⟩
    | error e =>
      obtain ⟨-, value, hvalue, hno⟩ := projectTable_eq_error.mp hfound
      rcases htool with htool | ⟨tools, htool⟩
      · simp [htool] at hvalue
      · exact absurd (Option.some.inj (hvalue.symm.trans htool)) (hno tools)

theorem readProject_of_tableless (htext : h.readText path = .ok text) (hless : Tableless text) :
    readProject h path = .ok none := by
  obtain hread | ⟨fields, hread, htool⟩ := hless
  · simp [readProject, htext, hread]
  · simp only [readProject, htext, hread, projectTable]
    rcases htool with htool | ⟨tools, htool, hno⟩
    · rw [htool]
    · rw [htool]
      dsimp only
      split
      · exact absurd ‹_› (hno _)
      · rfl

def ProjectsTame (h : Host) : Prop :=
  ∀ dir, isFile h (pathIn dir projectFile) = .ok true →
    ∃ text, h.readText (pathIn dir projectFile) = .ok text ∧ Tame text

def isTame (text : List Char) : Bool :=
  match Toml.read text with
  | .error .malformed => true
  | .error .tooManyDigits => false
  | .ok fields =>
    match fields.lookup "tool" with
    | none => true
    | some (.table _) => true
    | some _ => false

theorem isTame_iff : isTame text = true ↔ Tame text := by
  unfold isTame Tame
  cases hread : Toml.read text with
  | error e => cases e <;> simp
  | ok fields =>
    simp only [reduceCtorEq, Except.ok.injEq, exists_eq_left', false_or]
    cases fields.lookup "tool" with
    | none => simp
    | some value => cases value <;> simp

def hasTameFiles (fs : FileSystem) : Bool :=
  fs.items.all fun i => match i.node with
    | .file readable content =>
      readable && (Text.Utf8.decode content).toOption.any fun cs => isTame (Text.unifyNewlines cs)
    | _ => true

theorem projectsTame_of_hasTameFiles (htame : hasTameFiles h.files = true) : ProjectsTame h := by
  intro dir hfile
  obtain ⟨hnull, loc, readable, content, hto, hnode⟩ := isFile_eq_true.mp hfile
  obtain ⟨i, hi, -, hfile⟩ := (FileSystem.node?_cases hnode).resolve_left (by simp)
  have hi := List.all_eq_true.mp htame i hi
  simp only [hfile, Bool.and_eq_true] at hi
  obtain ⟨rfl, hany⟩ := hi
  obtain ⟨cs, hdecodes, htext⟩ := Except.exists_of_any hany
  refine ⟨_, ?_, isTame_iff.mp htext⟩
  rw [readText_of_file hnull hto hnode, hdecodes]

theorem exists_isUsable (hsearch : h.files.Searchable)
    (htame : name = projectFile → isFile h path = .ok true →
      ∃ text, h.readText path = .ok text ∧ Tame text) :
    ∃ b, isUsable h name path = .ok b := by
  obtain ⟨b, hfile⟩ := exists_isFile hsearch path
  cases b with
  | false => exact ⟨false, by simp [isUsable, hfile, bind, Except.bind, pure, Except.pure]⟩
  | true =>
    by_cases hname : name = projectFile
    · obtain ⟨text, htext, htext'⟩ := htame hname hfile
      obtain ⟨found, hfound⟩ := exists_readProject htext htext'
      exact ⟨found.isSome, by
        simp [isUsable, hfile, hname, hfound, bind, Except.bind, pure, Except.pure]⟩
    · exact ⟨true, by simp [isUsable, hfile, hname, bind, Except.bind, pure, Except.pure]⟩

theorem isUsable_eq_false_iff (hsearch : h.files.Searchable) (hprojects : ProjectsTame h)
    (hmem : (name, path) ∈ candidates place) :
    isUsable h name path = .ok false ↔ ¬ Usable h name path := by
  obtain ⟨-, dir, rfl⟩ := exists_dir_of_mem_candidates hmem
  have htame : name = projectFile → isFile h (pathIn dir name) = .ok true →
      ∃ text, h.readText (pathIn dir name) = .ok text ∧ Tame text := by
    rintro rfl
    exact hprojects dir
  obtain ⟨b, hb⟩ := exists_isUsable hsearch htame
  rw [← isUsable_iff_usable, hb]
  cases b <;> simp

/-! ## Other hosts -/

/-- What may be on the way of a candidate, where `rest` is left, without its becoming usable: no
directory at an entry that is to be gone through, and at its own entry no file that is usable. -/
inductive Idle (name : String) : (rest : List String) → Option Node → Prop
  | missing (rest : List String) : Idle name rest none
  | blocked (c : String) (rest : List String) (readable : Bool) (content : List UInt8) :
      Idle name (c :: rest) (some (.file readable content))
  | directory (access : Access) : Idle name [] (some (.directory access))
  | tableless (content : List UInt8) (cs : List Char) (project : name = projectFile)
      (decodes : Text.Utf8.decode content = .ok cs) (table : Tableless (Text.unifyNewlines cs)) :
      Idle name [] (some (.file true content))

/-- Another host has not made a candidate usable: it is the same wherever the search looks for it,
or where it is another for the first time, there is nothing that could do so. -/
inductive Spared (h h' : Host) (name path : String) : Prop
  | untouched (same : h.SameFor h' path)
  | changed (front rest : List String) (loc : Location) (n : Name)
      (split : Path.components path = front ++ n.text :: rest)
      (leads : h.files.resolve true maxLinks [] front = .ok loc)
      (same : h.files.SameAt h'.files (h.files.footprint maxLinks [] front))
      (idle : Idle name rest (h'.files.node? (loc ++ [n])))

theorem isFile_congr (habs : Path.isAbsolute path = true) (hsame : h.SameFor h' path) :
    isFile h' path = isFile h path := by
  have hkind := Host.status_congr habs hsame
  unfold isFile
  cases hst : h.status true path <;> cases hst' : h'.status true path <;>
    simp_all [Except.map]

theorem readProject_congr (habs : Path.isAbsolute path = true) (hsame : h.SameFor h' path) :
    readProject h' path = readProject h path := by
  rw [readProject, readProject, Host.readText_congr habs hsame]

theorem isUsable_congr (habs : Path.isAbsolute path = true) (hsame : h.SameFor h' path) :
    isUsable h' name path = isUsable h name path := by
  rw [isUsable, isUsable, isFile_congr habs hsame, readProject_congr habs hsame]

theorem load_congr (habs : Path.isAbsolute path = true) (hsame : h.SameFor h' path) :
    load h' path = load h path := by
  rw [load, load, readProject_congr habs hsame, Host.readText_congr habs hsame]

theorem isFile_of_fault {f : Fault} (hfault : h.locate true path = .error f) (hf : f ≠ .denied) :
    isFile h path = .ok false := by
  have hst : h.status true path = .error f := by simp [Host.status, hfault, bind, Except.bind]
  unfold isFile
  rw [hst]
  cases f <;> simp_all

theorem isFile_of_directory {loc : Location} {access : Access}
    (hloc : h.locate true path = .ok loc)
    (hnode : h.files.node? loc = some (.directory access)) : isFile h path = .ok false := by
  have hst := Host.status_eq_ok.mpr ⟨loc, _, hloc, hnode, rfl⟩
  unfold isFile
  rw [hst]
  simp [Node.kind]

theorem isUsable_of_not_isFile (hfile : isFile h path = .ok false) :
    isUsable h name path = .ok false := by
  simp [isUsable, hfile, bind, Except.bind, pure, Except.pure]

theorem isUsable_of_idle {front rest : List String} {loc : Location} {n : Name}
    (habs : Path.isAbsolute path = true) (hsplit : Path.components path = front ++ n.text :: rest)
    (hleads : h.files.resolve true maxLinks [] front = .ok loc)
    (hopen : ∀ access, h.files.node? loc = some (.directory access) → access.searchable = true)
    (hidle : Idle name rest (h.files.node? (loc ++ [n]))) : isUsable h name path = .ok false := by
  obtain ⟨left, hleft⟩ := FileSystem.resolve_behind hleads
  have hne : path ≠ "" := by
    rintro rfl
    cases habs
  have hlocate : h.locate true path = h.files.resolve true left loc (n.text :: rest) := by
    rw [← hleft true _ (.inl rfl), ← hsplit, Host.locate, if_neg hne, Host.startOf, if_pos habs]
  by_cases hdir : ∃ access, h.files.node? loc = some (.directory access)
  swap
  · refine isUsable_of_not_isFile (isFile_of_fault (f := .notDirectory) ?_ (by decide))
    rw [hlocate, FileSystem.resolve_cons]
    split
    · exact absurd ⟨_, ‹_›⟩ hdir
    · rfl
  obtain ⟨access, hnode⟩ := hdir
  rw [FileSystem.resolve_name_cons true left hnode, hopen access hnode] at hlocate
  generalize hthere : h.files.node? (loc ++ [n]) = there at hlocate hidle
  cases hidle with
  | missing => exact isUsable_of_not_isFile (isFile_of_fault (f := .notFound) hlocate (by decide))
  | blocked c rest readable content =>
    refine isUsable_of_not_isFile
      (isFile_of_fault (f := .notDirectory) (hlocate.trans ?_) (by decide))
    simp only [Bool.not_true, Bool.false_eq_true, if_false, FileSystem.resolve_cons, hthere]
  | directory access =>
    exact isUsable_of_not_isFile
      (isFile_of_directory (hlocate.trans (FileSystem.resolve_nil ..)) hthere)
  | tableless content cs project decodes table =>
    have hloc : h.locate true path = .ok (loc ++ [n]) :=
      hlocate.trans (FileSystem.resolve_nil ..)
    by_cases hnull : hasNull path = true
    · exact isUsable_of_not_isFile (by rw [isFile, if_pos hnull])
    rw [Bool.not_eq_true] at hnull
    have hfile := isFile_eq_true.mpr ⟨hnull, _, _, _, hloc, hthere⟩
    have htext : h.readText path = .ok (Text.unifyNewlines cs) := by
      rw [readText_of_file hnull hloc hthere, decodes]
    simp [isUsable, hfile, project, readProject_of_tableless htext table, bind, Except.bind, pure,
      Except.pure]

theorem Spared.isUsable (hspared : Spared h h' name path) (hsearch : h.files.Searchable)
    (habs : Path.isAbsolute path = true) (hno : isUsable h name path = .ok false) :
    isUsable h' name path = .ok false := by
  cases hspared with
  | untouched same => rw [isUsable_congr habs same, hno]
  | changed front rest loc n split leads same idle =>
    obtain ⟨hresolve, hnode⟩ := FileSystem.alike_of_sameAt same
    refine isUsable_of_idle habs split (hresolve.trans leads) (fun access hdir => ?_) idle
    rw [hnode loc leads] at hdir
    exact hsearch loc access hdir

section Entries

variable {dir : Location} {n : Name} (hsearch : h.files.Searchable)
  (hcs : Path.components path = "" :: (dir ++ [n]).map Name.text)
  (hdirs : ∀ d, d <+: dir → ∃ access, h.files.node? d = some (.directory access))
include hsearch hcs hdirs

/-- A candidate that is no link, in a directory that is reached without links, is the same where its
entry and those that lead there are. -/
theorem sameFor_of_entries (habs : Path.isAbsolute path = true)
    (hlink : ∀ target, h.files.node? (dir ++ [n]) ≠ some (.link target))
    (hsame : ∀ d, d <+: dir → h'.files.node? d = h.files.node? d)
    (hentry : h'.files.node? (dir ++ [n]) = h.files.node? (dir ++ [n])) : h.SameFor h' path := by
  intro d hd
  rcases List.prefix_concat_iff.mp ((Host.mem_footprint_iff hsearch habs hcs hdirs hlink).mp hd) with
    rfl | hd
  · exact hentry
  · exact hsame d hd

/-- What comes to such a directory in the place of a candidate spares it, if it is idle. -/
theorem Spared.of_entry (hsame : ∀ d, d <+: dir → h'.files.node? d = h.files.node? d)
    (hidle : Idle name [] (h'.files.node? (dir ++ [n]))) : Spared h h' name path := by
  have hroot : ∀ rest, h.files.resolve true maxLinks [] ("" :: rest) =
      h.files.resolve true maxLinks [] rest := fun rest => by
    rw [FileSystem.resolve_cons]
    simp [FileSystem.node?]
  refine .changed ("" :: dir.map Name.text) [] dir n ?_ ?_ (fun d hd => hsame d ?_) hidle
  · rw [hcs, List.map_append]
    rfl
  · rw [hroot, ← List.append_nil (dir.map _), FileSystem.resolve_down hsearch hdirs,
      FileSystem.resolve_nil]
  · rw [FileSystem.footprint_cons] at hd
    simp only [FileSystem.node?, if_true, List.mem_cons] at hd
    rcases hd with rfl | hd
    · exact List.nil_prefix
    · rw [← List.append_nil (dir.map _), FileSystem.mem_footprint_down hsearch hdirs,
        FileSystem.footprint_nil, List.mem_singleton] at hd
      rcases hd with hd | rfl
      · exact hd
      · exact List.prefix_refl _

end Entries

/-! ## The search -/

/-- The first usable candidate, with those in front of it. -/
def Nearest (h : Host) (place : String) (before : List (String × String)) (name path : String) :
    Prop :=
  (∃ after, candidates place = before ++ (name, path) :: after) ∧ Usable h name path ∧
    ∀ c ∈ before, ¬ Usable h c.1 c.2

theorem isAbsolute_of_mem_candidates (hmem : (name, path) ∈ candidates place) :
    Path.isAbsolute path = true := by
  obtain ⟨-, dir, rfl⟩ := exists_dir_of_mem_candidates hmem
  simp [pathIn, Path.isAbsolute]

theorem find_of_startingPoint (hplace : startingPoint h start = .ok place) :
    find h start = firstUsable h (candidates place) := by
  simp [find, hplace, bind, Except.bind]

theorem Nearest.mem {before : List (String × String)} (hnearest : Nearest h place before name path) :
    (name, path) ∈ candidates place := by
  obtain ⟨⟨after, hcs⟩, -⟩ := hnearest
  simp [hcs]

/-- Where names may be looked up in all directories, no loop of links is on the way of the start and
project files are tame, the search returns the first usable candidate, if there is one, and loading
it reads its table. On another host from which it starts at the same place, it returns the same if
the candidates in front have been spared and the one found is looked for where nothing is changed,
and loading gives the same. -/
theorem find_nearest (h : Host) (start : String) (hsearch : h.files.Searchable)
    (hfree : h.files.NullFree) (hprojects : ProjectsTame h) (hstart : hasNull start = false)
    (hplaced : Path.isAbsolute start = false → h.Placed)
    (hloop : ∀ link, h.journey false (Path.tidy start) ≠ .ok (.looped link)) :
    ∃ place, startingPoint h start = .ok place ∧
      (∀ path, find h start = .ok (some path) ↔
        ∃ before name, Nearest h place before name path) ∧
      (find h start = .ok none ↔ ∀ c ∈ candidates place, ¬ Usable h c.1 c.2) ∧
      (∀ path, find h start = .ok (some path) → Path.baseName path = projectFile →
        ∃ table, HasTable h path table ∧ load h path = noted (ofFields table)) ∧
      ∀ h', startingPoint h' start = .ok place →
        (∀ before name path, Nearest h place before name path →
          (∀ c ∈ before, Spared h h' c.1 c.2) → h.SameFor h' path →
          find h' start = .ok (some path) ∧ load h' path = load h path) ∧
        (find h start = .ok none → (∀ c ∈ candidates place, Spared h h' c.1 c.2) →
          find h' start = .ok none) := by
  obtain ⟨place, hplace⟩ := exists_startingPoint hsearch hfree hstart hplaced hloop
  have hno : ∀ c ∈ candidates place, (isUsable h c.1 c.2 = .ok false ↔ ¬ Usable h c.1 c.2) :=
    fun c hc => isUsable_eq_false_iff hsearch hprojects hc
  have hsome : ∀ path, find h start = .ok (some path) ↔
      ∃ before name, Nearest h place before name path := by
    intro path
    rw [find_of_startingPoint hplace, firstUsable_eq_some]
    constructor
    · rintro ⟨name, path, ⟨before, after, hcs, hbefore⟩, rfl, huse⟩
      refine ⟨before, name, ⟨after, hcs⟩, isUsable_iff_usable.mp huse, fun c hc => ?_⟩
      exact (hno c (hcs ▸ List.mem_append_left _ hc)).mp (hbefore c hc)
    · rintro ⟨before, name, ⟨after, hcs⟩, huse, hbefore⟩
      refine ⟨name, path, ⟨before, after, hcs, fun c hc => ?_⟩, rfl, isUsable_iff_usable.mpr huse⟩
      exact (hno c (hcs ▸ List.mem_append_left _ hc)).mpr (hbefore c hc)
  have hnone : find h start = .ok none ↔ ∀ c ∈ candidates place, ¬ Usable h c.1 c.2 := by
    rw [find_of_startingPoint hplace, firstUsable_eq_none]
    exact forall₂_congr hno
  refine ⟨place, hplace, hsome, hnone, fun path hpath hname => ?_, fun h' hplace' => ⟨?_, ?_⟩⟩
  · obtain ⟨before, name, hnearest⟩ := (hsome path).mp hpath
    obtain ⟨table, htable⟩ :=
      hnearest.2.1.2 ((baseName_of_mem_candidates hnearest.mem).symm.trans hname)
    refine ⟨table, htable, load_of_holds ?_⟩
    rw [Holds, if_pos hname, readProject_eq_some]
    exact htable
  · intro before name path hnearest hspared hsame
    have habs := isAbsolute_of_mem_candidates hnearest.mem
    obtain ⟨⟨after, hcs⟩, huse, hbefore⟩ := hnearest
    have hbefore' : ∀ c ∈ before, isUsable h' c.1 c.2 = .ok false := fun c hc => by
      have hmem : c ∈ candidates place := hcs ▸ List.mem_append_left _ hc
      exact (hspared c hc).isUsable hsearch (isAbsolute_of_mem_candidates hmem)
        ((hno c hmem).mpr (hbefore c hc))
    refine ⟨?_, load_congr habs hsame⟩
    rw [find_of_startingPoint hplace', firstUsable_eq_some]
    exact ⟨name, path, ⟨before, after, hcs, hbefore'⟩, rfl,
      (isUsable_congr habs hsame).trans (isUsable_iff_usable.mpr huse)⟩
  · intro hnothing hspared
    rw [find_of_startingPoint hplace', firstUsable_eq_none]
    exact fun c hc => (hspared c hc).isUsable hsearch (isAbsolute_of_mem_candidates hc)
      ((hno c hc).mpr (hnone.mp hnothing c hc))

def nestedHost : Host where
  files := ((FileSystem.empty.apply (.directory (.ofText "w/d/e"))).apply
    (asciiFile "w/d/pyproject.toml" "[tool.shellglob]\ndot = true".toList)).apply
    (asciiFile "w/shellglob.toml" "mark = true".toList)
  cwd := "/w/d/e"

/-- The same host with a malformed project file and a directory in front of those settings, and with
another file behind them. -/
def decoyHost : Host where
  files := ((nestedHost.files.apply (asciiFile "w/d/e/pyproject.toml" "[tool".toList)).apply
    (.directory (.ofText "w/d/.shellglob.toml"))).apply
    (asciiFile "w/shellglob.toml" "follow = true".toList)
  cwd := "/w/d/e"

def nestedFront : List (String × String) :=
  [(".shellglob.toml", "/w/d/e/.shellglob.toml"), ("shellglob.toml", "/w/d/e/shellglob.toml"),
    (projectFile, "/w/d/e/pyproject.toml"), (".shellglob.toml", "/w/d/.shellglob.toml"),
    ("shellglob.toml", "/w/d/shellglob.toml")]

theorem nearest_nestedHost :
    Nearest nestedHost "/w/d/e" nestedFront projectFile "/w/d/pyproject.toml" := by
  have hpassed : ∀ c ∈ nestedFront, isUsable nestedHost c.1 c.2 = .ok false := by decide +kernel
  refine ⟨⟨(candidates "/w/d/e").drop 6, by decide +kernel⟩,
    isUsable_iff_usable.mp (by decide +kernel), fun c hc huse => ?_⟩
  simpa [hpassed c hc] using isUsable_iff_usable.mpr huse

/-- No link is on the way to the working directory, and nothing is changed there. -/
theorem way_nestedHost {d : Location} (hd : d <+: Location.ofText "w/d/e") :
    nestedHost.files.node? d = some (.directory {}) ∧
      decoyHost.files.node? d = nestedHost.files.node? d := by
  have hway : ∀ d ∈ (Location.ofText "w/d/e").inits,
      nestedHost.files.node? d = some (.directory {}) ∧
        decoyHost.files.node? d = nestedHost.files.node? d := by decide +kernel
  exact hway d ((List.mem_inits _ _).mpr hd)

theorem way_above {d : Location} (hd : d <+: Location.ofText "w/d") :
    d <+: Location.ofText "w/d/e" :=
  hd.trans (by decide +kernel)

theorem spared_nestedHost : ∀ c ∈ nestedFront, Spared nestedHost decoyHost c.1 c.2 := by
  have hsearch := (FileSystem.open_of_isOpen nestedHost.files rfl).2
  have hmalformed : decoyHost.files.node?
      (Location.ofText "w/d/e" ++ [⟨"pyproject.toml", by decide⟩]) =
        some (.file true ("[tool".toList.map fun c => c.toNat.toUInt8)) := by decide +kernel
  have hdirectory : decoyHost.files.node?
      (Location.ofText "w/d" ++ [⟨".shellglob.toml", by decide⟩]) =
        some (.directory {}) := by decide +kernel
  simp only [nestedFront, List.forall_mem_cons]
  refine ⟨.untouched (by decide +kernel), .untouched (by decide +kernel), ?_, ?_,
    .untouched (by decide +kernel), List.forall_mem_nil _⟩
  · refine .of_entry (n := ⟨"pyproject.toml", by decide⟩) hsearch (by decide +kernel)
      (fun d hd => ⟨{}, (way_nestedHost hd).1⟩) (fun d hd => (way_nestedHost hd).2) ?_
    rw [hmalformed]
    exact .tableless _ "[tool".toList rfl (by decide +kernel) (.inl (by cbv))
  · refine .of_entry (n := ⟨".shellglob.toml", by decide⟩) hsearch (by decide +kernel)
      (fun d hd => ⟨{}, (way_nestedHost (way_above hd)).1⟩)
      (fun d hd => (way_nestedHost (way_above hd)).2) ?_
    rw [hdirectory]
    exact .directory {}

theorem sameFor_nestedHost : nestedHost.SameFor decoyHost "/w/d/pyproject.toml" := by
  have hfile : nestedHost.files.node?
      (Location.ofText "w/d" ++ [⟨"pyproject.toml", by decide⟩]) = some (.file true
        ("[tool.shellglob]\ndot = true".toList.map fun c => c.toNat.toUInt8)) := by decide +kernel
  exact sameFor_of_entries (n := ⟨"pyproject.toml", by decide⟩)
    (FileSystem.open_of_isOpen nestedHost.files rfl).2 (by decide +kernel)
    (fun d hd => ⟨{}, (way_nestedHost (way_above hd)).1⟩) (by decide +kernel) (by simp [hfile])
    (fun d hd => (way_nestedHost (way_above hd)).2) (by decide +kernel)

/-- The settings are found behind the decoys, and loaded as before. -/
theorem find_nearest_decoys :
    find decoyHost "." = .ok (some "/w/d/pyproject.toml") ∧
      ∃ r, load decoyHost "/w/d/pyproject.toml" = .ok r ∧ r.1.flags .dot = some true := by
  have hplaced : nestedHost.Placed := Host.placed_of_isPlaced _ (by decide +kernel)
  have hjourney : nestedHost.journey false (Path.tidy ".") = .ok (.arrived ⟨false, []⟩) := by
    decide +kernel
  obtain ⟨place, hplace, -, -, -, hothers⟩ := find_nearest nestedHost "."
    (FileSystem.open_of_isOpen nestedHost.files rfl).2 (FileSystem.nullFree_of_isNullFree _ rfl)
    (projectsTame_of_hasTameFiles (by decide +kernel)) (by decide) (fun _ => hplaced)
    (by simp [hjourney])
  have hstart : startingPoint nestedHost "." = .ok "/w/d/e" := by decide +kernel
  obtain rfl : "/w/d/e" = place := Except.ok.inj (hstart.symm.trans hplace)
  obtain ⟨hfind, hload⟩ := (hothers decoyHost (by decide +kernel)).1 nestedFront _ _
    nearest_nestedHost spared_nestedHost sameFor_nestedHost
  obtain ⟨r, hr, hdot⟩ := Except.exists_of_any (x := load nestedHost "/w/d/pyproject.toml")
    (q := fun r => r.1.flags .dot = some true) (by decide +kernel)
  exact ⟨hfind, r, hload.trans hr, of_decide_eq_true hdot⟩

/-- A host with a settings file of the given text, and in front of it a candidate that is a link to
that file. -/
def aliasHost (text : List Char) : Host where
  files := (FileSystem.empty.apply (asciiFile "w/shellglob.toml" text)).apply
    (.link (.ofText "w/.shellglob.toml") "shellglob.toml")
  cwd := "/w"

/-- Nothing but the second candidate is changed, and the first, which is found before and after, is
loaded in another way. -/
theorem exists_load_changed_behind :
    ∃ (h h' : Host) (second : Location) (after : List (String × String)),
      h.files.isOpen = true ∧ ProjectsTame h ∧
      (∀ loc, loc ≠ second → h'.files.node? loc = h.files.node? loc) ∧
      startingPoint h "." = .ok "/w" ∧ startingPoint h' "." = .ok "/w" ∧
      candidates "/w" = (".shellglob.toml", "/w/.shellglob.toml") ::
        ("shellglob.toml", "/w/shellglob.toml") :: after ∧
      h.locate false "/w/shellglob.toml" = .ok second ∧
      Usable h ".shellglob.toml" "/w/.shellglob.toml" ∧
      find h "." = .ok (some "/w/.shellglob.toml") ∧
      find h' "." = .ok (some "/w/.shellglob.toml") ∧
      load h' "/w/.shellglob.toml" ≠ load h "/w/.shellglob.toml" := by
  let h := aliasHost "dot = true".toList
  let h' := aliasHost "mark = true".toList
  refine ⟨h, h', .ofText "w/shellglob.toml", (candidates "/w").drop 2, by decide +kernel,
    projectsTame_of_hasTameFiles (by decide +kernel), fun loc hne => ?_, by decide +kernel,
    by decide +kernel, by decide +kernel, by decide +kernel,
    isUsable_iff_usable.mp (by decide +kernel), by decide +kernel, by decide +kernel, ?_⟩
  · have hitems : ∀ text, (aliasHost text).files.items =
        [⟨.ofText "w", 1, .directory {}⟩,
          ⟨.ofText "w/shellglob.toml", 2, .file true (text.map fun c => c.toNat.toUInt8)⟩,
          ⟨.ofText "w/.shellglob.toml", 3, .link "shellglob.toml"⟩] := fun text => rfl
    have hroot : h'.files.root = h.files.root := rfl
    simp only [FileSystem.node?, FileSystem.item?, hroot, h, h', hitems]
    generalize Location.ofText "w/shellglob.toml" = second at hne ⊢
    simp only [List.find?_cons, decide_eq_false (Ne.symm hne)]
  · have hdot : ((load h "/w/.shellglob.toml").toOption.any fun r => r.1.flags .dot = some true) =
        true := by decide +kernel
    have hnodot : ((load h' "/w/.shellglob.toml").toOption.any fun r =>
        r.1.flags .dot = some true) = false := by decide +kernel
    intro hload
    rw [hload, hdot] at hnodot
    cases hnodot

end Settings

end PathGlob
