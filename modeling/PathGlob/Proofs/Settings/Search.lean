import PathGlob.Proofs.FileSystem.Direct
import PathGlob.Proofs.FileSystem.NullFree
import PathGlob.Proofs.Settings.Table

/-!
# The search for settings

The search stops at the first candidate that is not passed over. Where all directories and files are
open and the start is behind no loop of links, it fails only for what a project file says, and
loading the file that it finds fails only for what that file says.
-/
namespace PathGlob

def FileSystem.FilesReadable (fs : FileSystem) : Prop :=
  ∀ loc readable content, fs.node? loc = some (.file readable content) → readable = true

def FileSystem.hasReadableFiles (fs : FileSystem) : Bool :=
  fs.items.all fun i => match i.node with
    | .file readable _ => readable
    | _ => true

theorem FileSystem.filesReadable_of_hasReadableFiles (fs : FileSystem)
    (h : fs.hasReadableFiles = true) : fs.FilesReadable := by
  intro loc readable content hnode
  rcases node?_cases hnode with ⟨-, hroot⟩ | ⟨i, hi, -, hfile⟩
  · cases hroot
  · simpa [hfile] using List.all_eq_true.mp h i hi

namespace Settings

variable {h : Host} {name path start : String} {cs : List (String × String)} {e : LoadError}

/-! ## Candidates -/

/-- All candidates in front of one are passed over. -/
def Reached (h : Host) (cs : List (String × String)) (name path : String) : Prop :=
  ∃ before after, cs = before ++ (name, path) :: after ∧
    ∀ c ∈ before, isUsable h c.1 c.2 = .ok false

theorem reached_cons {n p : String} : Reached h ((n, p) :: cs) name path ↔
    (name = n ∧ path = p) ∨ (isUsable h n p = .ok false ∧ Reached h cs name path) := by
  constructor
  · rintro ⟨before, after, hcs, hbefore⟩
    cases before with
    | nil =>
      cases hcs
      exact .inl ⟨rfl, rfl⟩
    | cons first before =>
      obtain ⟨rfl, rfl⟩ := List.cons.inj hcs
      obtain ⟨hfirst, hmore⟩ := List.forall_mem_cons.mp hbefore
      exact .inr ⟨hfirst, before, after, rfl, hmore⟩
  · rintro (⟨rfl, rfl⟩ | ⟨hfirst, before, after, rfl, hbefore⟩)
    · exact ⟨[], cs, rfl, by simp⟩
    · exact ⟨(n, p) :: before, after, rfl, List.forall_mem_cons.mpr ⟨hfirst, hbefore⟩⟩

theorem not_reached_nil : ¬ Reached h [] name path := by
  rintro ⟨before, after, hcs, -⟩
  simp at hcs

theorem exists_reached_cons {n p : String} {P : String → String → Prop} :
    (∃ name path, Reached h ((n, p) :: cs) name path ∧ P name path) ↔
      P n p ∨ (isUsable h n p = .ok false ∧ ∃ name path, Reached h cs name path ∧ P name path) := by
  simp only [reached_cons]
  constructor
  · rintro ⟨name, path, ⟨rfl, rfl⟩ | ⟨hfirst, hmore⟩, hP⟩
    · exact .inl hP
    · exact .inr ⟨hfirst, name, path, hmore, hP⟩
  · rintro (hP | ⟨hfirst, name, path, hmore, hP⟩)
    · exact ⟨n, p, .inl ⟨rfl, rfl⟩, hP⟩
    · exact ⟨name, path, .inr ⟨hfirst, hmore⟩, hP⟩

theorem firstUsable_cons (n p : String) : firstUsable h ((n, p) :: cs) =
    match isUsable h n p with
    | .error e => .error e
    | .ok usable => if usable then .ok (some p) else firstUsable h cs := by
  rw [firstUsable]
  cases isUsable h n p <;> rfl

theorem firstUsable_eq_error : firstUsable h cs = .error e ↔
    ∃ name path, Reached h cs name path ∧ isUsable h name path = .error e := by
  induction cs with
  | nil => simp [firstUsable, not_reached_nil]
  | cons c rest ih =>
    obtain ⟨n, p⟩ := c
    rw [exists_reached_cons, firstUsable_cons]
    cases huse : isUsable h n p with
    | error e' => simp
    | ok usable => cases usable <;> simp [ih]

theorem firstUsable_eq_some : firstUsable h cs = .ok (some path) ↔
    ∃ name p, Reached h cs name p ∧ p = path ∧ isUsable h name p = .ok true := by
  induction cs with
  | nil => simp [firstUsable, not_reached_nil]
  | cons c rest ih =>
    obtain ⟨n, p⟩ := c
    rw [exists_reached_cons (P := fun name p => p = path ∧ isUsable h name p = .ok true),
      firstUsable_cons]
    cases huse : isUsable h n p with
    | error e' => simp
    | ok usable => cases usable <;> simp [ih]

theorem firstUsable_eq_none :
    firstUsable h cs = .ok none ↔ ∀ c ∈ cs, isUsable h c.1 c.2 = .ok false := by
  induction cs with
  | nil => simp [firstUsable]
  | cons c rest ih =>
    obtain ⟨n, p⟩ := c
    rw [firstUsable_cons, List.forall_mem_cons]
    cases huse : isUsable h n p with
    | error e' => simp
    | ok usable => cases usable <;> simp [ih]

/-! ## Files -/

/-- Why a text is not read as a table, although it may be well formed. -/
inductive Unread (h : Host) (path : String) : LoadError → Prop
  | encoding {e : Text.Utf8.DecodeError} (htext : h.readText path = .error (.encoding e)) :
      Unread h path (.read (.encoding e))
  | digits {text : List Char} (htext : h.readText path = .ok text)
      (hread : Toml.read text = .error .tooManyDigits) : Unread h path .tooManyDigits

theorem unread_iff : Unread h path e ↔
    (∃ e', h.readText path = .error (.encoding e') ∧ e = .read (.encoding e')) ∨
      ∃ text, h.readText path = .ok text ∧ Toml.read text = .error .tooManyDigits ∧
        e = .tooManyDigits := by
  constructor
  · rintro (htext | ⟨htext, hread⟩)
    · exact .inl ⟨_, htext, rfl⟩
    · exact .inr ⟨_, htext, hread, rfl⟩
  · rintro (⟨e', htext, rfl⟩ | ⟨text, htext, hread, rfl⟩)
    · exact .encoding htext
    · exact .digits htext hread

/-- Why it cannot be told whether a project file has settings. -/
inductive ProjectUnread (h : Host) (path : String) : LoadError → Prop
  | unread {e : LoadError} (hunread : Unread h path e) : ProjectUnread h path e
  | tools {text : List Char} {fields : Toml.Fields} {value : Toml.Value}
      (htext : h.readText path = .ok text) (hread : Toml.read text = .ok fields)
      (hvalue : fields.lookup "tool" = some value) (htable : ∀ tools, value ≠ .table tools) :
      ProjectUnread h path .toolNotTable

theorem projectTable_eq_error {fields : Toml.Fields} : projectTable fields = .error e ↔
    e = .toolNotTable ∧
      ∃ value, fields.lookup "tool" = some value ∧ ∀ tools, value ≠ .table tools := by
  unfold projectTable
  cases hvalue : fields.lookup "tool" with
  | none => simp
  | some value =>
    cases value with
    | table tools =>
      dsimp only
      split <;> simp
    | _ => simp [eq_comm]

theorem isFile_eq_true : isFile h path = .ok true ↔ hasNull path = false ∧ ∃ loc readable content,
    h.locate true path = .ok loc ∧ h.files.node? loc = some (.file readable content) := by
  unfold isFile
  by_cases hnull : hasNull path = true
  · simp [hnull]
  rw [if_neg hnull]
  constructor
  · intro hfile
    cases hst : h.status true path with
    | error f => cases f <;> simp [hst] at hfile
    | ok st =>
      obtain ⟨loc, node, hto, hnode, rfl⟩ := Host.status_eq_ok.mp hst
      cases node with
      | directory access => simp [hst, Node.kind] at hfile
      | link target => simp [hst, Node.kind] at hfile
      | file readable content => exact ⟨by simpa using hnull, loc, readable, content, hto, hnode⟩
  · rintro ⟨-, loc, readable, content, hto, hnode⟩
    rw [Host.status_eq_ok.mpr ⟨loc, _, hto, hnode, rfl⟩]
    rfl

/-- The text of a file is told by its bytes. -/
theorem readText_of_file {loc : Location} {content : List UInt8} (hnull : hasNull path = false)
    (hto : h.locate true path = .ok loc) (hnode : h.files.node? loc = some (.file true content)) :
    h.readText path =
      match Text.Utf8.decode content with
      | .error e => .error (.encoding e)
      | .ok cs => .ok (Text.unifyNewlines cs) := by
  have hbytes : h.read path = .ok content := by
    simp [Host.read, hto, hnode, bind, Except.bind, pure, Except.pure]
  rw [Host.readText, hnull, hbytes]
  rfl

/-- A file can be read, unless its bytes are no text. -/
theorem readText_of_isFile (hfiles : h.files.FilesReadable) (hfile : isFile h path = .ok true) :
    (∃ text, h.readText path = .ok text) ∨ ∃ e, h.readText path = .error (.encoding e) := by
  obtain ⟨hnull, loc, readable, content, hto, hnode⟩ := isFile_eq_true.mp hfile
  obtain rfl := hfiles loc readable content hnode
  rw [readText_of_file hnull hto hnode]
  cases Text.Utf8.decode content with
  | error e => exact .inr ⟨e, rfl⟩
  | ok cs => exact .inl ⟨_, rfl⟩

theorem Unread.readProject_eq (hunread : Unread h path e) : readProject h path = .error e := by
  cases hunread with
  | encoding htext => simp [readProject, htext]
  | digits htext hread => simp [readProject, htext, hread]

theorem readProject_eq_error (hfiles : h.files.FilesReadable) (hfile : isFile h path = .ok true) :
    readProject h path = .error e ↔ ProjectUnread h path e := by
  constructor
  · intro herror
    rcases readText_of_isFile hfiles hfile with ⟨text, htext⟩ | ⟨e', htext⟩
    · cases hread : Toml.read text with
      | error fault =>
        cases fault with
        | malformed => simp [readProject, htext, hread] at herror
        | tooManyDigits =>
          obtain rfl : .tooManyDigits = e := by simpa [readProject, htext, hread] using herror
          exact .unread (.digits htext hread)
      | ok fields =>
        have htable : projectTable fields = .error e := by
          simpa [readProject, htext, hread] using herror
        obtain ⟨rfl, value, hvalue, hno⟩ := projectTable_eq_error.mp htable
        exact .tools htext hread hvalue hno
    · obtain rfl : .read (.encoding e') = e := by simpa [readProject, htext] using herror
      exact .unread (.encoding htext)
  · rintro (hunread | ⟨htext, hread, hvalue, hno⟩)
    · exact hunread.readProject_eq
    · have htable := projectTable_eq_error.mpr ⟨rfl, _, hvalue, hno⟩
      simpa [readProject, htext, hread] using htable

theorem exists_isFile (hsearch : h.files.Searchable) (path : String) :
    ∃ b, isFile h path = .ok b := by
  unfold isFile
  split_ifs
  · exact ⟨false, rfl⟩
  cases hst : h.status true path with
  | ok st => exact ⟨_, rfl⟩
  | error f =>
    have hdenied : f ≠ .denied := by
      rintro rfl
      exact h.status_ne_denied hsearch true path hst
    cases f with
    | denied => exact absurd rfl hdenied
    | _ => exact ⟨false, rfl⟩

/-- Where all is open, only a project file keeps a candidate from being told usable or not. -/
theorem isUsable_eq_error (hsearch : h.files.Searchable) (hfiles : h.files.FilesReadable) :
    isUsable h name path = .error e ↔
      name = projectFile ∧ isFile h path = .ok true ∧ ProjectUnread h path e := by
  obtain ⟨b, hb⟩ := exists_isFile hsearch path
  cases b with
  | false => simp [isUsable, hb, bind, Except.bind, pure, Except.pure]
  | true =>
    rw [← readProject_eq_error hfiles hb]
    by_cases hname : name = projectFile
    · cases hread : readProject h path <;>
        simp [isUsable, hb, hname, hread, bind, Except.bind, pure, Except.pure]
    · simp [isUsable, hb, hname, bind, Except.bind, pure, Except.pure]

/-- Any file is usable but a project file without a settings table. -/
theorem isUsable_eq_true : isUsable h name path = .ok true ↔ isFile h path = .ok true ∧
    (name = projectFile → ∃ table, readProject h path = .ok (some table)) := by
  cases hfile : isFile h path with
  | error e => simp [isUsable, hfile, bind, Except.bind]
  | ok b =>
    cases b with
    | false => simp [isUsable, hfile, bind, Except.bind, pure, Except.pure]
    | true =>
      by_cases hname : name = projectFile
      · cases hread : readProject h path with
        | error e => simp [isUsable, hfile, hname, hread, bind, Except.bind]
        | ok table =>
          simp [isUsable, hfile, hname, hread, bind, Except.bind, pure, Except.pure,
            Option.isSome_iff_exists]
      · simp [isUsable, hfile, hname, bind, Except.bind, pure, Except.pure]

/-! ## Loading -/

theorem noted_eq_error {r : Settings × List Notice} :
    noted r = .error e ↔ e = .tooManyDigits ∧ ∃ n ∈ r.2, n.showable = false := by
  unfold noted
  split_ifs with hshown
  · have hall : ∀ n ∈ r.2, n.showable = true := List.all_eq_true.mp hshown
    simpa using fun _ n hn => hall n hn
  · have hsome : ∃ n ∈ r.2, n.showable = false := by simpa using hshown
    rw [Except.error.injEq, and_iff_left hsome]
    exact eq_comm

/-- Loading a file fails if it is not read as a table, or if a notice about it cannot be shown. -/
theorem load_eq_error (hfiles : h.files.FilesReadable) (hfile : isFile h path = .ok true) :
    load h path = .error e ↔
      (if Path.baseName path = projectFile then ProjectUnread h path e else Unread h path e) ∨
        (e = .tooManyDigits ∧
          ∃ table, Holds h path table ∧ ∃ n ∈ (ofFields table).2, n.showable = false) := by
  by_cases hname : Path.baseName path = projectFile
  · simp only [Holds, if_pos hname, ← readProject_eq_error hfiles hfile]
    unfold load
    rw [if_pos hname]
    cases hread : readProject h path with
    | error e' => simp
    | ok found =>
      cases found with
      | none => simp
      | some table => simp [noted_eq_error]
  · simp only [Holds, if_neg hname]
    unfold load
    rw [if_neg hname]
    rcases readText_of_isFile hfiles hfile with ⟨text, htext⟩ | ⟨e', htext⟩
    · cases hread : Toml.read text with
      | error fault =>
        cases fault with
        | malformed => simp [unread_iff, htext, hread]
        | tooManyDigits =>
          simp only [unread_iff, htext, hread]
          simpa [hread] using eq_comm
      | ok table => simp [unread_iff, htext, hread, noted_eq_error]
    · simp only [unread_iff, htext]
      simpa using eq_comm

/-! ## Starting points -/

/-- From a path behind no loop of links, the search starts somewhere. -/
theorem exists_startingPoint (hsearch : h.files.Searchable) (hfree : h.files.NullFree)
    (hstart : hasNull start = false) (hplaced : Path.isAbsolute start = false → h.Placed)
    (hloop : ∀ link, h.journey false (Path.tidy start) ≠ .ok (.looped link)) :
    ∃ place, startingPoint h start = .ok place := by
  have hends := h.ends_journey hfree (Path.hasNull_tidy hstart)
  unfold startingPoint
  generalize h.journey false (Path.tidy start) = way at hends hloop
  cases hends with
  | looped link => exact absurd rfl (hloop link)
  | @arrived there clear stays =>
    have hrelative : there.rooted = false → h.Placed := by
      intro hrooted
      refine hplaced (Bool.eq_false_iff.mpr fun habs => ?_)
      rw [stays (Path.isAbsolute_tidy habs)] at hrooted
      cases hrooted
    refine ⟨there.toPath h.cwd, ?_⟩
    dsimp only
    have hstatus := clear.status_ne_linkLoop hsearch hrelative true
    split
    · contradiction
    · rfl

theorem baseName_pathIn (dir : List String) (hslash : '/' ∉ name.toList) (hdot : name ≠ ".") :
    Path.baseName (pathIn dir name) = name := by
  have hlast : (Path.components (pathIn dir name)).getLast? = some name := by
    rw [pathIn, Path.components_of_slash]
    by_cases hdir : dir = []
    · simp [hdir, Path.components_of_slashless hslash]
    · rw [Path.intercalate_append hdir (by simp), String.intercalate_singleton,
        Path.components_append, Path.components_of_slashless hslash, ← List.cons_append,
        List.getLast?_concat]
  simp [Path.baseName, hlast, hdot]

theorem exists_dir_of_mem_candidates {place : String} (hmem : (name, path) ∈ candidates place) :
    name ∈ fileNames ∧ ∃ dir, path = pathIn dir name := by
  obtain ⟨dir, -, hnames⟩ := List.mem_flatMap.mp hmem
  obtain ⟨n, hn, heq⟩ := List.mem_map.mp hnames
  cases heq
  exact ⟨hn, dir, rfl⟩

theorem baseName_of_mem_candidates {place : String} (hmem : (name, path) ∈ candidates place) :
    Path.baseName path = name := by
  obtain ⟨hn, dir, rfl⟩ := exists_dir_of_mem_candidates hmem
  simp only [fileNames, List.mem_cons, List.not_mem_nil, or_false] at hn
  rcases hn with rfl | rfl | rfl <;> exact baseName_pathIn dir (by decide) (by decide)

theorem baseName_of_reached {place : String} (hreached : Reached h (candidates place) name path) :
    Path.baseName path = name := by
  obtain ⟨before, after, hcs, -⟩ := hreached
  have hmem : (name, path) ∈ candidates place := hcs ▸ by simp
  exact baseName_of_mem_candidates hmem

/-- Where all is open and no loop of links is on the way, the search for settings fails just if the
first candidate that is not passed over is a project file of which it cannot be told whether it has
settings. Loading the file that is found fails just if that is not read as a table, or if a notice
about it cannot be shown. -/
theorem find_load_eq_error (h : Host) (start : String) (hsearch : h.files.Searchable)
    (hfiles : h.files.FilesReadable) (hfree : h.files.NullFree) (hstart : hasNull start = false)
    (hplaced : Path.isAbsolute start = false → h.Placed)
    (hloop : ∀ link, h.journey false (Path.tidy start) ≠ .ok (.looped link)) :
    ∃ place, startingPoint h start = .ok place ∧
      (∀ e, find h start = .error e ↔ ∃ path, Reached h (candidates place) projectFile path ∧
        isFile h path = .ok true ∧ ProjectUnread h path e) ∧
      ∀ path, find h start = .ok (some path) → ∀ e, load h path = .error e ↔
        (Path.baseName path ≠ projectFile ∧ Unread h path e) ∨
          (e = .tooManyDigits ∧
            ∃ table, Holds h path table ∧ ∃ n ∈ (ofFields table).2, n.showable = false) := by
  obtain ⟨place, hplace⟩ := exists_startingPoint hsearch hfree hstart hplaced hloop
  have hfind : find h start = firstUsable h (candidates place) := by
    simp [find, hplace, bind, Except.bind]
  refine ⟨place, hplace, fun e => ?_, fun path hpath e => ?_⟩
  · rw [hfind, firstUsable_eq_error]
    simp only [isUsable_eq_error hsearch hfiles]
    constructor
    · rintro ⟨name, path, hreached, rfl, hmore⟩
      exact ⟨path, hreached, hmore⟩
    · rintro ⟨path, hreached, hmore⟩
      exact ⟨projectFile, path, hreached, rfl, hmore⟩
  · rw [hfind, firstUsable_eq_some] at hpath
    obtain ⟨name, path, hreached, rfl, huse⟩ := hpath
    obtain ⟨hfile, htable⟩ := isUsable_eq_true.mp huse
    rw [load_eq_error hfiles hfile]
    by_cases hname : Path.baseName path = projectFile
    · have hread : ¬ ProjectUnread h path e := by
        obtain ⟨table, htable⟩ := htable ((baseName_of_reached hreached).symm.trans hname)
        rw [← readProject_eq_error hfiles hfile, htable]
        simp
      simp [hname, hread]
    · simp [hname]

def linkHost : Host where
  files := ((FileSystem.empty.apply (.link (.ofText "w/l") "d")).apply
    (asciiFile "w/d/e/pyproject.toml" "[tool.other]".toList)).apply
    (asciiFile "w/d/shellglob.toml" "dot = ".toList)
  cwd := "/w"

/-- The malformed file is found through the link, and loading it does not fail. -/
theorem find_load_through_link :
    find linkHost "l/e" = .ok (some "/w/d/shellglob.toml") ∧
      ∃ r, load linkHost "/w/d/shellglob.toml" = .ok r := by
  have hplaced : linkHost.Placed := Host.placed_of_isPlaced _ (by decide +kernel)
  have hjourney : linkHost.journey false (Path.tidy "l/e") =
      .ok (.arrived ⟨false, ["d", "e"]⟩) := by decide +kernel
  have hfind : find linkHost "l/e" = .ok (some "/w/d/shellglob.toml") := by decide +kernel
  refine ⟨hfind, ?_⟩
  obtain ⟨place, -, -, hload⟩ := find_load_eq_error linkHost "l/e"
    (FileSystem.open_of_isOpen _ rfl).2 (FileSystem.filesReadable_of_hasReadableFiles _ rfl)
    (FileSystem.nullFree_of_isNullFree _ rfl) (by decide) (fun _ => hplaced) (by simp [hjourney])
  obtain ⟨text, htext, hread⟩ : ∃ text, linkHost.readText "/w/d/shellglob.toml" = .ok text ∧
      Toml.read text = .error .malformed := ⟨"dot = ".toList, by decide +kernel, by cbv⟩
  have hname : Path.baseName "/w/d/shellglob.toml" ≠ projectFile := by decide +kernel
  cases hres : load linkHost "/w/d/shellglob.toml" with
  | ok r => exact ⟨r, rfl⟩
  | error e => simpa [unread_iff, Holds, hname, htext, hread] using (hload _ hfind e).mp hres

/-- A project file whose tools are no table stops the search. -/
theorem find_tools_not_table :
    find (hostWithFile "pyproject.toml" "tool = 1".toList) "." = .error .toolNotTable := by
  decide +kernel

end Settings

end PathGlob
