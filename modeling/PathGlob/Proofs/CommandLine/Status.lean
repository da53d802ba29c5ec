import PathGlob.CommandLine.Run
import PathGlob.Proofs.CommandLine.Words
import PathGlob.Proofs.Glob.NullFree
import PathGlob.Proofs.Settings.Table

/-!
# How runs end

A run without a settings file ends with a status, unless a line to ignore is refused. The status
is two just if an ignore file cannot be read, the glob cannot be made, or a walk fails, and then
nothing is printed but an error line. How the walks take turns does not matter to the status: it
decides only which of the walks that fail is reported.
-/
namespace PathGlob.CommandLine

variable {words ws ws' : List (String × Word)} {r r' : Reading} {args : List String}
  {a : Arguments} {h : Host}

/-! ## Null characters -/

theorem hasNull_of_suffix {w : String} {value : List Char} (hw : hasNull w = false)
    (hvalue : value <:+ w.toList) : hasNull (String.ofList value) = false := by
  have hlacks : '\x00' ∉ w.toList := by simpa [hasNull] using hw
  have hnone : '\x00' ∉ value := fun hmem => hlacks (hvalue.subset hmem)
  simpa [hasNull] using hnone

/-- Neither words nor values that are attached to them have null characters. -/
def NullFree (words : List (String × Word)) : Prop :=
  ∀ x ∈ words, hasNull x.1 = false ∧ ∀ c value, x.2 = .withValue c value → hasNull value = false

structure Reading.NullFree (r : Reading) : Prop where
  words : ∀ w ∈ r.run.words, hasNull w = false
  values : ∀ o ∈ r.occurrences, hasNull o.value = false

theorem nullFree_of_wordsOf (hargs : ∀ w ∈ args, hasNull w = false)
    (hwords : wordsOf args = .ok words) : NullFree words := by
  intro x hx
  obtain ⟨hmem, hshape⟩ := shape_of_wordsOf hwords x hx
  refine ⟨hargs _ hmem, fun c value hvalue => ?_⟩
  rw [hvalue] at hshape
  rcases hshape with hsep | hshape
  · cases hsep
  · cases hshape with
    | withValue c hsuffix => exact hasNull_of_suffix (hargs _ hmem) hsuffix

namespace Reading.NullFree

theorem close (hr : r.NullFree) : r.close.NullFree := by
  refine ⟨?_, by rw [close_occurrences]; exact hr.values⟩
  have hwords := hr.words
  unfold Reading.close
  split
  · next hrun => simpa [hrun, PatternRun.words] using hwords
  · exact hwords

theorem plain (hr : r.NullFree) {w : String} (hw : hasNull w = false) : (r.plain w).NullFree := by
  refine ⟨?_, by rw [plain_occurrences]; exact hr.values⟩
  have hwords := hr.words
  unfold Reading.plain
  split
  · simpa [PatternRun.words] using hw
  · next hrun =>
    rw [hrun] at hwords
    exact List.forall_mem_append.mpr ⟨hwords, by simpa using hw⟩
  · exact hwords

theorem separator (hr : r.NullFree) : r.separator.NullFree := by
  refine ⟨?_, by rw [separator_occurrences]; exact hr.values⟩
  have hwords := hr.words
  unfold Reading.separator
  split
  · simp [PatternRun.words]
  · exact hwords
  · exact hwords

theorem take (hr : r.NullFree) (c : Choice) {value : String} (hvalue : hasNull value = false) :
    (r.take c value).NullFree :=
  ⟨hr.words, List.forall_mem_append.mpr ⟨hr.values, by simpa using hvalue⟩⟩

theorem takeAll (hr : r.NullFree) (cs : List Choice) : (r.takeAll cs).NullFree := by
  induction cs generalizing r with
  | nil => exact hr
  | cons c cs ih => exact ih (hr.take c (by decide))

end Reading.NullFree

theorem Step.nullFree (hstep : Step ws r ws' r') (hws : NullFree ws) (hr : r.NullFree) :
    NullFree ws' ∧ r'.NullFree := by
  cases hstep with
  | plain w =>
    obtain ⟨hfirst, hrest⟩ := List.forall_mem_cons.mp hws
    exact ⟨hrest, hr.plain hfirst.1⟩
  | separator w => exact ⟨(List.forall_mem_cons.mp hws).2, hr.separator⟩
  | unknown w =>
    exact ⟨(List.forall_mem_cons.mp hws).2, hr.close.words, hr.close.values⟩
  | attached w rest r hc =>
    obtain ⟨hfirst, hrest⟩ := List.forall_mem_cons.mp hws
    exact ⟨hrest, hr.close.take _ (hfirst.2 _ _ rfl)⟩
  | behind w rest r hc =>
    obtain ⟨hvalue, hrest⟩ := List.forall_mem_cons.mp (List.forall_mem_cons.mp hws).2
    exact ⟨hrest, hr.close.take _ hvalue.1⟩
  | alone w rest r hc => exact ⟨(List.forall_mem_cons.mp hws).2, hr.close.take _ (by decide)⟩
  | @cluster w rest r c more cs left hcluster =>
    have hall := hr.close.takeAll cs
    cases left with
    | none => exact ⟨(List.forall_mem_cons.mp hws).2, hall⟩
    | some w => exact ⟨(List.forall_mem_cons.mp hws).2, hall.words, hall.values⟩

theorem nullFree_of_readWords (hws : NullFree words) (hread : readWords words .start = .ok r) :
    r.NullFree := by
  have hstart : Reading.start.NullFree := ⟨by simp [Reading.start, PatternRun.words], by
    simp [Reading.start]⟩
  have hend : NullFree [] ∧ r.NullFree := invariant_of_readWords
    (P := fun ws r => NullFree ws ∧ r.NullFree)
    (fun hstep hinv => hstep.nullFree hinv.1 hinv.2) hread ⟨hws, hstart⟩
  exact hend.2

structure Request.NullFree (r : Request) : Prop where
  patterns : ∀ p ∈ r.patterns, hasNull p = false
  cwd : hasNull r.cwd = false
  ignoreFiles : ∀ file ∈ r.ignoreFiles, hasNull file = false

theorem nullFree_apply (ha : a.request.NullFree) {o : Occurrence} (ho : hasNull o.value = false) :
    (a.apply o).request.NullFree := by
  unfold Arguments.apply
  split
  case h_2 => exact ⟨ha.patterns, ho, ha.ignoreFiles⟩
  case h_4 =>
    exact ⟨ha.patterns, ha.cwd, List.forall_mem_append.mpr ⟨ha.ignoreFiles, by simpa using ho⟩⟩
  all_goals exact ⟨ha.patterns, ha.cwd, ha.ignoreFiles⟩

theorem nullFree_of_parse (hargs : ∀ w ∈ args, hasNull w = false)
    (hparse : Arguments.parse args = .ok a) : a.request.NullFree := by
  obtain ⟨words, r, hwords, hread, rfl⟩ := parse_eq_ok hparse
  have hr := nullFree_of_readWords (nullFree_of_wordsOf hargs hwords) hread
  have hstart : (Arguments.request { patterns := r.run.words }).NullFree :=
    ⟨hr.words, show hasNull "" = false by decide, fun file hfile => by cases hfile⟩
  exact List.foldlRecOn r.occurrences Arguments.apply (motive := fun a => a.request.NullFree)
    hstart fun a ha o ho => nullFree_apply ha (hr.values o ho)

/-! ## Ignore files -/

theorem readText_ne_null {path : String} (hpath : hasNull path = false) :
    h.readText path ≠ .error .null := by
  unfold Host.readText
  rw [if_neg (by simp [hpath])]
  split
  · simp
  · split <;> simp

theorem rulesIn_ne_null {file : String} (hfile : hasNull file = false) :
    Ignore.rulesIn h file ≠ .error .null := by
  rw [Ignore.rulesIn, ne_eq, Except.map_eq_error]
  exact readText_ne_null (Path.hasNull_tidy hfile)

theorem ignoreLines_ne_null {files : List String} (hfiles : ∀ file ∈ files, hasNull file = false) :
    ignoreLines h files ≠ .error .null := by
  induction files with
  | nil => simp [ignoreLines]
  | cons file rest ih =>
    obtain ⟨hfile, hrest⟩ := List.forall_mem_cons.mp hfiles
    have hlines := rulesIn_ne_null (h := h) hfile
    rw [ignoreLines]
    cases hread : Ignore.rulesIn h file with
    | error e =>
      rw [hread] at hlines
      simpa [bind, Except.bind] using hlines
    | ok lines =>
      cases hmore : ignoreLines h rest with
      | error e =>
        have hne := ih hrest
        rw [hmore] at hne
        simpa [bind, Except.bind] using hne
      | ok more => simp [bind, Except.bind, pure, Except.pure]

/-! ## Reasons -/

/-- What is made of a request: the glob, if the ignore files can be read. -/
def Makes (h : Host) (r : Request) (made : Except GlobError Glob) : Prop :=
  ∃ lines, ignoreLines h r.ignoreFiles = .ok lines ∧
    Glob.make (r.options lines) false (r.patterns.map .text) = made

/-- A walk of a glob fails when it is run alone. If the walks are run one after another, it is the
first to fail. -/
structure Fails (h : Host) (r : Request) (g : Glob) (e : WalkError) : Prop where
  walk : ∃ a ∈ g.alternatives, ((g.walk h a).run h .empty).result = .error (.walk e)
  first : r.sync = true → (g.search h .empty).result = .error (.walk e)

/-- Why a request ends with an error, and what the error says: an ignore file cannot be read, the
options make no sense, a pattern cannot be read, or a walk fails. -/
inductive Trouble (h : Host) (r : Request) : String → Prop
  | ignoreFile {e : ReadError} (hlines : ignoreLines h r.ignoreFiles = .error e) :
      Trouble h r e.message
  | options {e : OptionsError} (hmakes : Makes h r (.error (.options e))) : Trouble h r e.message
  | pattern {e : PatternError} (hmakes : Makes h r (.error (.pattern e))) : Trouble h r e.message
  | walk {g : Glob} {e : WalkError} (hmakes : Makes h r (.ok g)) (hfails : Fails h r g e) :
      Trouble h r e.message

def Refused (h : Host) (r : Request) : Prop := ∃ e, Makes h r (.error (.ignore e))

variable {q : Request} {made : Except GlobError Glob}

theorem Makes.unique {made' : Except GlobError Glob} (hmakes : Makes h q made)
    (hmakes' : Makes h q made') : made = made' := by
  obtain ⟨lines, hlines, rfl⟩ := hmakes
  obtain ⟨lines', hlines', rfl⟩ := hmakes'
  rw [hlines] at hlines'
  cases hlines'
  rfl

theorem Makes.not_refused (hmakes : Makes h q made) (hne : ∀ e, made ≠ .error (.ignore e)) :
    ¬ Refused h q :=
  fun ⟨e, hmakes'⟩ => hne e (hmakes.unique hmakes')

theorem not_makes_of_unread {e : ReadError} (hlines : ignoreLines h q.ignoreFiles = .error e) :
    ¬ Makes h q made := by
  rintro ⟨lines, hlines', -⟩
  rw [hlines] at hlines'
  cases hlines'

theorem trouble_iff_of_unread {e : ReadError} (hlines : ignoreLines h q.ignoreFiles = .error e)
    {m : String} : Trouble h q m ↔ m = e.message := by
  constructor
  · rintro (hlines' | hmakes' | hmakes' | ⟨hmakes', -⟩)
    · rw [hlines] at hlines'
      cases hlines'
      rfl
    all_goals exact absurd hmakes' (not_makes_of_unread hlines)
  · rintro rfl
    exact .ignoreFile hlines

theorem Makes.not_trouble (hmakes : Makes h q made)
    (hoptions : ∀ e, made ≠ .error (.options e)) (hpattern : ∀ e, made ≠ .error (.pattern e))
    (hwalk : ∀ g e, made = .ok g → ¬ Fails h q g e) (m : String) : ¬ Trouble h q m := by
  rintro (hlines | hmakes' | hmakes' | ⟨hmakes', hfails⟩)
  · exact not_makes_of_unread hlines hmakes
  · exact hoptions _ (hmakes.unique hmakes')
  · exact hpattern _ (hmakes.unique hmakes')
  · exact hwalk _ _ (hmakes.unique hmakes') hfails

/-! ## Ends -/

/-- How a request is fulfilled: it is refused, ends with an error line, or prints what is found. -/
inductive Ending (h : Host) (r : Request) : Except Failure Outcome → Prop
  | refused {e : Ignore.LineError} (hrefused : Refused h r) (htrouble : ∀ m, ¬ Trouble h r m) :
      Ending h r (.error (.ignore e))
  | troubled {message : String} (messages : List String) (htrouble : Trouble h r message)
      (hrefused : ¬ Refused h r) : Ending h r (.ok (failed messages message))
  | found (paths : List String) (output : String) (messages : List String)
      (hrefused : ¬ Refused h r) (htrouble : ∀ m, ¬ Trouble h r m) :
      Ending h r (.ok (.finished (if paths.isEmpty then 1 else 0) output messages))

theorem hasNull_directory (hq : q.NullFree) (hcwd : hasNull h.cwd = false) (lines : List String) :
    hasNull (Glob.directory (Glob.settle (q.options lines) false) h) = false := by
  refine Path.hasNull_absolute hcwd ?_
  split_ifs
  · decide
  · exact hq.cwd

section

variable {g : Glob} (schedule : List Nat)

theorem result_searchFor_of_sync (hsync : q.sync = true) :
    (searchFor schedule h q g).result = (g.search h .empty).result := by
  rw [searchFor, if_pos hsync]

theorem result_searchFor (hsync : q.sync = false) :
    (searchFor schedule h q g).result = (g.searchBy schedule h .empty).1 := by
  rw [searchFor, if_neg (by simp [hsync])]
  rfl

theorem searchFor_eq_ok_iff {paths : List String} :
    (searchFor schedule h q g).result = .ok paths ↔ (g.search h .empty).result = .ok paths := by
  cases hsync : q.sync with
  | true => rw [result_searchFor_of_sync schedule hsync]
  | false => rw [result_searchFor schedule hsync, Glob.searchBy_eq_ok_iff]

/-- If some walk fails, so does the search, as a walk does alone. -/
theorem searchFor_fails
    (hfails : ∃ a ∈ g.alternatives, ∃ e, ((g.walk h a).run h .empty).result = .error e) :
    ∃ e, (searchFor schedule h q g).result = .error e ∧
      (∃ a ∈ g.alternatives, ((g.walk h a).run h .empty).result = .error e) ∧
      (q.sync = true → (g.search h .empty).result = .error e) := by
  cases hsync : q.sync with
  | true =>
    obtain ⟨e, he⟩ := Glob.search_fails hfails
    exact ⟨e, (result_searchFor_of_sync schedule hsync).trans he, Glob.exists_walk_of_search he,
      fun _ => he⟩
  | false =>
    obtain ⟨a, ha, e, hwalk, he⟩ := Glob.searchBy_fails schedule hfails
    exact ⟨e, (result_searchFor schedule hsync).trans he, ⟨a, ha, hwalk⟩, by simp⟩

/-- A search without null characters returns paths, and then no walk fails, or it ends with the error
of a walk that fails. -/
theorem searchFor_ends (hq : q.NullFree) (hcwd : hasNull h.cwd = false)
    (hfree : h.files.NullFree) (hmakes : Makes h q (.ok g)) :
    (∃ paths, (searchFor schedule h q g).result = .ok paths) ∧ (∀ e, ¬ Fails h q g e) ∨
      ∃ e, (searchFor schedule h q g).result = .error (.walk e) ∧ Fails h q g e := by
  by_cases hfails : ∃ a ∈ g.alternatives, ∃ e, ((g.walk h a).run h .empty).result = .error e
  · right
    obtain ⟨e, hsearch, ⟨a, ha, he⟩, hfirst⟩ := searchFor_fails (q := q) schedule hfails
    obtain ⟨lines, -, hmake⟩ := hmakes
    have hdir : hasNull (Glob.directory g.options h) = false := by
      obtain ⟨-, hoptions, -⟩ := Glob.make_eq_ok.mp hmake
      rw [hoptions]
      exact hasNull_directory hq hcwd lines
    obtain ⟨f, rfl⟩ := Glob.exists_walkError_of_fails hmake hq.patterns hdir (fun _ => hfree)
      (Cache.agrees_empty _) ha he
    exact ⟨f, hsearch, ⟨a, ha, he⟩, hfirst⟩
  · left
    have hok : ∀ a ∈ g.alternatives, ((g.walk h a).run h .empty).result = .ok () := by
      intro a ha
      cases hresult : ((g.walk h a).run h .empty).result with
      | ok u => rfl
      | error e => exact absurd ⟨a, ha, e, hresult⟩ hfails
    refine ⟨⟨_, (searchFor_eq_ok_iff schedule).mpr (Glob.search_of_walks hok)⟩, fun e he => ?_⟩
    obtain ⟨a, ha, hwalk⟩ := he.walk
    exact hfails ⟨a, ha, _, hwalk⟩

theorem ending_searchWith (hq : q.NullFree) (hcwd : hasNull h.cwd = false)
    (hfree : h.files.NullFree) (hmakes : Makes h q (.ok g)) (messages : List String) :
    Ending h q (searchWith schedule h q messages g) := by
  have hrefused := hmakes.not_refused (by simp)
  unfold searchWith
  rcases searchFor_ends schedule hq hcwd hfree hmakes with ⟨⟨paths, hpaths⟩, hnone⟩ | ⟨e, he, hfails⟩
  · simp only [hpaths]
    refine .found paths _ _ hrefused (hmakes.not_trouble (by simp) (by simp) fun g' e hg => ?_)
    cases hg
    exact hnone e
  · simp only [he]
    exact .troubled _ (.walk hmakes hfails) hrefused

/-- How far a request comes: up to the ignore files, up to the glob, or up to its search. -/
inductive Course (schedule : List Nat) (h : Host) (r : Request) (messages : List String) :
    Except Failure Outcome → Prop
  | null (hlines : ignoreLines h r.ignoreFiles = .error .null) :
      Course schedule h r messages (.error .null)
  | ignoreFile {e : ReadError} (hlines : ignoreLines h r.ignoreFiles = .error e) :
      Course schedule h r messages (.ok (failed messages e.message))
  | options {e : OptionsError} (hmakes : Makes h r (.error (.options e))) :
      Course schedule h r messages (.ok (failed messages e.message))
  | pattern {e : PatternError} (hmakes : Makes h r (.error (.pattern e))) :
      Course schedule h r messages (.ok (failed messages e.message))
  | ignore {e : Ignore.LineError} (hmakes : Makes h r (.error (.ignore e))) :
      Course schedule h r messages (.error (.ignore e))
  | search {g : Glob} (hmakes : Makes h r (.ok g)) :
      Course schedule h r messages (searchWith schedule h r messages g)

theorem course_fulfil (h : Host) (q : Request) (messages : List String) :
    Course schedule h q messages (fulfil schedule h q messages) := by
  unfold fulfil
  cases hlines : ignoreLines h q.ignoreFiles with
  | error e =>
    cases e with
    | null => exact .null hlines
    | system e => exact .ignoreFile hlines
    | encoding e => exact .ignoreFile hlines
  | ok lines =>
    dsimp only
    cases hmake : Glob.make (q.options lines) false (q.patterns.map .text) with
    | ok g => exact .search ⟨lines, hlines, hmake⟩
    | error e =>
      cases e with
      | options e => exact .options ⟨lines, hlines, hmake⟩
      | pattern e => exact .pattern ⟨lines, hlines, hmake⟩
      | ignore e => exact .ignore ⟨lines, hlines, hmake⟩

theorem ending_fulfil (hq : q.NullFree) (hcwd : hasNull h.cwd = false)
    (hfree : h.files.NullFree) (messages : List String) :
    Ending h q (fulfil schedule h q messages) := by
  have hcourse := course_fulfil schedule h q messages
  generalize fulfil schedule h q messages = ended at hcourse
  cases hcourse with
  | null hlines => exact absurd hlines (ignoreLines_ne_null hq.ignoreFiles)
  | ignoreFile hlines =>
    exact .troubled _ (.ignoreFile hlines) fun ⟨_, hmakes⟩ => not_makes_of_unread hlines hmakes
  | options hmakes => exact .troubled _ (.options hmakes) (hmakes.not_refused (by simp))
  | pattern hmakes => exact .troubled _ (.pattern hmakes) (hmakes.not_refused (by simp))
  | ignore hmakes => exact .refused ⟨_, hmakes⟩ (hmakes.not_trouble (by simp) (by simp) (by simp))
  | search hmakes => exact ending_searchWith schedule hq hcwd hfree hmakes messages

theorem runBy_eq_fulfil (hparse : Arguments.parse args = .ok a) (hconfig : a.useConfig = false)
    (hversion : a.version = false) (hpatterns : a.patterns ≠ []) :
    runBy schedule h args = fulfil schedule h a.request [] := by
  simp [runBy, hparse, hversion, settle, hconfig, hpatterns]

end

/-- Without a settings file and whatever the schedule, a run fails just if a line to ignore is
refused. Else it has a status: two just if the request is in trouble, and then its last message says
so and it prints nothing. -/
theorem status_of_run (schedule : List Nat) (h : Host) (args : List String) (a : Arguments)
    (hargs : ∀ w ∈ args, hasNull w = false) (hparse : Arguments.parse args = .ok a)
    (hconfig : a.useConfig = false) (hversion : a.version = false)
    (hcwd : hasNull h.cwd = false) (hfree : h.files.NullFree) :
    ((∃ e, runBy schedule h args = .error e) ↔ a.patterns ≠ [] ∧ Refused h a.request) ∧
      ∀ outcome, runBy schedule h args = .ok outcome → ∃ status output messages,
        outcome = .finished status output messages ∧ status ≤ 2 ∧
        (status = 2 ↔ a.patterns ≠ [] ∧ ∃ m, Trouble h a.request m) ∧
        (status = 2 → output = "" ∧ ∃ m, Trouble h a.request m ∧
          messages.getLast? = some (errorLine m)) := by
  by_cases hpatterns : a.patterns = []
  · simp [runBy, hparse, hversion, hpatterns]
  rw [runBy_eq_fulfil schedule hparse hconfig hversion hpatterns]
  simp only [ne_eq, hpatterns, not_false_eq_true, true_and]
  have hending := ending_fulfil schedule (nullFree_of_parse hargs hparse) hcwd hfree []
  generalize fulfil schedule h a.request [] = ended at hending
  cases hending with
  | refused hrefused htrouble => simp [hrefused]
  | @troubled message messages htrouble hrefused =>
    refine ⟨by simp [hrefused], ?_⟩
    rintro _ ⟨⟩
    refine ⟨2, "", messages ++ [errorLine message], rfl, le_rfl, ?_, fun _ => ⟨rfl, message, ?_⟩⟩
    · exact ⟨fun _ => ⟨message, htrouble⟩, fun _ => rfl⟩
    · exact ⟨htrouble, List.getLast?_concat⟩
  | found paths output messages hrefused htrouble =>
    refine ⟨by simp [hrefused], ?_⟩
    rintro _ ⟨⟩
    have hlt : (if paths.isEmpty then 1 else 0) < 2 := by split_ifs <;> decide
    have htwo : (if paths.isEmpty then 1 else 0) = 2 ↔ ∃ m, Trouble h a.request m :=
      iff_of_false hlt.ne (not_exists.mpr htrouble)
    exact ⟨_, output, messages, rfl, hlt.le, htwo, fun hstatus => absurd hstatus hlt.ne⟩

/-- A run with an ignore file that is not there. -/
theorem status_of_run_missing_file :
    let h : Host := ⟨.empty, "/"⟩
    ∃ messages, runBy [0] h ["--no-config", "--ignore-file=rules", "x"] =
        .ok (.finished 2 "" messages) ∧
      messages.getLast? = some (errorLine "[Errno 2] No such file or directory: 'rules'") := by
  intro h
  let args := ["--no-config", "--ignore-file=rules", "x"]
  obtain ⟨a, hparse, ha⟩ := Except.exists_of_any (x := Arguments.parse args)
    (q := fun a => !a.useConfig && !a.version && a.patterns = ["x"] && a.ignoreFiles = ["rules"])
    (by decide +kernel)
  simp only [Bool.and_eq_true, Bool.not_eq_true', decide_eq_true_eq] at ha
  obtain ⟨⟨⟨hconfig, hversion⟩, hpatterns⟩, hfiles⟩ := ha
  have hlines : ignoreLines h a.request.ignoreFiles = .error (.system ⟨.notFound, "rules"⟩) := by
    rw [show a.request.ignoreFiles = ["rules"] from hfiles]
    decide +kernel
  have hmessage : (ReadError.system ⟨.notFound, "rules"⟩).message =
      "[Errno 2] No such file or directory: 'rules'" := by decide +kernel
  obtain ⟨-, hends⟩ := status_of_run [0] h args a (by decide) hparse hconfig hversion (by decide)
    (FileSystem.nullFree_of_isNullFree _ rfl)
  obtain ⟨outcome, hrun⟩ : ∃ outcome, runBy [0] h args = .ok outcome :=
    (Except.exists_of_any (q := fun _ => true) (by decide +kernel)).imp fun _ => And.left
  obtain ⟨status, output, messages, rfl, -, htwo, hlast⟩ := hends outcome hrun
  obtain rfl := htwo.mpr ⟨by simp [hpatterns], _, .ignoreFile hlines⟩
  obtain ⟨rfl, m, hm, hmessages⟩ := hlast rfl
  rw [(trouble_iff_of_unread hlines).mp hm, hmessage] at hmessages
  exact ⟨messages, hrun, hmessages⟩

/-- A line to ignore that is no rule stops a run without a status. -/
theorem run_refused_line :
    run ⟨.empty, "/"⟩ ["--no-config", "--ignore", "!", "x"] = .error (.ignore (.invalid "!")) := by
  decide +kernel

end PathGlob.CommandLine
