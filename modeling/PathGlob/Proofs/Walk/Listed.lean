import PathGlob.Proofs.Walk.Presence
import PathGlob.Proofs.Wildcard.Spelled

/-!
# Names that are listed

A literal name is looked up at its path, and a wildcard for the same name finds it in a listing.
Where all directories may be listed and searched, a walk does the same with the one as with the
other: it fails alike or makes the same reports in the same order.
-/
namespace PathGlob

/-! ## Scripts that run alike -/

namespace Script

variable {α β : Type} {o : Oracle} {s s' : Script α} {f f' : α → Script β}

theorem runWith_eq_iff : s.runWith o = s'.runWith o ↔
    s.outcome o = s'.outcome o ∧ s.events o = s'.events o := by
  constructor
  · intro h
    exact ⟨congrArg Run.result h, congrArg Run.events h⟩
  · rintro ⟨houtcome, hevents⟩
    unfold outcome at houtcome
    unfold events at hevents
    cases hs : s.runWith o
    cases hs' : s'.runWith o
    simp_all

/-- What comes behind a failure does not matter. -/
theorem events_bind_of_error {e : RunError} (h : s.outcome o = .error e) :
    (s.bind f).events o = s.events o := by
  induction s with
  | done a => cases h
  | fail e => rfl
  | report e' next ih => rw [Script.bind, events_report, events_report, ih h]
  | ask q next ih =>
    rw [outcome_ask] at h
    cases hq : o q with
    | ok a =>
      rw [Script.bind, events_ask _ hq, events_ask _ hq]
      exact ih a (by simpa [hq] using h)
    | error n =>
      unfold events runWith
      rw [Script.bind, run, run, hq]

/-- Scripts that run alike can be gone on from in ways that run alike. -/
theorem runWith_bind_congr (hs : s.runWith o = s'.runWith o)
    (hf : ∀ a, s.outcome o = .ok a → (f a).runWith o = (f' a).runWith o) :
    (s.bind f).runWith o = (s'.bind f').runWith o := by
  obtain ⟨houtcome, hevents⟩ := runWith_eq_iff.mp hs
  rw [runWith_eq_iff, outcome_bind, outcome_bind, ← houtcome]
  cases h : s.outcome o with
  | error e =>
    rw [events_bind_of_error h, events_bind_of_error (houtcome ▸ h), hevents]
    exact ⟨rfl, rfl⟩
  | ok a =>
    obtain ⟨hnext, hmore⟩ := runWith_eq_iff.mp (hf a h)
    rw [events_bind h, events_bind (houtcome ▸ h), hevents, hmore]
    exact ⟨hnext, rfl⟩

/-- A lookup that is answered only hands the answer on. -/
theorem runWith_bind_of_done {a : α} (hs : s.runWith o = (done a).runWith o) :
    (s.bind f).runWith o = (f a).runWith o := by
  have hbind : (s.bind f).runWith o = ((done a).bind f).runWith o :=
    runWith_bind_congr hs fun _ _ => rfl
  exact hbind

theorem bind_nothing (s : Script Unit) : (s.bind fun _ => nothing) = s := by
  induction s with
  | done a => rfl
  | fail e => rfl
  | report e next ih => rw [Script.bind, ih]
  | ask q next ih =>
    rw [Script.bind]
    exact congrArg (ask q) (funext ih)

theorem runWith_each_congr {as : List α} {f f' : α → Script Unit}
    (h : ∀ a ∈ as, (f a).runWith o = (f' a).runWith o) :
    (each as f).runWith o = (each as f').runWith o := by
  induction as with
  | nil => rfl
  | cons a as ih =>
    obtain ⟨ha, has⟩ := List.forall_mem_cons.mp h
    exact runWith_bind_congr ha fun _ _ => ih has

theorem each_eq_nothing {as : List α} {f : α → Script Unit} (h : ∀ a ∈ as, f a = nothing) :
    each as f = nothing := by
  induction as with
  | nil => rfl
  | cons a as ih =>
    obtain ⟨ha, has⟩ := List.forall_mem_cons.mp h
    rw [each, ha, ih has]
    rfl

/-- Only one of several does anything. -/
theorem runWith_each_single {as : List α} {f : α → Script Unit} {a : α} (hmem : a ∈ as)
    (hnodup : as.Nodup) (h : ∀ b ∈ as, b ≠ a → f b = nothing) :
    (each as f).runWith o = (f a).runWith o := by
  induction as with
  | nil => cases hmem
  | cons b as ih =>
    obtain ⟨hb, has⟩ := List.forall_mem_cons.mp h
    obtain ⟨hnew, hnodup⟩ := List.nodup_cons.mp hnodup
    rw [each]
    rcases List.mem_cons.mp hmem with rfl | hmem
    · rw [each_eq_nothing fun b hb => has b hb (ne_of_mem_of_not_mem hb hnew), bind_nothing]
    · rw [hb (ne_of_mem_of_not_mem hmem hnew).symm]
      exact ih hmem hnodup has

end Script

/-! ## Names in a directory -/

namespace FileSystem

/-- A directory holds each name once. -/
theorem nodup_children (fs : FileSystem) (dir : Location) :
    ((fs.children dir).map Prod.fst).Nodup := by
  have hnames : (fs.children dir).map Prod.fst =
      (fs.items.map Item.location).filterMap (childOf? dir) := by
    rw [children, List.map_filterMap, List.filterMap_map]
    refine List.filterMap_congr fun i _ => ?_
    rw [Option.map_map]
    exact Option.map_id'
  rw [hnames]
  refine fs.distinct.filterMap fun loc loc' n hn hn' => ?_
  rw [childOf?_eq_some.mp hn, childOf?_eq_some.mp hn']

end FileSystem

namespace Walk

variable {w : Walk} {h : Host} {dir path : String} {out : List String} {n : Name} {e e' : Entry}

theorem nodup_entries (h : Host) (dir : String) :
    ((Oracle.entries h.answer dir).map Entry.name).Nodup := by
  cases hnull : hasNull dir with
  | true => simp [Host.entries_of_hasNull hnull]
  | false =>
    rw [Host.entries_answer hnull]
    cases hlist : h.list dir with
    | error f => simp [Except.toOption]
    | ok es =>
      obtain ⟨loc, access, -, -, -, rfl⟩ := Host.list_eq_ok.mp hlist
      have hname : (Entry.name ∘ fun x : Name × Node => h.entry dir x.1 x.2) = Prod.fst :=
        funext fun x => Host.entry_name dir x.1 x.2
      rw [Except.toOption, Option.getD_some, List.map_map, hname]
      exact h.files.nodup_children loc

theorem eq_of_entry_name (he : e ∈ Oracle.entries h.answer dir)
    (he' : e' ∈ Oracle.entries h.answer dir) (hname : e.name = e'.name) : e = e' :=
  List.inj_on_of_nodup_map (nodup_entries h dir) he he' hname

theorem answer_list_of_isDirectory (hread : h.files.Readable)
    (hdir : Oracle.isDirectory h.answer dir = true) :
    h.answer (.list dir) = .ok (.ok (Oracle.entries h.answer dir)) := by
  obtain ⟨hnull, loc, access, hloc, hnode⟩ := Host.isDirectory_answer.mp hdir
  have hlist := Host.list_eq_ok.mpr ⟨loc, access, hloc, hnode, hread loc access hnode, rfl⟩
  rw [Host.entries_answer hnull, Host.answer_list hnull, hlist]
  rfl

/-- What is there in a directory is listed. -/
theorem mem_entries_of_isThere (hread : h.files.Readable)
    (hdir : Oracle.isDirectory h.answer dir = true)
    (hthere : Oracle.isThere h.answer (Path.child dir n.text) = true) :
    ∃ e ∈ Oracle.entries h.answer dir, e.name = n := by
  obtain ⟨hnull, loc, access, hloc, hnode⟩ := Host.isDirectory_answer.mp hdir
  obtain ⟨-, st, hst⟩ := isThere_answer.mp hthere
  obtain ⟨loc', node, hloc', hnode', -⟩ := Host.status_eq_ok.mp hst
  obtain ⟨left, hleft⟩ := Host.locate_child hloc
  rw [hleft, Path.components_name, FileSystem.resolve_name false left hnode] at hloc'
  have hhere : h.files.node? (loc ++ [n]) ≠ none := by
    intro hnone
    simp only [hnone] at hloc'
    split at hloc' <;> cases hloc'
  obtain ⟨found, hfound⟩ := Option.ne_none_iff_exists'.mp hhere
  have hname := Host.entry_name (h := h) dir n found
  refine ⟨h.entry dir n found, Host.mem_entries_answer.mpr ⟨hnull, loc, access, found, hloc, hnode,
    hread loc access hnode, ?_, ?_⟩, hname⟩
  · rw [hname]
    exact hfound
  · rw [hname]

/-! ## A name that is looked up, and one that is listed -/

theorem runWith_isThere (hnull : hasNull path = false) : (isThere path).runWith h.answer =
    (Script.done (Oracle.isThere h.answer path)).runWith h.answer := by
  simp [isThere, Oracle.isThere, Script.runWith, Script.run, Host.answer, hnull]

theorem runWith_isDirectory (hnull : hasNull path = false) :
    (isDirectory path).runWith h.answer =
      (Script.done (Oracle.isDirectory h.answer path)).runWith h.answer := by
  simp [isDirectory, Oracle.isDirectory, Script.runWith, Script.run, Host.answer, hnull]

theorem runWith_entries (hread : h.files.Readable)
    (hdir : Oracle.isDirectory h.answer dir = true) : (w.entries dir).runWith h.answer =
      (Script.done (Oracle.entries h.answer dir)).runWith h.answer := by
  simp [entries, Script.runWith, Script.run, answer_list_of_isDirectory hread hdir]

/-- It does not matter who tells whether a path is a directory. -/
theorem runWith_descend_known (hnull : hasNull path = false) {isLast : Bool}
    {next : String → List String → Script Unit} :
    (w.descend isLast next none path out).runWith h.answer =
      (w.descend isLast next (some (Oracle.isDirectory h.answer path)) path out).runWith
        h.answer := by
  have hwhether : (whetherDirectory none path).runWith h.answer =
      (whetherDirectory (some (Oracle.isDirectory h.answer path)) path).runWith h.answer :=
    runWith_isDirectory hnull
  unfold descend found
  split
  · dsimp only
    split
    · rfl
    · exact Script.runWith_bind_congr hwhether fun _ _ => rfl
  · exact Script.runWith_bind_congr hwhether fun _ _ => rfl

/-- In a directory, a wildcard for one name does the same as the name. -/
theorem runWith_listed (hread : h.files.Readable) (hsearch : h.files.Searchable)
    {text : String} {mode : Wildcard.Mode} {tokens : List Wildcard.Token}
    (haccepts : ∀ m : Name, Wildcard.accepts mode tokens m.text.toList = true ↔ m = n)
    {back : List Segment} {depth : Nat} {chain : Chain}
    (hdir : Oracle.isDirectory h.answer dir = true) :
    (w.lay (.magic text mode tokens :: back) depth chain dir out).runWith h.answer =
      (w.lay (.literal text n.text :: back) depth chain dir out).runWith h.answer := by
  have hnull : hasNull (Path.child dir n.text) = false := by
    rw [hasNull_child, (Host.isDirectory_answer.mp hdir).1, hasNull_name]
    rfl
  rw [lay, lay, Script.bind_eq, Script.bind_eq,
    Script.runWith_bind_of_done (runWith_entries hread hdir),
    Script.runWith_bind_of_done (runWith_isThere hnull)]
  by_cases hthere : Oracle.isThere h.answer (Path.child dir n.text) = true
  · obtain ⟨e, he, rfl⟩ := mem_entries_of_isThere hread hdir hthere
    have hnodup := (nodup_entries h dir).of_map
    rw [if_pos hthere, runWith_descend_known hnull, ← Host.entry_isDir hsearch he]
    refine (Script.runWith_each_single he hnodup fun e' he' hne => ?_).trans ?_
    · have hother : ¬Wildcard.accepts mode tokens e'.name.text.toList = true := fun hacc =>
        hne (eq_of_entry_name he' he ((haccepts e'.name).mp hacc))
      exact if_neg hother
    · simp only [(haccepts e.name).mpr rfl, if_true]
  · rw [if_neg hthere, Script.each_eq_nothing]
    intro e he
    have hother : ¬Wildcard.accepts mode tokens e.name.text.toList = true := by
      intro hacc
      have hlisted := isThere_of_mem_entries hsearch he
      rw [(haccepts e.name).mp hacc] at hlisted
      exact hthere hlisted
    simp only [if_neg hother]

/-! ## Segments in front -/

def AlikeInside (o : Oracle) (next next' : String → List String → Script Unit) : Prop :=
  ∀ dir out, o.isDirectory dir = true → (next dir out).runWith o = (next' dir out).runWith o

variable {o : Oracle} {next next' : String → List String → Script Unit} {rest rest' : List Segment}

theorem runWith_descend_congr (hnext : AlikeInside o next next') {known : Option Bool}
    (hknown : ∀ d, known = some d → d = o.isDirectory path) :
    (w.descend false next known path out).runWith o =
      (w.descend false next' known path out).runWith o := by
  refine Script.runWith_bind_congr rfl fun isDir hisDir => ?_
  have htold : known.getD (o.isDirectory path) = isDir := outcome_whetherDirectory hisDir
  have hdir : o.isDirectory path = isDir := by
    cases known with
    | none => exact htold
    | some d => rw [← hknown d rfl, ← htold, Option.getD_some]
  split
  next hgo => exact hnext path out (hdir.trans (Bool.and_eq_true_iff.mp hgo).1)
  · rfl

theorem runWith_anchor_congr
    (hhead : rest.head?.map Segment.isEmpty = rest'.head?.map Segment.isEmpty) (hne : rest ≠ [])
    (hnext : (next dir out).runWith o = (next' dir out).runWith o) :
    (w.anchor rest next dir out).runWith o = (w.anchor rest' next' dir out).runWith o := by
  obtain ⟨first, more, rfl⟩ := List.exists_cons_of_ne_nil hne
  cases rest' with
  | nil => cases hhead
  | cons first' more' =>
    have hempty : first.isEmpty = first'.isEmpty := by simpa using hhead
    unfold anchor
    simp only [hempty]
    split
    · rfl
    · exact hnext

theorem runWith_pass_congr (hne : rest ≠ []) (hne' : rest' ≠ [])
    {deeper deeper' : String → List String → Script Unit} (hdeeper : AlikeInside o deeper deeper')
    (hnext : AlikeInside o next next')
    (htell : e.isDir = o.isDirectory (Path.child dir e.name.text)) :
    (w.pass rest deeper next dir out e).runWith o =
      (w.pass rest' deeper' next' dir out e).runWith o := by
  have hrest : rest.isEmpty = false := by simpa using hne
  have hrest' : rest'.isEmpty = false := by simpa using hne'
  unfold pass
  simp only [hrest, hrest', Bool.not_false, Bool.or_true, Bool.and_true, Bool.false_eq_true,
    if_false]
  split_ifs with hhidden hdir hignored hdown
  · rfl
  · rfl
  · exact hdeeper _ _ (htell.symm.trans hdir)
  · exact hnext _ _ (htell.symm.trans hdir)
  · rfl

theorem runWith_globstar_congr (hsearch : h.files.Searchable)
    (hhead : rest.head?.map Segment.isEmpty = rest'.head?.map Segment.isEmpty)
    (hne : rest ≠ []) {next next' : Nat → Chain → String → List String → Script Unit}
    (hnext : ∀ depth chain, AlikeInside h.answer (next depth chain) (next' depth chain))
    (depth : Nat) (chain : Chain) : AlikeInside h.answer (w.globstar rest next depth chain)
      (w.globstar rest' next' depth chain) := by
  have hne' : rest' ≠ [] := by
    rintro rfl
    simp_all
  induction depth generalizing chain with
  | zero => exact fun _ _ _ => rfl
  | succ depth ih =>
    intro dir out hdir
    rw [globstar, globstar]
    refine Script.runWith_bind_congr
      (runWith_anchor_congr hhead hne (hnext depth chain dir out hdir)) fun _ _ => ?_
    refine Script.runWith_bind_congr rfl fun below _ => ?_
    cases below with
    | none => rfl
    | some below =>
      refine Script.runWith_bind_congr rfl fun es hes => ?_
      rw [← outcome_entries hes]
      exact Script.runWith_each_congr fun e he =>
        runWith_pass_congr hne hne' (ih below) (hnext depth below) (Host.entry_isDir hsearch he)

/-- Behind any segments, a wildcard for one name does the same as the name. -/
theorem runWith_lay_listed (hread : h.files.Readable) (hsearch : h.files.Searchable)
    {text : String} {mode : Wildcard.Mode} {tokens : List Wildcard.Token}
    (haccepts : ∀ m : Name, Wildcard.accepts mode tokens m.text.toList = true ↔ m = n)
    (front back : List Segment) (depth : Nat) (chain : Chain) :
    AlikeInside h.answer (w.lay (front ++ .magic text mode tokens :: back) depth chain)
      (w.lay (front ++ .literal text n.text :: back) depth chain) := by
  induction front generalizing depth chain with
  | nil => exact fun dir out hdir => runWith_listed hread hsearch haccepts hdir
  | cons first front ih =>
    intro dir out hdir
    have hmore : (front ++ .magic text mode tokens :: back).isEmpty = false := by simp
    have hmore' : (front ++ .literal text n.text :: back).isEmpty = false := by simp
    rw [List.cons_append, List.cons_append]
    cases first with
    | empty =>
      rw [lay, lay]
      refine Script.runWith_bind_congr rfl fun _ _ => ?_
      split
      · exact ih depth chain dir _ hdir
      · rfl
    | literal text' name =>
      rw [lay, lay, hmore, hmore']
      refine Script.runWith_bind_congr rfl fun _ _ => ?_
      split
      · exact runWith_descend_congr (ih depth chain) (by simp)
      · rfl
    | magic text' mode' tokens' =>
      rw [lay, lay, hmore, hmore']
      refine Script.runWith_bind_congr rfl fun es hes => ?_
      refine Script.runWith_each_congr fun e he => ?_
      dsimp only
      split
      · refine runWith_descend_congr (ih depth chain) fun d hd => ?_
        rw [← outcome_entries hes] at he
        rw [← Option.some_inj.mp hd]
        exact Host.entry_isDir hsearch he
      · rfl
    | globstar =>
      rw [lay, lay]
      refine runWith_globstar_congr hsearch ?_ (by simp) ih depth chain dir out hdir
      cases front <;> rfl

/-! ## Other segments -/

def withSegments (w : Walk) (segs : List Segment) : Walk :=
  { w with alternative := { w.alternative with segments := segs } }

section

variable {segs : List Segment}
  (hdirOnly : (w.withSegments segs).alternative.dirOnly = w.alternative.dirOnly)

include hdirOnly

theorem found_withSegments : (w.withSegments segs).found = w.found := by
  have hmarked : (w.withSegments segs).marked = w.marked := by
    funext isDir path
    rw [marked, hdirOnly]
    rfl
  have hdisplay : (w.withSegments segs).display = w.display := by
    funext path rel isDir
    rw [display, hmarked]
    rfl
  funext known path out
  rw [found, hdisplay]
  rfl

theorem descend_withSegments : (w.withSegments segs).descend = w.descend := by
  funext isLast next known path out
  rw [descend, found_withSegments hdirOnly]
  rfl

theorem globstar_withSegments (rest : List Segment)
    (next : Nat → Chain → String → List String → Script Unit) (depth : Nat) :
    (w.withSegments segs).globstar rest next depth = w.globstar rest next depth := by
  have hfound := found_withSegments hdirOnly
  have hanchor : (w.withSegments segs).anchor = w.anchor := by
    funext rest next dir out
    unfold anchor
    rw [hfound]
  have hpass : (w.withSegments segs).pass = w.pass := by
    funext rest deeper next dir out e
    rw [pass, hfound]
    rfl
  induction depth with
  | zero => rfl
  | succ depth ih =>
    funext chain dir out
    rw [globstar, globstar, ih, hanchor, hpass]
    rfl

/-- The segments of a walk matter for the segments that are left only by their end. -/
theorem lay_withSegments (rest : List Segment) :
    (w.withSegments segs).lay rest = w.lay rest := by
  induction rest with
  | nil =>
    funext depth chain dir out
    rw [lay, lay, found_withSegments hdirOnly]
  | cons first rest ih =>
    funext depth chain dir out
    cases first with
    | empty => rw [lay, lay, ih]
    | literal text name => rw [lay, lay, ih, descend_withSegments hdirOnly]
    | magic text mode tokens => rw [lay, lay, ih, descend_withSegments hdirOnly]; rfl
    | globstar => rw [lay, lay, ih, globstar_withSegments hdirOnly]

end

theorem dirOnly_listed {front back : List Segment} {text name : String}
    (hsegs : w.alternative.segments = front ++ .literal text name :: back) (mode : Wildcard.Mode)
    (tokens : List Wildcard.Token) :
    (w.withSegments (front ++ .magic text mode tokens :: back)).alternative.dirOnly =
      w.alternative.dirOnly := by
  unfold Alternative.dirOnly
  rw [hsegs, withSegments]
  cases hback : back.getLast? <;>
    simp [List.getLast?_append, List.getLast?_cons, hback, Segment.isEmpty]

theorem ahead_listed (w : Walk) {front back : List Segment} {text name : String}
    (hsegs : w.alternative.segments = front ++ .literal text name :: back) (text' : String)
    (mode : Wildcard.Mode) (tokens : List Wildcard.Token) :
    (∃ front', (w.withSegments (front ++ .magic text' mode tokens :: back)).ahead =
        front' ++ .magic text' mode tokens :: back ∧
      w.ahead = front' ++ .literal text name :: back) ∨
    (w.withSegments (front ++ .magic text' mode tokens :: back)).ahead = w.ahead := by
  have habs : (w.withSegments (front ++ .magic text' mode tokens :: back)).alternative.isAbsolute =
      w.alternative.isAbsolute := rfl
  unfold ahead
  rw [habs, hsegs]
  cases w.alternative.isAbsolute with
  | false => exact .inl ⟨front, rfl, rfl⟩
  | true =>
    -- The first segment of an absolute alternative stands for its root.
    cases front with
    | nil => exact .inr rfl
    | cons first front => exact .inl ⟨front, rfl, rfl⟩

/-- Where all directories may be listed and searched, it makes no difference to a walk whether a
name is looked up or a wildcard that accepts this name alone finds it in a listing. -/
theorem run_listed (w : Walk) (h : Host) (c c' : Cache) (front back : List Segment) (text : String)
    (n : Name) (mode : Wildcard.Mode) (tokens : List Wildcard.Token)
    (hsegs : w.alternative.segments = front ++ .literal text n.text :: back)
    (haccepts : ∀ m : Name, Wildcard.accepts mode tokens m.text.toList = true ↔ m = n)
    (hread : h.files.Readable) (hsearch : h.files.Searchable) (hc : c.Agrees h.answer)
    (hc' : c'.Agrees h.answer) :
    let listed := w.withSegments (front ++ .magic text mode tokens :: back)
    (listed.run h c').result = (w.run h c).result ∧
      (listed.run h c').events = (w.run h c).events := by
  intro listed
  have hdirOnly := dirOnly_listed hsegs mode tokens
  have hdepth : listed.depthOn h .empty = w.depthOn h .empty := by
    rw [depthOn, depthOn, hsegs]
    simp [listed, withSegments]
  have hstart : listed.start = w.start := by
    unfold start Alternative.parts
    rw [hsegs]
    cases front <;> rfl
  have hscript : (listed.script (listed.depthOn h .empty)).runWith h.answer =
      (w.script (w.depthOn h .empty)).runWith h.answer := by
    rw [script_eq, script_eq, hdepth, hstart, lay_withSegments hdirOnly]
    refine Script.runWith_bind_congr rfl fun isDir hisDir => ?_
    cases isDir with
    | false => rfl
    | true =>
      have hdir : Oracle.isDirectory h.answer w.start.path = true := outcome_isDirectory hisDir
      rcases ahead_listed w hsegs text mode tokens with ⟨front', hahead, hahead'⟩ | hsame
      · rw [hahead, hahead']
        exact runWith_lay_listed hread hsearch haccepts front' back _ [] _ _ hdir
      · rw [hsame]
        rfl
  have hrun : listed.runOn h = w.runOn h := hscript
  rw [listed.run_of_agrees h hc', w.run_of_agrees h hc, hrun]
  exact ⟨rfl, rfl⟩

/-- A link in the place of a wildcard. -/
theorem run_listed_link :
    let w : Walk := ⟨Pattern.readAlternative {} false 0 0 "l/*".toList, {}, fun _ _ => false, "/"⟩
    let listed := w.withSegments [.magic "l" ⟨false, false⟩ [.set ⟨false, [.range 'l' 'l']⟩],
      .magic "*" ⟨false, false⟩ [.run]]
    (listed.run linkedHost .empty).result = (w.run linkedHost .empty).result ∧
      (listed.run linkedHost .empty).events = (w.run linkedHost .empty).events := by
  intro w
  have hsegs : w.alternative.segments =
      [] ++ .literal "l" "l" :: [.magic "*" ⟨false, false⟩ [.run]] := by rfl
  obtain ⟨hread, hsearch⟩ := FileSystem.open_of_isOpen linkedHost.files (by decide +kernel)
  have haccepts : ∀ m : Name, Wildcard.accepts ⟨false, false⟩ [.set ⟨false, [.range 'l' 'l']⟩]
      m.text.toList = true ↔ m = ⟨"l", by decide⟩ := by
    intro m
    have hspells : List.Forall₂ Wildcard.Token.Spells [.set ⟨false, [.range 'l' 'l']⟩] ['l'] :=
      .cons (.set (by decide)) .nil
    rw [Wildcard.accepts_iff_of_spells hspells rfl, Name.mk.injEq, ← String.toList_inj]
    exact and_iff_right (by simpa using m.text_ne_empty)
  exact run_listed w linkedHost .empty .empty [] [.magic "*" ⟨false, false⟩ [.run]] "l"
    ⟨"l", by decide⟩ ⟨false, false⟩ [.set ⟨false, [.range 'l' 'l']⟩] hsegs haccepts hread hsearch
    (Cache.agrees_empty _) (Cache.agrees_empty _)

end Walk

end PathGlob
