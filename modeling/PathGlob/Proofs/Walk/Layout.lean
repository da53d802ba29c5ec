import PathGlob.Proofs.OrderedSet
import PathGlob.Proofs.Walk.Bound

/-!
# Layouts

A layout puts the components of a path side by side with the segments that they fit. On a file
system whose directories may all be listed and searched, a walk that follows no links reports the
paths that have a layout, and nothing else.
-/
namespace PathGlob

/-! ## Alternatives that are read -/

namespace Alternative

/-- A pattern is read as this alternative among others. -/
def Compiled (a : Alternative) : Prop :=
  ∃ o drives i n pattern as, Pattern.compile o drives i n pattern = .ok as ∧ a ∈ as

def Clean (a : Alternative) : Prop :=
  ∀ text name, .literal text name ∈ a.segments → hasNull name = false

instance (a : Alternative) : Decidable a.Clean :=
  decidable_of_iff ((a.segments.all fun
    | .literal _ name => !hasNull name
    | _ => true) = true) <| by
    rw [List.all_eq_true]
    constructor
    · intro h text name hmem
      simpa using h _ hmem
    · intro h s hs
      cases s with
      | literal text name => simpa using h text name hs
      | _ => rfl

/-- A pattern that stands for itself alone is one alternative. -/
theorem compiled_of_expand {o : Options} {pattern : String}
    (hlen : pattern.length ≤ Pattern.maxLength)
    (hexpand : Pattern.expand o pattern = .ok [pattern.toList]) (drives : Bool) (i n : Nat) :
    (Pattern.readAlternative o drives i n pattern.toList).Compiled := by
  refine ⟨o, drives, i, n, pattern, _, ?_, List.mem_singleton_self _⟩
  rw [Pattern.compile, if_neg (by omega), hexpand]
  rfl

theorem Compiled.exists_read {a : Alternative} (ha : a.Compiled) :
    ∃ o drives i n cs, a = Pattern.readAlternative o drives i n cs := by
  obtain ⟨o, drives, i, n, pattern, as, has, hmem⟩ := ha
  unfold Pattern.compile at has
  split at has
  · cases has
  · cases hexpand : Pattern.expand o pattern with
    | error e => simp [hexpand, bind, Except.bind] at has
    | ok texts =>
      simp only [hexpand, bind, Except.bind, pure, Except.pure, Except.ok.injEq] at has
      subst has
      obtain ⟨k, hk, rfl⟩ := List.mem_mapIdx.mp hmem
      exact ⟨o, drives, i, n + k, _, rfl⟩

theorem Compiled.head_of_root {a : Alternative} (ha : a.Compiled) (hroot : a.root = "/") :
    ∃ rest, a.segments = .empty :: rest := by
  obtain ⟨o, drives, i, n, cs, rfl⟩ := ha.exists_read
  simp only [Pattern.readAlternative] at hroot ⊢
  cases hparts : Pattern.splitParts o cs with
  | nil => simp [hparts, Pattern.rootOf] at hroot
  | cons first more =>
    have hfirst : first = [] := by
      by_contra hne
      rw [hparts] at hroot
      cases more with
      | nil => simp [Pattern.rootOf] at hroot
      | cons second more =>
        simp only [Pattern.rootOf, hne, if_false] at hroot
        split at hroot
        · have hchars := congrArg String.toList hroot
          rw [String.toList_ofList] at hchars
          cases first <;> simp_all
        · simp at hroot
    rw [hfirst, List.map_cons]
    exact ⟨more.map (Pattern.readSegment o), by simp [Pattern.readSegment]⟩

end Alternative

namespace Walk

variable {w : Walk} {o : Oracle} {path : String}

/-- Nothing is ignored, left out or displayed in another way. -/
structure Bare (w : Walk) : Prop where
  mark : w.options.mark = false
  nodir : w.options.nodir = false
  realpath : w.options.realpath = false
  absolute : w.options.absolute = false
  ignored : ∀ path isDir, w.ignored path isDir = false

/-- The components that a layout begins with: an empty one stands in front of an absolute path. -/
def beginning (w : Walk) : List String := if w.alternative.isAbsolute then [""] else []

theorem start_out (ha : w.alternative.Compiled)
    (hroot : w.alternative.root = "/" ∨ w.alternative.root = "") :
    w.start.out = w.beginning := by
  unfold start beginning
  rcases hroot with hroot | hroot
  · obtain ⟨rest, hrest⟩ := ha.head_of_root hroot
    simp [Alternative.isAbsolute, Alternative.parts, hroot, hrest, Segment.text]
  · simp [Alternative.isAbsolute, hroot]

theorem mem_segments_of_mem_ahead {s : Segment} (hs : s ∈ w.ahead) :
    s ∈ w.alternative.segments := by
  unfold ahead at hs
  split at hs
  · exact List.mem_of_mem_drop hs
  · exact hs

/-- The canonical forms of all paths without null characters can be told, if they are asked for. -/
def Canonizes (w : Walk) (o : Oracle) : Prop :=
  w.options.realpath = true → ∀ p, hasNull p = false → ∃ r, o (.realpath p) = .ok r

theorem canonizes_of_realpath (hreal : w.options.realpath = false) (o : Oracle) :
    w.Canonizes o := by
  intro hasked
  rw [hreal] at hasked
  cases hasked

/-- What a walk looks up without null characters is answered. -/
theorem Canonizes.exists_answer {h : Host} (hcanon : w.Canonizes h.answer) {q : Query}
    (hnull : hasNull q.path = false)
    (hasked : ∀ p, q = .realpath p → w.options.realpath = true) : ∃ a, h.answer q = .ok a := by
  cases hq : h.answer q with
  | ok a => exact ⟨a, rfl⟩
  | error e =>
    exfalso
    by_cases hreal : ∃ p, q = .realpath p
    · obtain ⟨p, rfl⟩ := hreal
      obtain ⟨r, hr⟩ := hcanon (hasked p rfl) p hnull
      rw [hr] at hq
      cases hq
    · rw [Host.hasNull_of_answer hq (not_exists.mp hreal)] at hnull
      cases hnull

/-- Without null characters, a walk from a directory fails only if it lists it and that fails. -/
theorem failsOnly_script_of_directory {h : Host} {c : Cache} (hc : c.Agrees h.answer)
    (hclean : ∀ text name, .literal text name ∈ w.ahead → hasNull name = false)
    (hcanon : w.Canonizes h.answer) (hdir : Oracle.isDirectory h.answer w.root = true)
    {depth : Nat} (hdepth : w.depthOn h c ≤ depth) :
    (w.script depth).FailsOnly h.answer fun e => ∃ cause,
      e = .walk (.unreadable w.root cause) ∧ h.answer (.list w.root) = .ok (.error cause) := by
  obtain ⟨hnull, -⟩ := Host.isDirectory_answer.mp hdir
  have hpass : w.Passable h.answer
      (fun e => ∃ cause, e = .walk (.unreadable w.root cause) ∧
        h.answer (.list w.root) = .ok (.error cause))
      (fun p => hasNull p = false) := by
    refine ⟨fun q hq hasked e he => ?_, fun dir n hp => ?_, fun _ e he => ⟨e, rfl, he⟩⟩
    · obtain ⟨a, ha⟩ := hcanon.exists_answer hq hasked
      rw [ha] at he
      cases he
    · rw [hasNull_child, hp, hasNull_name]
      rfl
  have hbudget := w.exists_budget h c
  rw [Cache.answers_of_agrees hc] at hbudget
  obtain ⟨B, hB⟩ := hbudget
  refine failsOnly_script hpass B (fun hno => ?_) (fun text name hmem dir hp => ?_)
    (hB.trans hdepth) hnull
  · rw [hdir] at hno
    cases hno
  · rw [hasNull_child, hp, hclean text name hmem]
    rfl

/-- Without null characters, a walk from a directory that can be listed does not fail. -/
theorem outcome_script_of_listed {h : Host} {c : Cache} (hc : c.Agrees h.answer)
    (hclean : ∀ text name, .literal text name ∈ w.ahead → hasNull name = false)
    (hcanon : w.Canonizes h.answer) (hdir : Oracle.isDirectory h.answer w.root = true)
    (hlist : ∀ e, h.answer (.list w.root) ≠ .ok (.error e)) {depth : Nat}
    (hdepth : w.depthOn h c ≤ depth) : (w.script depth).outcome h.answer = .ok () := by
  apply Script.outcome_eq_ok
  intro e he
  obtain ⟨cause, -, hcause⟩ := failsOnly_script_of_directory hc hclean hcanon hdir hdepth e he
  exact hlist cause hcause

/-- On a file system that hides nothing, and without null characters, a walk from a directory does
not fail. -/
theorem outcome_script_of_readable {h : Host} {c : Cache} (hread : h.files.Readable)
    (hc : c.Agrees h.answer)
    (hclean : ∀ text name, .literal text name ∈ w.ahead → hasNull name = false)
    (hreal : w.options.realpath = false) (hdir : Oracle.isDirectory h.answer w.root = true)
    {depth : Nat} (hdepth : w.depthOn h c ≤ depth) : (w.script depth).outcome h.answer = .ok () := by
  obtain ⟨hnull, loc, access, hloc, hnode⟩ := Host.isDirectory_answer.mp hdir
  refine outcome_script_of_listed hc hclean (canonizes_of_realpath hreal _) hdir (fun e he => ?_)
    hdepth
  have hlist := Host.list_eq_ok.mpr ⟨loc, access, hloc, hnode, hread loc access hnode, rfl⟩
  rw [Host.answer_list hnull, hlist] at he
  cases he

/-! ## Layouts -/

def Chosen (o : Oracle) (dot : Bool) (dir : String) (e : Entry) : Prop :=
  e ∈ o.entries dir ∧ (e.name.text.toList.head? = some '.' → dot = true)

/-- The names of entries, each in the directory before, that lead from a directory to a place; all
but the last are directories and no links. -/
inductive Leads (o : Oracle) (dot : Bool) : (dir : String) → List String → (place : String) → Prop
  | last {dir : String} {e : Entry} (chosen : Chosen o dot dir e) :
      Leads o dot dir [e.name.text] (Path.child dir e.name.text)
  | down {dir place : String} {names : List String} {e : Entry} (chosen : Chosen o dot dir e)
      (isDir : e.isDir = true) (noLink : e.isLink = false)
      (more : Leads o dot (Path.child dir e.name.text) names place) :
      Leads o dot dir (e.name.text :: names) place

/-- The components `done` end at a path; laid over the segments they go on to the components
`all`. Whatever has segments behind it is a directory. -/
inductive Layout (o : Oracle) (dot : Bool) :
    List Segment → (path : String) → (done all : List String) → Prop
  | nil {path : String} {done : List String} : Layout o dot [] path done done
  | empty {path : String} {done all : List String} {rest : List Segment}
      (dir : o.isDirectory path = true) (more : Layout o dot rest path (done ++ [""]) all) :
      Layout o dot (.empty :: rest) path done all
  | literal {path text name : String} {done all : List String} {rest : List Segment}
      (there : o.isThere (Path.child path name) = true)
      (dir : rest ≠ [] → o.isDirectory (Path.child path name) = true)
      (more : Layout o dot rest (Path.child path name) (done ++ [name]) all) :
      Layout o dot (.literal text name :: rest) path done all
  | magic {path text : String} {mode : Wildcard.Mode} {tokens : List Wildcard.Token} {e : Entry}
      {done all : List String} {rest : List Segment} (listed : e ∈ o.entries path)
      (accepted : Wildcard.accepts mode tokens e.name.text.toList = true)
      (dir : rest ≠ [] → o.isDirectory (Path.child path e.name.text) = true)
      (more : Layout o dot rest (Path.child path e.name.text) (done ++ [e.name.text]) all) :
      Layout o dot (.magic text mode tokens :: rest) path done all
  /-- A globstar for no names, which may not leave an empty path at the end or before a slash. -/
  | stay {path : String} {done all : List String} {rest : List Segment}
      (placed : done ≠ [] ∨ standsAlone rest = true) (more : Layout o dot rest path done all) :
      Layout o dot (.globstar :: rest) path done all
  | go {path place : String} {names done all : List String} {rest : List Segment}
      (leads : Leads o dot path names place) (dir : rest ≠ [] → o.isDirectory place = true)
      (more : Layout o dot rest place (done ++ names) all) :
      Layout o dot (.globstar :: rest) path done all

/-- Layouts whose globstars go along `ways` of another kind. -/
inductive LaidOut (o : Oracle) (ways : (dir : String) → List String → (place : String) → Prop) :
    List Segment → (path : String) → (done all : List String) → Prop
  | nil {path : String} {done : List String} : LaidOut o ways [] path done done
  | empty {path : String} {done all : List String} {rest : List Segment}
      (dir : o.isDirectory path = true) (more : LaidOut o ways rest path (done ++ [""]) all) :
      LaidOut o ways (.empty :: rest) path done all
  | literal {path text name : String} {done all : List String} {rest : List Segment}
      (there : o.isThere (Path.child path name) = true)
      (dir : rest ≠ [] → o.isDirectory (Path.child path name) = true)
      (more : LaidOut o ways rest (Path.child path name) (done ++ [name]) all) :
      LaidOut o ways (.literal text name :: rest) path done all
  | magic {path text : String} {mode : Wildcard.Mode} {tokens : List Wildcard.Token} {e : Entry}
      {done all : List String} {rest : List Segment} (listed : e ∈ o.entries path)
      (accepted : Wildcard.accepts mode tokens e.name.text.toList = true)
      (dir : rest ≠ [] → o.isDirectory (Path.child path e.name.text) = true)
      (more : LaidOut o ways rest (Path.child path e.name.text) (done ++ [e.name.text]) all) :
      LaidOut o ways (.magic text mode tokens :: rest) path done all
  | stay {path : String} {done all : List String} {rest : List Segment}
      (placed : done ≠ [] ∨ standsAlone rest = true) (more : LaidOut o ways rest path done all) :
      LaidOut o ways (.globstar :: rest) path done all
  | go {path place : String} {names done all : List String} {rest : List Segment}
      (way : ways path names place) (dir : rest ≠ [] → o.isDirectory place = true)
      (more : LaidOut o ways rest place (done ++ names) all) :
      LaidOut o ways (.globstar :: rest) path done all

variable {h : Host} {rest segs : List Segment} {s t m : Spot} {e : Entry}

theorem laidOut_leads_iff {dot : Bool} {done all : List String} :
    LaidOut o (Leads o dot) segs path done all ↔ Layout o dot segs path done all := by
  constructor
  · intro hlaid
    induction hlaid with
    | nil => exact .nil
    | empty dir more ih => exact .empty dir ih
    | literal there dir more ih => exact .literal there dir ih
    | magic listed accepted dir more ih => exact .magic listed accepted dir ih
    | stay placed more ih => exact .stay placed ih
    | go way dir more ih => exact .go way dir ih
  · intro hlayout
    induction hlayout with
    | nil => exact .nil
    | empty dir more ih => exact .empty dir ih
    | literal there dir more ih => exact .literal there dir ih
    | magic listed accepted dir more ih => exact .magic listed accepted dir ih
    | stay placed more ih => exact .stay placed ih
    | go leads dir more ih => exact .go leads dir ih

/-- Entries tell whether they are directories, so that it does not matter who is asked. -/
def Telling (o : Oracle) : Prop :=
  ∀ dir, ∀ e ∈ o.entries dir, e.isDir = o.isDirectory (Path.child dir e.name.text)

theorem telling_answer (hsearch : h.files.Searchable) : Telling h.answer :=
  fun _ _ he => Host.entry_isDir hsearch he

theorem goesOn_iff (hw : w.Bare) : w.GoesOn o rest s ↔ (rest ≠ [] → s.isDirectory o = true) := by
  rw [GoesOn, hw.ignored, and_iff_left rfl]
  exact or_iff_not_imp_left

theorem offers_iff (hf : w.options.follow = false) :
    w.Offers o s e ↔ Chosen o w.options.dot s.path e := by
  constructor
  · intro offered
    exact ⟨offered.listed, offered.visible⟩
  · rintro ⟨listed, visible⟩
    exact ⟨fun hc => by simp [hf] at hc, listed, visible⟩

theorem leads_of_sweeps (hw : w.Bare) (hf : w.options.follow = false) (htell : Telling o)
    (hsweep : w.Sweeps o rest s m) :
    (m.path = s.path ∧ m.out = s.out ∧ (s.out ≠ [] ∨ standsAlone rest = true)) ∨
      ∃ names, Leads o w.options.dot s.path names m.path ∧ m.out = s.out ++ names ∧
        (rest ≠ [] → o.isDirectory m.path = true) := by
  induction hsweep with
  | stay placed => exact .inl ⟨rfl, rfl, placed⟩
  | @last s e offered final goes =>
    have chosen := (offers_iff hf).mp offered
    refine .inr ⟨_, .last chosen, rfl, fun hne => ?_⟩
    have hdir := (goesOn_iff hw).mp goes hne
    exact (htell s.path e chosen.1).symm.trans hdir
  | @down s t e offered inner kept more ih =>
    have chosen := (offers_iff hf).mp offered
    obtain ⟨hdir, hdown⟩ := Bool.and_eq_true_iff.mp inner
    have hlink := isLink_of_descends hf hdown
    rcases ih with ⟨hpath, hout, -⟩ | ⟨names, hleads, hout, hplace⟩
    · refine .inr ⟨[e.name.text], ?_, hout, fun _ => ?_⟩
      · rw [hpath]
        exact .last chosen
      · rw [hpath]
        exact (htell s.path e chosen.1).symm.trans hdir
    · refine .inr ⟨_, .down chosen hdir hlink hleads, ?_, hplace⟩
      rw [hout]
      exact List.append_assoc _ _ _

theorem sweeps_of_leads (hw : w.Bare) (hf : w.options.follow = false) (htell : Telling o)
    {path place : String} {names : List String} (hleads : Leads o w.options.dot path names place)
    (hplace : rest ≠ [] → o.isDirectory place = true) (s : Spot) (hs : s.path = path) :
    ∃ m, w.Sweeps o rest s m ∧ m.path = place ∧ m.out = s.out ++ names := by
  induction hleads generalizing s with
  | @last path e chosen =>
    subst hs
    have offered := (offers_iff hf).mpr chosen
    have hdir := htell s.path e chosen.1
    -- A globstar goes into a last directory that is no link, and stays there.
    cases inner : e.isDir && w.descends e with
    | true =>
      refine ⟨_, .down offered inner (hw.ignored _ _) (.stay (.inl ?_)), rfl, rfl⟩
      simp [Spot.child]
    | false =>
      refine ⟨_, .last offered inner ((goesOn_iff hw).mpr fun hne => ?_), rfl, rfl⟩
      exact hdir.trans (hplace hne)
  | @down path place names e chosen isDir noLink more ih =>
    subst hs
    have inner : (e.isDir && w.descends e) = true := by simp [isDir, descends, noLink]
    obtain ⟨m, hsweep, hpath, hout⟩ :=
      ih hplace ((s.enter o).child e.name.text (some e.isDir)) rfl
    refine ⟨m, .down ((offers_iff hf).mpr chosen) inner (hw.ignored _ _) hsweep, hpath, ?_⟩
    rw [hout]
    exact List.append_assoc _ _ _

/-- The names that globstars choose lead just where `ways` do, at the spots that fit the segments
ahead of them. -/
structure Guided (w : Walk) (o : Oracle) (ways : String → List String → String → Prop)
    (fits : List Segment → Spot → Prop) : Prop where
  next {first : Segment} {rest : List Segment} {s t : Spot} (fit : fits (first :: rest) s)
    (same : first ≠ .globstar → t.entered = s.entered) : fits rest t
  leads {rest : List Segment} {s m : Spot} (fit : fits (.globstar :: rest) s)
    (sweep : w.Sweeps o rest s m) :
    (m.path = s.path ∧ m.out = s.out ∧ (s.out ≠ [] ∨ standsAlone rest = true)) ∨
      ∃ names, ways s.path names m.path ∧ m.out = s.out ++ names ∧
        (rest ≠ [] → o.isDirectory m.path = true)
  sweeps {rest : List Segment} {s : Spot} {names : List String} {place : String}
    (fit : fits (.globstar :: rest) s) (way : ways s.path names place)
    (dir : rest ≠ [] → o.isDirectory place = true) :
    ∃ m, w.Sweeps o rest s m ∧ m.path = place ∧ m.out = s.out ++ names

variable {ways : String → List String → String → Prop} {fits : List Segment → Spot → Prop}

theorem laidOut_of_lays (hw : w.Bare) (htell : Telling o) (hguide : w.Guided o ways fits)
    (hlays : w.Lays o segs s t) (hfit : fits segs s) : LaidOut o ways segs s.path s.out t.out := by
  induction hlays with
  | nil s => exact .nil
  | empty dir more ih => exact .empty dir (ih (hguide.next hfit fun _ => rfl))
  | literal there goes more ih =>
    exact .literal there ((goesOn_iff hw).mp goes) (ih (hguide.next hfit fun _ => rfl))
  | @magic text mode tokens rest s t e listed accepted goes more ih =>
    refine .magic listed accepted (fun hne => ?_) (ih (hguide.next hfit fun _ => rfl))
    exact (htell s.path e listed).symm.trans ((goesOn_iff hw).mp goes hne)
  | globstar sweep more ih =>
    have hmore := ih (hguide.next hfit fun hne => absurd rfl hne)
    rcases hguide.leads hfit sweep with ⟨hpath, hout, placed⟩ | ⟨names, hway, hout, hdir⟩
    · rw [hpath, hout] at hmore
      exact .stay placed hmore
    · rw [hout] at hmore
      exact .go hway hdir hmore

theorem lays_of_laidOut (hw : w.Bare) (htell : Telling o) (hguide : w.Guided o ways fits)
    {path : String} {done all : List String} (hlaid : LaidOut o ways segs path done all)
    (s : Spot) (hfit : fits segs s) (hpath : s.path = path) (hout : s.out = done) :
    ∃ t, w.Lays o segs s t ∧ t.out = all := by
  induction hlaid generalizing s with
  | nil => exact ⟨s, .nil s, hout⟩
  | empty dir more ih =>
    subst hpath hout
    obtain ⟨t, hlays, ht⟩ := ih s.slash (hguide.next hfit fun _ => rfl) rfl rfl
    exact ⟨t, .empty dir hlays, ht⟩
  | @literal path text name done all rest there dir more ih =>
    subst hpath hout
    obtain ⟨t, hlays, ht⟩ := ih (s.child name none) (hguide.next hfit fun _ => rfl) rfl rfl
    exact ⟨t, .literal there ((goesOn_iff hw).mpr dir) hlays, ht⟩
  | @magic path text mode tokens e done all rest listed accepted dir more ih =>
    subst hpath hout
    obtain ⟨t, hlays, ht⟩ :=
      ih (s.child e.name.text (some e.isDir)) (hguide.next hfit fun _ => rfl) rfl rfl
    refine ⟨t, .magic listed accepted ((goesOn_iff hw).mpr fun hne => ?_) hlays, ht⟩
    exact (htell s.path e listed).trans (dir hne)
  | stay placed more ih =>
    subst hpath hout
    obtain ⟨t, hlays, ht⟩ :=
      ih { s with known := some true } (hguide.next hfit fun hne => absurd rfl hne) rfl rfl
    exact ⟨t, .globstar (.stay placed) hlays, ht⟩
  | go way dir more ih =>
    subst hpath hout
    obtain ⟨m, hsweep, hm, hmout⟩ := hguide.sweeps hfit way dir
    obtain ⟨t, hlays, ht⟩ := ih m (hguide.next hfit fun hne => absurd rfl hne) hm hmout
    exact ⟨t, .globstar hsweep hlays, ht⟩

/-- Globstars that follow no links are led by entries, whatever was entered before. -/
theorem guided_leads (hw : w.Bare) (hf : w.options.follow = false) (htell : Telling o) :
    w.Guided o (Leads o w.options.dot) fun _ _ => True where
  next _ _ := trivial
  leads _ hsweep := leads_of_sweeps hw hf htell hsweep
  sweeps _ hleads hplace := sweeps_of_leads hw hf htell hleads hplace _ rfl

theorem layout_of_lays (hw : w.Bare) (hf : w.options.follow = false) (htell : Telling o)
    (hlays : w.Lays o segs s t) : Layout o w.options.dot segs s.path s.out t.out :=
  laidOut_leads_iff.mp (laidOut_of_lays hw htell (guided_leads hw hf htell) hlays trivial)

theorem lays_of_layout (hw : w.Bare) (hf : w.options.follow = false) (htell : Telling o)
    {path : String} {done all : List String} (hlayout : Layout o w.options.dot segs path done all)
    (s : Spot) (hpath : s.path = path) (hout : s.out = done) :
    ∃ t, w.Lays o segs s t ∧ t.out = all :=
  lays_of_laidOut hw htell (guided_leads hw hf htell) (laidOut_leads_iff.mpr hlayout) s trivial
    hpath hout

/-! ## What is reported -/

theorem spell_append {xs : List String} (hne : xs ≠ []) (c : String) :
    spell (xs ++ [c]) = spell xs ++ "/" ++ c := by
  rw [spell, String.intercalate_append_of_ne_nil hne (by simp)]
  simp [spell]

theorem endsWithSlash_spell {xs : List String} (hne : xs ≠ []) :
    Path.endsWithSlash (spell (xs ++ [""])) = true := by
  rw [spell_append hne, String.append_empty, Path.endsWithSlash, String.toList_append]
  simp

theorem laidOut_tail {first : Segment} {done all : List String}
    (hlaid : LaidOut o ways (first :: rest) path done all) :
    ∃ path' done', LaidOut o ways rest path' done' all := by
  cases hlaid with
  | empty dir more => exact ⟨_, _, more⟩
  | literal there dir more => exact ⟨_, _, more⟩
  | magic listed accepted dir more => exact ⟨_, _, more⟩
  | stay placed more => exact ⟨_, _, more⟩
  | go way dir more => exact ⟨_, _, more⟩

theorem exists_of_laidOut_empty {done all : List String}
    (hlaid : LaidOut o ways segs path done all) (hlast : segs.getLast? = some .empty) :
    ∃ xs, all = xs ++ [""] := by
  induction segs generalizing path done with
  | nil => cases hlast
  | cons first rest ih =>
    by_cases hne : rest = []
    · subst hne
      cases hlast
      cases hlaid with
      | empty dir more =>
        cases more
        exact ⟨done, rfl⟩
    · obtain ⟨path', done', more⟩ := laidOut_tail hlaid
      exact ih more (by rwa [List.getLast?_cons_of_ne_nil hne] at hlast)

theorem getLast?_ahead_of_dirOnly (hdir : w.alternative.dirOnly = true) :
    w.ahead.getLast? = some .empty := by
  obtain ⟨hlen, hlast⟩ := Bool.and_eq_true_iff.mp hdir
  have hlen : 1 < w.alternative.segments.length := by simpa using hlen
  have hempty : w.alternative.segments.getLast? = some .empty := by
    cases hl : w.alternative.segments.getLast? with
    | none => simp [hl] at hlast
    | some last => cases last <;> simp_all [Segment.isEmpty]
  unfold ahead
  split
  · rw [List.getLast?_drop, if_neg (by omega), hempty]
  · exact hempty

/-- Alternatives that match directories only end with a slash in any case, so that a slash is put
behind a result only to mark it. -/
theorem marked_spell {out : List String}
    (hends : w.ahead.getLast? = some .empty → ∃ xs, out = xs ++ [""]) (hne : spell out ≠ "")
    (isDir : Bool) : w.marked isDir (spell out) =
      if w.options.mark && isDir && !Path.endsWithSlash (spell out) then spell out ++ "/"
      else spell out := by
  unfold marked
  cases hdir : w.alternative.dirOnly with
  | false => rw [Bool.false_or]
  | true =>
    obtain ⟨xs, hxs⟩ := hends (getLast?_ahead_of_dirOnly hdir)
    have hxs' : xs ≠ [] := by
      rintro rfl
      exact hne (by rw [hxs]; rfl)
    have hslash : Path.endsWithSlash (spell out) = true := by
      rw [hxs]
      exact endsWithSlash_spell hxs'
    simp [hslash]

theorem marked_of_ends (hmark : w.options.mark = false) {out : List String}
    (hends : w.ahead.getLast? = some .empty → ∃ xs, out = xs ++ [""]) (hne : spell out ≠ "")
    (isDir : Bool) : w.marked isDir (spell out) = spell out := by
  simp [marked_spell hends hne, hmark]

/-- Where nothing is left out the path is reported as it is spelled, unless it is empty. -/
theorem emits_iff (hw : w.Bare) (hends : w.ahead.getLast? = some .empty → ∃ xs, t.out = xs ++ [""])
    {r : String} : w.emits o t = some r ↔ r ≠ "" ∧ r = spell t.out := by
  by_cases hempty : spell t.out = ""
  · simp only [emits, hempty, if_true, reduceCtorEq, false_iff]
    rintro ⟨hr, rfl⟩
    exact hr rfl
  simp only [emits, hempty, if_false, hw.nodir, hw.ignored, shown, hw.realpath, hw.absolute,
    Bool.false_and, Bool.or_self, Bool.false_eq_true, marked_of_ends hw.mark hends hempty,
    Option.some.injEq]
  constructor
  · rintro rfl
    exact ⟨hempty, rfl⟩
  · rintro ⟨-, rfl⟩
    rfl

theorem emits_of_laidOut (hw : w.Bare) {done : List String}
    (hlaid : LaidOut o ways w.ahead path done t.out) {r : String} :
    w.emits o t = some r ↔ r ≠ "" ∧ r = spell t.out :=
  emits_iff hw (exists_of_laidOut_empty hlaid)

theorem emits_of_layout (hw : w.Bare) {done : List String}
    (hlayout : Layout o w.options.dot w.ahead path done t.out) {r : String} :
    w.emits o t = some r ↔ r ≠ "" ∧ r = spell t.out :=
  emits_of_laidOut hw (laidOut_leads_iff.mpr hlayout)

/-- On a file system that hides nothing a walk that follows no links fails only if its root is no
directory, and else reports, each once, exactly the paths that have a layout. -/
theorem mem_paths_iff_layout (w : Walk) (h : Host) (c : Cache) (ha : w.alternative.Compiled)
    (hroot : w.alternative.root = "/" ∨ w.alternative.root = "") (hclean : w.alternative.Clean)
    (hread : h.files.Readable) (hsearch : h.files.Searchable) (hc : c.Agrees h.answer)
    (hw : w.Bare) (hf : w.options.follow = false) :
    ((w.run h c).result = .ok () ↔ Oracle.isDirectory h.answer w.root = true) ∧
      (Event.paths (w.run h c).events).Nodup ∧
      ∀ r, r ∈ Event.paths (w.run h c).events ↔
        Oracle.isDirectory h.answer w.root = true ∧ r ≠ "" ∧
          ∃ all, Layout h.answer w.options.dot w.ahead w.root w.beginning all ∧ r = spell all := by
  have hans := Cache.answers_of_agrees hc
  have hrun := w.run_of_extends (.refl c) rfl (le_refl (w.depthOn h c))
  rw [hans] at hrun
  have hok : Oracle.isDirectory h.answer w.root = true →
      (w.script (w.depthOn h c)).outcome h.answer = .ok () := fun hdir =>
    outcome_script_of_readable hread hc
      (fun text name hmem => hclean text name (mem_segments_of_mem_ahead hmem)) hw.realpath hdir le_rfl
  have htell := telling_answer hsearch
  refine ⟨?_, Event.nodup_paths _, fun r => ?_⟩
  · rw [hrun]
    exact ⟨isDirectory_root_of_outcome, hok⟩
  rw [Event.mem_paths, hrun]
  cases hdir : Oracle.isDirectory h.answer w.root with
  | false =>
    simp only [Bool.false_eq_true, false_and, iff_false]
    intro hmem
    have hroot := isDirectory_root_of_finds hmem
    rw [hdir] at hroot
    cases hroot
  | true =>
    rw [and_iff_right rfl, ← Script.Finds, finds_script (hok hdir)]
    constructor
    · rintro ⟨t, hlays, ht⟩
      have hlayout := layout_of_lays hw hf htell hlays
      obtain ⟨hne, hr⟩ := (emits_of_layout hw hlayout).mp ht
      rw [start_out ha hroot] at hlayout
      exact ⟨hne, _, hlayout, hr⟩
    · rintro ⟨hne, all, hlayout, hr⟩
      obtain ⟨t, hlays, rfl⟩ := lays_of_layout hw hf htell hlayout w.start rfl (start_out ha hroot)
      exact ⟨t, hlays, (emits_of_layout hw hlayout).mpr ⟨hne, hr⟩⟩

def linkedHost : Host :=
  ⟨(FileSystem.empty.apply (.file (.ofText "d/f") [])).apply (.link (.ofText "l") "d"), "/"⟩

/-- A globstar goes as far as the link. -/
theorem mem_paths_iff_layout_link :
    let w : Walk := ⟨Pattern.readAlternative {} false 0 0 "**".toList, {}, fun _ _ => false, "/"⟩
    (w.run linkedHost .empty).result = .ok () ∧
      "l" ∈ Event.paths (w.run linkedHost .empty).events := by
  intro w
  have hcompiled : w.alternative.Compiled :=
    Alternative.compiled_of_expand (by decide) (by decide +kernel) false 0 0
  obtain ⟨hread, hsearch⟩ := FileSystem.open_of_isOpen linkedHost.files (by decide +kernel)
  obtain ⟨hresult, -, hpaths⟩ := mem_paths_iff_layout w linkedHost .empty hcompiled
    (.inr (by decide +kernel)) (by decide +kernel) hread hsearch (Cache.agrees_empty _)
    ⟨rfl, rfl, rfl, rfl, fun _ _ => rfl⟩ rfl
  have hdir : Oracle.isDirectory linkedHost.answer w.root = true := by decide +kernel
  have hlink : Chosen linkedHost.answer false "/" ⟨⟨"l", by decide⟩, true, true⟩ :=
    ⟨by decide +kernel, by decide⟩
  have hlayout : Layout linkedHost.answer false [.globstar] "/" [] ["l"] :=
    .go (.last hlink) (by simp) .nil
  exact ⟨hresult.mpr hdir, (hpaths "l").mpr ⟨hdir, by decide, ["l"], hlayout, by decide +kernel⟩⟩

end Walk

end PathGlob
