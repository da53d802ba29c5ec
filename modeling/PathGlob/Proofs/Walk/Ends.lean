import PathGlob.Proofs.Walk.Trail

/-!
# The ends of trails in order

The ends of the trails of a walk, in the order in which the walk comes to them. A walk that ends
well reports what they amount to in this order.
-/
namespace PathGlob

def Event.path? : Event → Option String
  | .found path => some path
  | _ => none

theorem Event.paths_eq (events : List Event) :
    paths events = (events.filterMap Event.path?).eraseDups := rfl

namespace Script

variable {α β : Type} {o : Oracle}

/-- The paths that a script reports, in order and with repeats. -/
def reports (o : Oracle) (s : Script α) : List String := (s.events o).filterMap Event.path?

@[simp] theorem reports_done (a : α) : (done a).reports o = [] := rfl

@[simp] theorem reports_nothing : nothing.reports o = [] := rfl

theorem reports_report (e : Event) (next : Script α) :
    (report e next).reports o = e.path?.toList ++ next.reports o := by
  rw [reports, events_report, List.filterMap_cons]
  cases e.path? <;> rfl

theorem reports_bind {s : Script α} {f : α → Script β} {a : α} (h : s.outcome o = .ok a) :
    (s.bind f).reports o = s.reports o ++ (f a).reports o := by
  rw [reports, events_bind h, List.filterMap_append]
  rfl

theorem reports_each {as : List α} {f : α → Script Unit}
    (h : (each as f).outcome o = .ok ()) :
    (each as f).reports o = as.flatMap fun a => (f a).reports o := by
  induction as with
  | nil => rfl
  | cons a as ih =>
    obtain ⟨u, ha, has⟩ := outcome_bind_eq_ok.mp h
    rw [each, reports_bind ha, ih has, List.flatMap_cons]

/-- A script that only looks something up reports nothing. -/
theorem reports_lookup {q : Query} {f : q.Answer → α} :
    (ask q fun a => done (f a)).reports o = [] := by
  unfold reports events runWith
  rw [run]
  cases o q <;> rfl

end Script

namespace Walk

/-- Goes on at a name that fits if it is the last, or else a directory that is not ignored. -/
def onward (w : Walk) (o : Oracle) (rest : List Segment) (next : Spot → List Spot) (s : Spot) :
    List Spot :=
  if rest.isEmpty || (s.isDirectory o && !w.ignored (spell s.out) true) then next s else []

def loops (w : Walk) (o : Oracle) (s : Spot) : Bool :=
  w.options.follow && (o.identity s.path).all fun id => id ∈ s.entered

/-- The ends of the trails on which a globstar chooses an entry. -/
def choose (w : Walk) (o : Oracle) (rest : List Segment) (deeper next : Spot → List Spot)
    (s : Spot) (e : Entry) : List Spot :=
  if e.name.text.toList.head? = some '.' && !w.options.dot then []
  else
    let t := (s.enter o).child e.name.text (some e.isDir)
    if e.isDir && w.descends e then
      if w.ignored (spell t.out) true then [] else deeper t
    else w.onward o rest next t

/-- The ends of the trails that begin with a globstar. -/
def sweep (w : Walk) (o : Oracle) (rest : List Segment) (next : Nat → Spot → List Spot) :
    (depth : Nat) → Spot → List Spot
  | 0, _ => []
  | depth + 1, s =>
    (if s.out = [] && !standsAlone rest then [] else next depth { s with known := some true }) ++
      if w.loops o s then []
      else (o.entries s.path).flatMap (w.choose o rest (sweep w o rest next depth) (next depth) s)

def ends (w : Walk) (o : Oracle) : List Segment → (depth : Nat) → Spot → List Spot
  | [], _, s => [s]
  | .empty :: rest, depth, s => if o.isDirectory s.path then ends w o rest depth s.slash else []
  | .literal _ name :: rest, depth, s =>
    if o.isThere (Path.child s.path name) then
      w.onward o rest (ends w o rest depth) (s.child name none)
    else []
  | .magic _ mode tokens :: rest, depth, s =>
    (o.entries s.path).flatMap fun e =>
      if Wildcard.accepts mode tokens e.name.text.toList then
        w.onward o rest (ends w o rest depth) (s.child e.name.text (some e.isDir))
      else []
  | .globstar :: rest, depth, s => w.sweep o rest (ends w o rest) depth s

variable {w : Walk} {o : Oracle} {rest segs : List Segment} {s t : Spot} {depth : Nat}
  {next : Spot → List Spot} {nextScript : String → List String → Script Unit}

/-! ## What ends depend on -/

/-- Of a walk, its way takes no more than whether links are followed, dots are matched and paths
are ignored. -/
structure GoesLike (w w' : Walk) : Prop where
  follow : w'.options.follow = w.options.follow
  dot : w'.options.dot = w.options.dot
  ignored : w'.ignored = w.ignored

variable {w' : Walk}

theorem GoesLike.onward (hlike : w.GoesLike w') :
    w'.onward o rest next s = w.onward o rest next s := by
  rw [Walk.onward, Walk.onward, hlike.ignored]

theorem GoesLike.choose (hlike : w.GoesLike w') {deeper : Spot → List Spot} :
    w'.choose o rest deeper next s = w.choose o rest deeper next s := by
  funext e
  have hdescends : w'.descends e = w.descends e := by rw [descends, descends, hlike.follow]
  rw [Walk.choose, Walk.choose, hlike.dot, hlike.ignored, hdescends]
  simp only [hlike.onward]

theorem GoesLike.sweep (hlike : w.GoesLike w') {next : Nat → Spot → List Spot} :
    w'.sweep o rest next depth s = w.sweep o rest next depth s := by
  induction depth generalizing s with
  | zero => rfl
  | succ depth ih =>
    have hloops : w'.loops o s = w.loops o s := by rw [loops, loops, hlike.follow]
    have hdeeper : w'.sweep o rest next depth = w.sweep o rest next depth := funext fun s => ih
    rw [Walk.sweep, Walk.sweep, hloops, hdeeper, hlike.choose]

theorem GoesLike.ends (hlike : w.GoesLike w') (segs : List Segment) (depth : Nat) (s : Spot) :
    w'.ends o segs depth s = w.ends o segs depth s := by
  induction segs generalizing depth s with
  | nil => rfl
  | cons first rest ih =>
    have hends : w'.ends o rest = w.ends o rest := by
      funext depth s
      exact ih depth s
    cases first with
    | empty => rw [Walk.ends, Walk.ends, hends]
    | literal text name => rw [Walk.ends, Walk.ends, hends, hlike.onward]
    | magic text mode tokens =>
      rw [Walk.ends, Walk.ends, hends]
      simp only [hlike.onward]
    | globstar => rw [Walk.ends, Walk.ends, hends, hlike.sweep]

/-! ## Ends are ends of trails -/

theorem mem_onward : t ∈ w.onward o rest next s ↔ w.GoesOn o rest s ∧ t ∈ next s := by
  unfold onward GoesOn
  split
  · simp_all
  · simp_all

theorem fresh_of_loops (h : w.loops o s = false) (hf : w.options.follow = true) :
    ∃ id, o.identity s.path = some id ∧ id ∉ s.entered := by
  rw [loops, hf, Bool.true_and] at h
  cases hid : o.identity s.path with
  | none => simp [hid] at h
  | some id => exact ⟨id, rfl, by simpa [hid] using h⟩

theorem exists_of_mem_choose {deeper : Spot → List Spot} {e : Entry}
    (ht : t ∈ w.choose o rest deeper next s e) :
    (e.name.text.toList.head? = some '.' → w.options.dot = true) ∧
      ((e.isDir && w.descends e) = true ∧ w.ignored (spell (s.out ++ [e.name.text])) true = false ∧
          t ∈ deeper ((s.enter o).child e.name.text (some e.isDir)) ∨
        (e.isDir && w.descends e) = false ∧
          w.GoesOn o rest ((s.enter o).child e.name.text (some e.isDir)) ∧
          t ∈ next ((s.enter o).child e.name.text (some e.isDir))) := by
  unfold choose at ht
  split at ht
  · cases ht
  · rename_i hvisible
    refine ⟨fun hdot => by simpa [hdot] using hvisible, ?_⟩
    dsimp only at ht
    split at ht
    · rename_i inner
      split at ht
      · cases ht
      · rename_i kept
        exact .inl ⟨inner, Bool.eq_false_iff.mpr kept, ht⟩
    · rename_i final
      exact .inr ⟨by simpa using final, mem_onward.mp ht⟩

theorem lays_of_mem_sweep {next : Nat → Spot → List Spot}
    (hnext : ∀ depth s, t ∈ next depth s → w.Lays o rest s t)
    (ht : t ∈ w.sweep o rest next depth s) : w.Lays o (.globstar :: rest) s t := by
  induction depth generalizing s with
  | zero => cases ht
  | succ depth ih =>
    rw [sweep, List.mem_append] at ht
    rw [lays_globstar_iff]
    rcases ht with ht | ht
    · split at ht
      · cases ht
      · rename_i placed
        refine .inl ⟨?_, hnext _ _ ht⟩
        by_cases hout : s.out = [] <;> simp_all
    · split at ht
      · cases ht
      · rename_i hloops
        obtain ⟨e, he, ht⟩ := List.mem_flatMap.mp ht
        obtain ⟨visible, hway⟩ := exists_of_mem_choose ht
        refine .inr ⟨e, ⟨fresh_of_loops (by simpa using hloops), he, visible⟩, ?_⟩
        rcases hway with ⟨inner, kept, more⟩ | ⟨final, goes, more⟩
        · exact .inl ⟨inner, kept, ih more⟩
        · exact .inr ⟨final, goes, hnext _ _ more⟩

theorem lays_of_mem_ends (ht : t ∈ w.ends o segs depth s) : w.Lays o segs s t := by
  induction segs generalizing depth s with
  | nil =>
    rw [ends, List.mem_singleton] at ht
    exact lays_nil_iff.mpr ht
  | cons first rest ih =>
    cases first with
    | empty =>
      rw [ends] at ht
      split at ht
      · exact .empty ‹_› (ih ht)
      · cases ht
    | literal text name =>
      rw [ends] at ht
      split at ht
      · obtain ⟨goes, more⟩ := mem_onward.mp ht
        exact .literal ‹_› goes (ih more)
      · cases ht
    | magic text mode tokens =>
      rw [ends] at ht
      obtain ⟨e, listed, ht⟩ := List.mem_flatMap.mp ht
      split at ht
      · obtain ⟨goes, more⟩ := mem_onward.mp ht
        exact .magic listed ‹_› goes (ih more)
      · cases ht
    | globstar =>
      rw [ends] at ht
      exact lays_of_mem_sweep (fun _ _ => ih) ht

/-! ## What a walk reports -/

theorem reports_isDirectory {path : String} : (isDirectory path).reports o = [] :=
  Script.reports_lookup

theorem reports_isThere {path : String} : (isThere path).reports o = [] := Script.reports_lookup

theorem reports_identity {path : String} : (identity path).reports o = [] := Script.reports_lookup

theorem reports_whetherDirectory {known : Option Bool} {path : String} :
    (whetherDirectory known path).reports o = [] := by
  cases known with
  | some d => rfl
  | none => exact reports_isDirectory

theorem reports_entries {path : String} : (w.entries path).reports o = [] := by
  unfold entries Script.reports Script.events Script.runWith
  rw [Script.run]
  cases o (.list path) with
  | error n => rfl
  | ok a =>
    cases a with
    | ok es => rfl
    | error e => by_cases hroot : path = w.root <;> simp [hroot, Script.run, Event.path?]

theorem reports_display {path rel : String} {d : Bool} : (w.display path rel d).reports o = [] := by
  unfold display
  split_ifs
  · exact Script.reports_lookup
  · rfl
  · rfl

theorem reports_enter {chain : Chain} {dir : String} {below : Option Chain}
    (h : (w.enter chain dir).outcome o = .ok below) : (w.enter chain dir).reports o = [] := by
  unfold enter at *
  by_cases hf : w.options.follow = true
  · simp only [hf, if_true, Script.bind_eq] at h ⊢
    obtain ⟨i, hi, h⟩ := Script.outcome_bind_eq_ok.mp h
    rw [Script.reports_bind hi, reports_identity]
    rfl
  · simp only [hf, Bool.false_eq_true, if_false]
    rfl

theorem reports_found (h : (w.found s.known s.path s.out).outcome o = .ok ()) :
    (w.found s.known s.path s.out).reports o = (w.emits o s).toList := by
  unfold found emits at *
  by_cases hrel : spell s.out = ""
  · simp [hrel]
  simp only [hrel, if_false, Script.bind_eq] at h ⊢
  obtain ⟨d, hd, h⟩ := Script.outcome_bind_eq_ok.mp h
  have hdir : s.isDirectory o = d := outcome_whetherDirectory hd
  rw [Script.reports_bind hd, reports_whetherDirectory, hdir, List.nil_append]
  by_cases hskip : (w.options.nodir && d || w.ignored (spell s.out) d) = true
  · simp [hskip]
  simp only [hskip, Bool.false_eq_true, if_false] at h ⊢
  obtain ⟨res, hres, h⟩ := Script.outcome_bind_eq_ok.mp h
  rw [Script.reports_bind hres, reports_display, outcome_display hres, List.nil_append]
  cases res <;> simp [Script.reports_report, Event.path?]

/-- What a script reports at a spot is what the ends amount to. -/
def Tells (w : Walk) (o : Oracle) (next : Spot → List Spot)
    (nextScript : String → List String → Script Unit) (s : Spot) : Prop :=
  (nextScript s.path s.out).outcome o = .ok () →
    (nextScript s.path s.out).reports o = (next s).filterMap (w.emits o)

theorem reports_descend (hlast : rest = [] → next s = [s])
    (hnext : rest ≠ [] → w.Tells o next nextScript s)
    (h : (w.descend rest.isEmpty nextScript s.known s.path s.out).outcome o = .ok ()) :
    (w.descend rest.isEmpty nextScript s.known s.path s.out).reports o =
      (w.onward o rest next s).filterMap (w.emits o) := by
  unfold descend onward at *
  cases rest with
  | nil =>
    simp only [List.isEmpty_nil, if_true, Bool.true_or] at h ⊢
    rw [reports_found h, hlast rfl]
    cases hr : w.emits o s <;> simp [hr]
  | cons first rest =>
    simp only [List.isEmpty_cons, Bool.false_eq_true, if_false, Script.bind_eq,
      Bool.false_or] at h ⊢
    obtain ⟨d, hd, h⟩ := Script.outcome_bind_eq_ok.mp h
    have hdir : s.isDirectory o = d := outcome_whetherDirectory hd
    rw [Script.reports_bind hd, reports_whetherDirectory, hdir, List.nil_append]
    by_cases hgo : (d && !w.ignored (spell s.out) true) = true
    · simp only [hgo, if_true] at h ⊢
      exact hnext (by simp) h
    · simp [hgo]

theorem reports_anchor (hlast : rest = [] → ∀ s, next s = [s])
    (hnext : rest ≠ [] → w.Tells o next nextScript { s with known := some true })
    (h : (w.anchor rest nextScript s.path s.out).outcome o = .ok ()) :
    (w.anchor rest nextScript s.path s.out).reports o =
      (if s.out = [] && !standsAlone rest then []
        else next { s with known := some true }).filterMap (w.emits o) := by
  unfold anchor at *
  cases rest with
  | nil =>
    by_cases hout : s.out = []
    · simp [hout, standsAlone]
    · simp only [hout, if_false, decide_false, Bool.false_and, Bool.false_eq_true] at h ⊢
      rw [reports_found (s := { s with known := some true }) h, hlast rfl]
      cases hr : w.emits o { s with known := some true } <;> simp [hr]
  | cons first rest =>
    have hstands : (!standsAlone (first :: rest)) = first.isEmpty := by simp [standsAlone]
    rw [hstands]
    by_cases hout : (s.out = [] && first.isEmpty) = true
    · simp [hout]
    · simp only [hout, Bool.false_eq_true, if_false] at h ⊢
      exact hnext (by simp) h

theorem reports_pass {deeper : Spot → List Spot}
    {deeperScript : String → List String → Script Unit} {e : Entry}
    (hs : t = (s.enter o).child e.name.text (some e.isDir))
    (hlast : rest = [] → next t = [t]) (hdeeper : w.Tells o deeper deeperScript t)
    (hnext : rest ≠ [] → w.Tells o next nextScript t)
    (h : (w.pass rest deeperScript nextScript s.path s.out e).outcome o = .ok ()) :
    (w.pass rest deeperScript nextScript s.path s.out e).reports o =
      (w.choose o rest deeper next s e).filterMap (w.emits o) := by
  unfold choose
  by_cases visible : e.name.text.toList.head? = some '.' → w.options.dot = true
  swap
  · have hdot : (decide (e.name.text.toList.head? = some '.') && !w.options.dot) = true := by
      simpa using visible
    simp [pass_of_hidden visible, hdot]
  have hdot : (decide (e.name.text.toList.head? = some '.') && !w.options.dot) = false := by
    simpa using visible
  simp only [hdot, Bool.false_eq_true, if_false, ← hs]
  have hpath : Path.child s.path e.name.text = t.path := by rw [hs]; rfl
  have hout : s.out ++ [e.name.text] = t.out := by rw [hs]; rfl
  cases way : e.isDir && w.descends e with
  | true =>
    rw [pass_of_inner visible way, hpath, hout] at h ⊢
    simp only [if_true]
    by_cases hig : w.ignored (spell t.out) true = true
    · simp [hig]
    · simp only [hig, Bool.false_eq_true, if_false] at h ⊢
      exact hdeeper h
  | false =>
    have hknown : some e.isDir = t.known := by rw [hs]; rfl
    rw [pass_of_final visible way, hpath, hout, hknown] at h ⊢
    simp only [Bool.false_eq_true, if_false]
    exact reports_descend hlast hnext h

theorem loops_of_chainBelow {chain : Chain}
    (hchain : w.options.follow = true → chain = s.entered) :
    w.loops o s = (w.chainBelow o chain s.path).isNone := by
  unfold loops chainBelow
  cases hf : w.options.follow with
  | false => rfl
  | true =>
    rw [hchain hf]
    cases o.identity s.path with
    | none => rfl
    | some id => by_cases hid : id ∈ s.entered <;> simp [hid]

theorem reports_globstar {next : Nat → Spot → List Spot}
    {nextScript : Nat → Chain → String → List String → Script Unit}
    (hlast : rest = [] → ∀ depth s, next depth s = [s])
    (hnext : ∀ depth chain s, rest ≠ [] → (w.options.follow = true → chain = s.entered) →
      w.Tells o (next depth) (nextScript depth chain) s)
    (depth : Nat) (chain : Chain) (s : Spot)
    (hchain : w.options.follow = true → chain = s.entered) :
    w.Tells o (w.sweep o rest next depth) (w.globstar rest nextScript depth chain) s := by
  induction depth generalizing chain s with
  | zero =>
    -- Too deep, so that it does not end well.
    intro h
    cases h
  | succ depth ih =>
    intro h
    rw [globstar] at h ⊢
    simp only [Script.bind_eq] at h ⊢
    obtain ⟨⟨⟩, hanchor, h⟩ := Script.outcome_bind_eq_ok.mp h
    obtain ⟨below, henter, h⟩ := Script.outcome_bind_eq_ok.mp h
    have hbelow := outcome_enter henter
    have hloops : w.loops o s = below.isNone := by rw [loops_of_chainBelow hchain, hbelow]
    rw [Script.reports_bind hanchor, Script.reports_bind henter, reports_enter henter,
      reports_anchor (fun hnil => hlast hnil depth) (fun hne => hnext depth chain _ hne hchain)
        hanchor, List.nil_append, sweep, List.filterMap_append, hloops]
    refine congrArg _ ?_
    cases below with
    | none => simp [Script.reports_report, Event.path?]
    | some below =>
      obtain ⟨-, hchain'⟩ := fresh_of_chainBelow hchain hbelow
      simp only [Option.isNone_some, Bool.false_eq_true, if_false] at h ⊢
      obtain ⟨es, hes, h⟩ := Script.outcome_bind_eq_ok.mp h
      have hlisted : o.entries s.path = es := outcome_entries hes
      have hpass := Script.outcome_each_eq_ok.mp h
      rw [Script.reports_bind hes, reports_entries, List.nil_append, Script.reports_each h,
        hlisted, List.filterMap_flatMap]
      refine List.flatMap_congr fun e he => ?_
      exact reports_pass rfl (fun hnil => hlast hnil depth _) (ih below _ hchain')
        (fun hne => hnext depth below _ hne hchain') (hpass e he)

/-- A walk over segments that ends well reports what the ends of the trails amount to, in order. -/
theorem reports_lay (segs : List Segment) (depth : Nat) (chain : Chain) (s : Spot)
    (hknown : segs = [] → s.known = none)
    (hchain : w.options.follow = true → chain = s.entered) :
    w.Tells o (w.ends o segs depth) (w.lay segs depth chain) s := by
  induction segs generalizing depth chain s with
  | nil =>
    intro h
    rw [lay, ← hknown rfl] at h ⊢
    rw [reports_found h, ends]
    cases hr : w.emits o s <;> simp [hr]
  | cons first rest ih =>
    intro h
    -- What is left goes on with the same chain, since only globstars enter directories.
    have hrest : ∀ s' : Spot, s'.entered = s.entered → rest ≠ [] →
        w.Tells o (w.ends o rest depth) (w.lay rest depth chain) s' := fun s' hs hne =>
      ih depth chain s' (fun he => absurd he hne) fun hf => (hchain hf).trans hs.symm
    have hlast : rest = [] → ∀ depth s, w.ends o rest depth s = [s] := by
      rintro rfl depth s
      rfl
    cases first with
    | empty =>
      rw [lay] at h ⊢
      obtain ⟨d, hd, h⟩ := Script.outcome_bind_eq_ok.mp h
      rw [Script.bind_eq, Script.reports_bind hd, reports_isDirectory, List.nil_append, ends,
        outcome_isDirectory hd]
      cases d with
      | false => rfl
      | true => exact ih depth chain s.slash (fun _ => rfl) hchain h
    | literal text name =>
      rw [lay] at h ⊢
      obtain ⟨d, hd, h⟩ := Script.outcome_bind_eq_ok.mp h
      rw [Script.bind_eq, Script.reports_bind hd, reports_isThere, List.nil_append, ends,
        outcome_isThere hd]
      cases d with
      | false => rfl
      | true =>
        exact reports_descend (s := s.child name none) (fun hnil => hlast hnil _ _)
          (hrest _ rfl) h
    | magic text mode tokens =>
      rw [lay] at h ⊢
      obtain ⟨es, hes, h⟩ := Script.outcome_bind_eq_ok.mp h
      have hlisted : o.entries s.path = es := outcome_entries hes
      have hnames := Script.outcome_each_eq_ok.mp h
      rw [Script.bind_eq, Script.reports_bind hes, reports_entries, List.nil_append,
        Script.reports_each h, ends, hlisted, List.filterMap_flatMap]
      refine List.flatMap_congr fun e he => ?_
      have hok := hnames e he
      dsimp only at hok ⊢
      split_ifs at hok ⊢
      · exact reports_descend (s := s.child e.name.text (some e.isDir))
          (fun hnil => hlast hnil _ _) (hrest _ rfl) hok
      · rfl
    | globstar =>
      rw [lay] at h ⊢
      rw [ends]
      exact reports_globstar hlast
        (fun d c s' hne hc => ih d c s' (fun he => absurd he hne) hc) depth chain s hchain h

theorem reports_script (h : (w.script depth).outcome o = .ok ()) :
    (w.script depth).reports o = (w.ends o w.ahead depth w.start).filterMap (w.emits o) := by
  rw [script_eq] at h ⊢
  obtain ⟨d, hd, h⟩ := Script.outcome_bind_eq_ok.mp h
  rw [Script.reports_bind hd, reports_isDirectory, List.nil_append]
  cases d with
  | true => exact reports_lay w.ahead depth [] w.start (fun _ => rfl) (fun _ => rfl) h
  | false => simp at h

/-- The paths that a walk returns, if it ends well. -/
theorem paths_runOn {h : Host} (hok : (w.runOn h).result = .ok ()) :
    Event.paths (w.runOn h).events =
      ((w.ends h.answer w.ahead (w.depthOn h .empty) w.start).filterMap
        (w.emits h.answer)).eraseDups := by
  rw [Event.paths_eq, ← reports_script hok]
  rfl

end Walk

end PathGlob
