import PathGlob.Proofs.FileSystem.Canonical
import PathGlob.Proofs.Walk.Ends
import PathGlob.Proofs.Walk.Failure
import PathGlob.Proofs.Walk.Follow
import PathGlob.Proofs.Walk.Route

/-!
# How results are displayed

Marks, absolute paths, canonical paths and leaving out directories do not change the way of a walk.
What it returns with them is what it returns without, displayed result by result. Of a result alone
can be told what it is displayed as: a walk takes its entries for directories just when the result
leads to one, and it looks up the canonical form of another spelling of it.
-/
namespace PathGlob

/-- Repeats may be left out before results are displayed if they are left out afterwards. -/
theorem eraseDups_filterMap {α β : Type} [BEq α] [LawfulBEq α] [BEq β] [LawfulBEq β]
    (f : α → Option β) (xs : List α) :
    (xs.eraseDups.filterMap f).eraseDups = (xs.filterMap f).eraseDups := by
  induction xs using List.reverseRecOn with
  | nil => rfl
  | append_singleton xs x ih =>
    have hsame : ∀ y, y ∈ xs.eraseDups.filterMap f ↔ y ∈ xs.filterMap f := by simp
    have hrest : ([x].removeAll xs).eraseDups.filterMap f =
        if x ∈ xs then [] else [x].filterMap f := by
      by_cases hx : x ∈ xs
      · simp [List.removeAll, hx]
      · simp only [List.removeAll, List.filter, hx, List.elem_eq_mem, decide_false, Bool.not_false,
          if_false]
        rfl
    rw [List.eraseDups_append, List.filterMap_append, List.filterMap_append, List.eraseDups_append,
      List.eraseDups_append, ih, hrest]
    refine congrArg _ ?_
    by_cases hx : x ∈ xs
    · cases hf : f x with
      | none => simp [hf]
      | some y =>
        have hy : y ∈ xs.filterMap f := List.mem_filterMap.mpr ⟨x, hx, hf⟩
        simp [hx, hf, List.removeAll, hy]
    · rw [if_neg hx]
      simp only [List.removeAll, List.elem_eq_mem, hsame]

theorem Script.outcome_then {o : Oracle} {s : Script Unit} {f : Unit → Script Unit} :
    (s.bind f).outcome o = .ok () ↔ s.outcome o = .ok () ∧ (f ()).outcome o = .ok () := by
  rw [outcome_bind_eq_ok]
  exact ⟨fun ⟨_, hs, hf⟩ => ⟨hs, hf⟩, fun ⟨hs, hf⟩ => ⟨(), hs, hf⟩⟩

/-- Two scripts that begin alike end well alike, up to a condition, if what is behind does. -/
theorem Script.outcome_bind_congr {α : Type} {o : Oracle} {s : Script α} {f g : α → Script Unit}
    {p : Prop} (h : ∀ a, s.outcome o = .ok a →
      ((f a).outcome o = .ok () ↔ (g a).outcome o = .ok () ∧ p)) :
    (s.bind f).outcome o = .ok () ↔ (s.bind g).outcome o = .ok () ∧ p := by
  rw [outcome_bind_eq_ok, outcome_bind_eq_ok, ← exists_and_right]
  refine exists_congr fun a => ?_
  rw [and_assoc]
  exact and_congr_right (h a)

theorem Script.outcome_each_congr {α : Type} {o : Oracle} {as : List α} {f g : α → Script Unit}
    {p : α → Prop}
    (h : ∀ a ∈ as, ((f a).outcome o = .ok () ↔ (g a).outcome o = .ok () ∧ p a)) :
    (each as f).outcome o = .ok () ↔ (each as g).outcome o = .ok () ∧ ∀ a ∈ as, p a := by
  rw [outcome_each_eq_ok, outcome_each_eq_ok, ← forall₂_and]
  exact forall₂_congr h

namespace Walk

def plain (w : Walk) : Walk :=
  { w with
    options :=
      { w.options with mark := false, nodir := false, absolute := false, realpath := false } }

/-- What a result of the plain walk is displayed as; `none` if it is left out. -/
def styled (w : Walk) (h : Host) (r : String) : Except NullInPath (Option String) :=
  let path := Path.join w.cwd r
  let isDir := Oracle.isDirectory h.answer path
  if w.options.nodir && isDir then .ok none
  else if w.options.realpath then (h.canonical path).map (Option.map (w.marked isDir))
  else if w.options.absolute && !w.alternative.isAbsolute then
    .ok (some (w.marked isDir (Path.absolute w.cwd r)))
  else .ok (some (w.marked isDir r))

variable {w : Walk} {o : Oracle} {h : Host} {rest segs : List Segment} {s t : Spot} {depth : Nat}
  {next : Spot → List Spot} {nextScript plainScript : String → List String → Script Unit}

theorem plain_eq_self (hmark : w.options.mark = false) (hnodir : w.options.nodir = false)
    (hreal : w.options.realpath = false) (habs : w.options.absolute = false) : w.plain = w := by
  calc w.plain
      = { w with
          options :=
            { w.options with
              mark := w.options.mark
              nodir := w.options.nodir
              absolute := w.options.absolute
              realpath := w.options.realpath } } := by rw [hmark, hnodir, hreal, habs, plain]
    _ = w := rfl

/-! ## When walks end well -/

def Displays (w : Walk) (o : Oracle) (s : Spot) : Prop :=
  (w.found s.known s.path s.out).outcome o = .ok ()

/-- Only canonical forms can fail to be displayed. -/
theorem Displays.of_realpath {w' : Walk} (hreal : w'.options.realpath = false)
    (hs : w.Displays o s) : w'.Displays o s := by
  unfold Displays found at *
  by_cases hrel : spell s.out = ""
  · simp only [hrel, if_true]
    rfl
  simp only [hrel, if_false, Script.bind_eq] at hs ⊢
  obtain ⟨d, hd, hs⟩ := Script.outcome_bind_eq_ok.mp hs
  refine Script.outcome_bind_eq_ok.mpr ⟨d, hd, ?_⟩
  simp only [display, hreal, Bool.false_eq_true, if_false]
  split_ifs <;> rfl

theorem plain_displays (hs : w.Displays o s) : w.plain.Displays o s := hs.of_realpath rfl

/-- A script ends well if and only if the plain one does and the ends can be displayed. -/
def EndsAlike (w : Walk) (o : Oracle) (next : Spot → List Spot)
    (nextScript plainScript : String → List String → Script Unit) (s : Spot) : Prop :=
  (nextScript s.path s.out).outcome o = .ok () ↔
    (plainScript s.path s.out).outcome o = .ok () ∧ ∀ t ∈ next s, w.Displays o t

theorem endsAlike_descend (hlast : rest = [] → next s = [s])
    (hnext : rest ≠ [] → w.EndsAlike o next nextScript plainScript s) :
    (w.descend rest.isEmpty nextScript s.known s.path s.out).outcome o = .ok () ↔
      (w.plain.descend rest.isEmpty plainScript s.known s.path s.out).outcome o = .ok () ∧
        ∀ t ∈ w.onward o rest next s, w.Displays o t := by
  unfold descend onward
  cases rest with
  | nil =>
    simp only [List.isEmpty_nil, if_true, Bool.true_or, hlast rfl, List.mem_singleton,
      forall_eq]
    exact ⟨fun hs => ⟨plain_displays hs, hs⟩, fun hs => hs.2⟩
  | cons first rest =>
    simp only [List.isEmpty_cons, Bool.false_eq_true, if_false, Script.bind_eq, Bool.false_or]
    refine Script.outcome_bind_congr fun d hd => ?_
    have hdir : s.isDirectory o = d := outcome_whetherDirectory hd
    have hign : w.plain.ignored = w.ignored := rfl
    rw [hdir, hign]
    split_ifs
    · exact hnext (by simp)
    · simp

theorem endsAlike_anchor (hlast : rest = [] → ∀ s, next s = [s])
    (hnext : rest ≠ [] → w.EndsAlike o next nextScript plainScript { s with known := some true }) :
    (w.anchor rest nextScript s.path s.out).outcome o = .ok () ↔
      (w.plain.anchor rest plainScript s.path s.out).outcome o = .ok () ∧
        ∀ t ∈ if s.out = [] && !standsAlone rest then []
          else next { s with known := some true }, w.Displays o t := by
  unfold anchor
  cases rest with
  | nil =>
    by_cases hout : s.out = []
    · simp [hout, standsAlone]
    · simp only [hout, if_false, decide_false, Bool.false_and, Bool.false_eq_true, hlast rfl,
        List.mem_singleton, forall_eq]
      exact ⟨fun hs => ⟨plain_displays (s := { s with known := some true }) hs, hs⟩,
        fun hs => hs.2⟩
  | cons first rest =>
    have hstands : (!standsAlone (first :: rest)) = first.isEmpty := by simp [standsAlone]
    rw [hstands]
    dsimp only
    split_ifs
    · simp
    · exact hnext (by simp)

theorem endsAlike_pass {deeper : Spot → List Spot}
    {deeperScript plainDeeper : String → List String → Script Unit} {e : Entry}
    (hs : t = (s.enter o).child e.name.text (some e.isDir))
    (hlast : rest = [] → next t = [t])
    (hdeeper : w.EndsAlike o deeper deeperScript plainDeeper t)
    (hnext : rest ≠ [] → w.EndsAlike o next nextScript plainScript t) :
    (w.pass rest deeperScript nextScript s.path s.out e).outcome o = .ok () ↔
      (w.plain.pass rest plainDeeper plainScript s.path s.out e).outcome o = .ok () ∧
        ∀ t ∈ w.choose o rest deeper next s e, w.Displays o t := by
  unfold choose
  by_cases visible : e.name.text.toList.head? = some '.' → w.options.dot = true
  swap
  · have hdot : (decide (e.name.text.toList.head? = some '.') && !w.options.dot) = true := by
      simpa using visible
    simp [pass_of_hidden visible, pass_of_hidden (w := w.plain) visible, hdot]
  have hdot : (decide (e.name.text.toList.head? = some '.') && !w.options.dot) = false := by
    simpa using visible
  simp only [hdot, Bool.false_eq_true, if_false, ← hs]
  have hpath : Path.child s.path e.name.text = t.path := by rw [hs]; rfl
  have hout : s.out ++ [e.name.text] = t.out := by rw [hs]; rfl
  have hdescends : w.plain.descends e = w.descends e := rfl
  have hign : w.plain.ignored = w.ignored := rfl
  cases way : e.isDir && w.descends e with
  | true =>
    rw [pass_of_inner visible way, pass_of_inner (w := w.plain) visible way, hpath, hout, hign]
    simp only [if_true]
    split_ifs
    · simp
    · exact hdeeper
  | false =>
    have hknown : some e.isDir = t.known := by rw [hs]; rfl
    rw [pass_of_final visible way, pass_of_final (w := w.plain) visible way, hpath, hout, hknown]
    simp only [Bool.false_eq_true, if_false]
    exact endsAlike_descend hlast hnext

theorem endsAlike_globstar {next : Nat → Spot → List Spot}
    {nextScript plainScript : Nat → Chain → String → List String → Script Unit}
    (hlast : rest = [] → ∀ depth s, next depth s = [s])
    (hnext : ∀ depth chain s, rest ≠ [] → (w.options.follow = true → chain = s.entered) →
      w.EndsAlike o (next depth) (nextScript depth chain) (plainScript depth chain) s)
    (depth : Nat) (chain : Chain) (s : Spot)
    (hchain : w.options.follow = true → chain = s.entered) :
    w.EndsAlike o (w.sweep o rest next depth) (w.globstar rest nextScript depth chain)
      (w.plain.globstar rest plainScript depth chain) s := by
  unfold EndsAlike
  induction depth generalizing chain s with
  | zero => simp [globstar]
  | succ depth ih =>
    have henter : w.plain.enter = w.enter := rfl
    have hentries : w.plain.entries = w.entries := rfl
    have hanchor := endsAlike_anchor (s := s) (fun hnil => hlast hnil depth)
      fun hne => hnext depth chain { s with known := some true } hne hchain
    rw [globstar, globstar, sweep, henter, hentries]
    simp only [Script.bind_eq, List.forall_mem_append]
    rw [Script.outcome_then, Script.outcome_then, hanchor]
    refine (and_congr_right' (Script.outcome_bind_congr fun below henter => ?_)).trans
      and_and_and_comm
    have hbelow := outcome_enter henter
    have hloops : w.loops o s = below.isNone := by rw [loops_of_chainBelow hchain, hbelow]
    rw [hloops]
    cases below with
    | none => simp [Script.outcome_report]
    | some below =>
      obtain ⟨-, hchain'⟩ := fresh_of_chainBelow hchain hbelow
      simp only [Option.isNone_some, Bool.false_eq_true, if_false]
      refine Script.outcome_bind_congr fun es hes => ?_
      have hlisted : o.entries s.path = es := outcome_entries hes
      rw [hlisted, List.forall_mem_flatMap]
      refine Script.outcome_each_congr fun e he => ?_
      exact endsAlike_pass rfl (fun hnil => hlast hnil depth _) (ih below _ hchain')
        (fun hne => hnext depth below _ hne hchain')

theorem endsAlike_lay (segs : List Segment) (depth : Nat) (chain : Chain) (s : Spot)
    (hknown : segs = [] → s.known = none)
    (hchain : w.options.follow = true → chain = s.entered) :
    w.EndsAlike o (w.ends o segs depth) (w.lay segs depth chain) (w.plain.lay segs depth chain)
      s := by
  induction segs generalizing depth chain s with
  | nil =>
    unfold EndsAlike
    rw [lay, lay, ends, ← hknown rfl, List.forall_mem_singleton]
    exact ⟨fun hs => ⟨plain_displays hs, hs⟩, fun hs => hs.2⟩
  | cons first rest ih =>
    unfold EndsAlike
    -- What is left goes on with the same chain, since only globstars enter directories.
    have hrest : ∀ s' : Spot, s'.entered = s.entered → rest ≠ [] →
        w.EndsAlike o (w.ends o rest depth) (w.lay rest depth chain) (w.plain.lay rest depth chain)
          s' := fun s' hs hne =>
      ih depth chain s' (fun he => absurd he hne) fun hf => (hchain hf).trans hs.symm
    have hlast : rest = [] → ∀ depth s, w.ends o rest depth s = [s] := by
      rintro rfl depth s
      rfl
    cases first with
    | empty =>
      rw [lay, lay, ends]
      refine Script.outcome_bind_congr fun d hd => ?_
      rw [outcome_isDirectory hd]
      split_ifs
      · exact ih depth chain s.slash (fun _ => rfl) hchain
      · simp
    | literal text name =>
      rw [lay, lay, ends]
      refine Script.outcome_bind_congr fun d hd => ?_
      rw [outcome_isThere hd]
      split_ifs
      · exact endsAlike_descend (s := s.child name none) (fun hnil => hlast hnil _ _)
          (hrest _ rfl)
      · simp
    | magic text mode tokens =>
      have hentries : w.plain.entries = w.entries := rfl
      rw [lay, lay, ends, hentries]
      refine Script.outcome_bind_congr fun es hes => ?_
      have hlisted : o.entries s.path = es := outcome_entries hes
      rw [hlisted, List.forall_mem_flatMap]
      refine Script.outcome_each_congr fun e he => ?_
      dsimp only
      split_ifs
      · exact endsAlike_descend (s := s.child e.name.text (some e.isDir))
          (fun hnil => hlast hnil _ _) (hrest _ rfl)
      · simp
    | globstar =>
      rw [lay, lay, ends]
      exact endsAlike_globstar hlast
        (fun d c s' hne hc => ih d c s' (fun he => absurd he hne) hc) depth chain s hchain

/-- A walk ends well if and only if the plain walk does and all ends can be displayed. -/
theorem outcome_script_iff_plain : (w.script depth).outcome o = .ok () ↔
    (w.plain.script depth).outcome o = .ok () ∧
      ∀ t ∈ w.ends o w.ahead depth w.start, w.Displays o t := by
  have hroot : w.plain.root = w.root := rfl
  have hstart : w.plain.start = w.start := rfl
  have hahead : w.plain.ahead = w.ahead := rfl
  rw [script_eq, script_eq, hroot, hstart, hahead]
  refine Script.outcome_bind_congr fun d hd => ?_
  split_ifs
  · exact endsAlike_lay w.ahead depth [] w.start (fun _ => rfl) fun _ => rfl
  · simp

/-! ## What ends amount to -/

theorem ends_plain (segs : List Segment) (s : Spot) :
    w.plain.ends o segs depth s = w.ends o segs depth s := by
  have hlike : w.GoesLike w.plain := ⟨rfl, rfl, rfl⟩
  exact hlike.ends segs depth s

theorem emits_plain (hlays : w.plain.Lays o w.ahead s t) : w.plain.emits o t =
    if spell t.out = "" ∨ w.ignored (spell t.out) (t.isDirectory o) = true then none
    else some (spell t.out) := by
  have hign : w.plain.ignored = w.ignored := rfl
  unfold emits
  by_cases hne : spell t.out = ""
  · rw [if_pos hne, if_pos (.inl hne)]
  have hmarked := marked_of_lays (w := w.plain) rfl hlays hne (t.isDirectory o)
  rw [if_neg hne, hign]
  simp only [hne, false_or]
  cases w.ignored (spell t.out) (t.isDirectory o) with
  | true => simp
  | false =>
    have hnodir : w.plain.options.nodir = false := rfl
    have hreal : w.plain.options.realpath = false := rfl
    have habs : w.plain.options.absolute = false := rfl
    simp [shown, hnodir, hreal, habs, hmarked]

theorem eq_spell_of_emits_plain {r : String} (hlays : w.plain.Lays o w.ahead s t)
    (hr : w.plain.emits o t = some r) : spell t.out ≠ "" ∧ r = spell t.out := by
  rw [emits_plain hlays] at hr
  by_cases hskip : spell t.out = "" ∨ w.ignored (spell t.out) (t.isDirectory o) = true
  · rw [if_pos hskip] at hr
    cases hr
  · rw [if_neg hskip, Option.some.injEq] at hr
    exact ⟨fun hne => hskip (.inl hne), hr.symm⟩

/-- What is displayed for the end of a trail, which its spelling alone tells. -/
theorem styled_spell (ht : w.plain.OnRoute h.answer t)
    (hroot : w.alternative.root = "/" ∨ w.alternative.root = "") (hne : spell t.out ≠ "") :
    w.styled h (spell t.out) =
      if w.options.nodir && t.isDirectory h.answer then .ok none
      else if w.options.realpath then
        (h.canonical t.path).map (Option.map (w.marked (t.isDirectory h.answer)))
      else .ok (w.shown h.answer t.path (spell t.out) (t.isDirectory h.answer)) := by
  have halike : h.Alike (Path.join w.cwd (spell t.out)) t.path :=
    (ht.route.alike hroot (ne_beginning_of_spell hne)).2
  have hisDir : Oracle.isDirectory h.answer (Path.join w.cwd (spell t.out)) =
      t.isDirectory h.answer := ht.isDirectory hroot hne
  unfold styled
  simp only [hisDir, halike.canonical]
  by_cases hnodir : (w.options.nodir && t.isDirectory h.answer) = true
  · rw [if_pos hnodir, if_pos hnodir]
  rw [if_neg hnodir, if_neg hnodir]
  by_cases hreal : w.options.realpath = true
  · rw [if_pos hreal, if_pos hreal]
  rw [if_neg hreal, if_neg hreal, shown, if_neg hreal]
  split_ifs <;> rfl

/-- What is reported at an end is what the plain walk reports there, displayed. -/
theorem emits_eq_styled (hroute : spell t.out ≠ "" → w.plain.OnRoute h.answer t)
    (hroot : w.alternative.root = "/" ∨ w.alternative.root = "")
    (hlays : w.plain.Lays h.answer w.ahead w.start t) :
    w.emits h.answer t =
      (w.plain.emits h.answer t).bind fun r => (w.styled h r).toOption.join := by
  rw [emits_plain hlays, emits]
  by_cases hne : spell t.out = ""
  · simp [hne]
  cases hig : w.ignored (spell t.out) (t.isDirectory h.answer) with
  | true => simp [hne]
  | false =>
    simp only [hne, Bool.or_false, Bool.false_eq_true, or_self, if_false, Option.bind_some,
      styled_spell (hroute hne) hroot hne]
    split_ifs with hnodir hreal
    · rfl
    · simp only [shown, hreal, if_true, Host.answer]
      cases h.canonical t.path <;> rfl
    · rfl

/-- An end can be displayed if what the plain walk reports there can be. -/
theorem displays_iff_styled (hroute : spell t.out ≠ "" → w.plain.OnRoute h.answer t)
    (hroot : w.alternative.root = "/" ∨ w.alternative.root = "")
    (hlays : w.plain.Lays h.answer w.ahead w.start t) (hplain : w.plain.Displays h.answer t) :
    w.Displays h.answer t ↔
      ∀ r, w.plain.emits h.answer t = some r → ∃ shown, w.styled h r = .ok shown := by
  rw [emits_plain hlays]
  unfold Displays found at *
  by_cases hne : spell t.out = ""
  · simp [hne, Script.nothing]
  simp only [hne, if_false, Script.bind_eq] at hplain ⊢
  obtain ⟨d, hd, -⟩ := Script.outcome_bind_eq_ok.mp hplain
  have hisDir : t.isDirectory h.answer = d := outcome_whetherDirectory hd
  have hwhether : (whetherDirectory t.known t.path).outcome h.answer = .ok d := hd
  simp only [Script.outcome_bind, hwhether, Except.bind]
  cases hig : w.ignored (spell t.out) d with
  | true => simp [hisDir, hig, Script.nothing]
  | false =>
    simp only [hisDir, hig, Bool.or_false, Bool.false_eq_true, or_self, if_false, Option.some.injEq,
      forall_eq', styled_spell (hroute hne) hroot hne]
    by_cases hnodir : (w.options.nodir && d) = true
    · simp [hnodir, Script.nothing]
    simp only [hnodir, Bool.false_eq_true, if_false, display]
    by_cases hreal : w.options.realpath = true
    · simp only [hreal, if_true, Script.bind, Script.outcome_ask, Host.answer]
      rcases h.canonical t.path with e | (_ | r) <;> simp [Except.map, Script.nothing]
    · simp only [hreal, Bool.false_eq_true, if_false]
      split_ifs <;> simp [Script.bind, Script.nothing]

/-! ## Null characters -/

theorem hasNull_path_of_sweeps (hsweep : w.Sweeps o rest s t) (hs : hasNull s.path = false) :
    hasNull t.path = false := by
  have hchild : ∀ (s : Spot) (e : Entry), hasNull s.path = false →
      hasNull (Path.child s.path e.name.text) = false := by
    intro s e hs
    rw [hasNull_child, hs, hasNull_name]
    rfl
  induction hsweep with
  | stay placed => exact hs
  | last offered final goes => exact hchild _ _ hs
  | down offered inner kept more ih => exact ih (hchild _ _ hs)

theorem hasNull_path_of_lays (hlays : w.Lays h.answer segs s t) (hs : hasNull s.path = false) :
    hasNull t.path = false := by
  induction hlays with
  | nil => exact hs
  | empty dir more ih => exact ih hs
  | @literal text name rest s t there goes more ih =>
    refine ih ?_
    change hasNull (Path.child s.path name) = false
    rw [← Bool.not_eq_true]
    intro hnull
    simp [Oracle.isThere, Host.answer, hnull] at there
  | @magic text mode tokens rest s t e listed accepted goes more ih =>
    refine ih ?_
    change hasNull (Path.child s.path e.name.text) = false
    rw [hasNull_child, hs, hasNull_name]
    rfl
  | globstar sweep more ih => exact ih (hasNull_path_of_sweeps sweep hs)

/-! ## Whole walks -/

def endsOn (w : Walk) (h : Host) : List Spot :=
  w.ends h.answer w.ahead (w.depthOn h .empty) w.start

/-- The paths that a walk returns are told from its ends at any depth that is enough. -/
theorem paths_runOn_of_le (hdepth : w.depthOn h .empty ≤ depth)
    (hok : (w.runOn h).result = .ok ()) : Event.paths (w.runOn h).events =
      ((w.ends h.answer w.ahead depth w.start).filterMap (w.emits h.answer)).eraseDups := by
  rw [w.runOn_eq_of_le h hdepth] at hok ⊢
  rw [← reports_script hok]
  rfl

theorem endsOn_plain : w.plain.endsOn h = w.endsOn h := ends_plain _ _

structure PlainEnd (w : Walk) (h : Host) (t : Spot) : Prop where
  lays : w.plain.Lays h.answer w.ahead w.start t
  displays : w.plain.Displays h.answer t
  route : spell t.out ≠ "" → w.plain.OnRoute h.answer t

theorem plainEnd_of_mem (ha : w.alternative.Compiled)
    (hroot : w.alternative.root = "/" ∨ w.alternative.root = "") (hsearch : h.files.Searchable)
    (hok : (w.plain.runOn h).result = .ok ()) (ht : t ∈ w.endsOn h) : w.PlainEnd h t := by
  have hdir : Oracle.isDirectory h.answer w.root = true :=
    isDirectory_root_of_outcome (w := w.plain) hok
  rw [← endsOn_plain] at ht
  have hlays : w.plain.Lays h.answer w.ahead w.start t := lays_of_mem_ends ht
  exact ⟨hlays, (outcome_script_iff_plain (w := w.plain).mp hok).2 t ht,
    onRoute_of_lays_start (w := w.plain) (telling_answer hsearch) ha hroot hdir hlays⟩

theorem result_iff_plain : (w.runOn h).result = .ok () ↔
    (w.plain.runOn h).result = .ok () ∧ ∀ t ∈ w.endsOn h, w.Displays h.answer t :=
  outcome_script_iff_plain

theorem mem_paths_runOn {r : String} (hok : (w.runOn h).result = .ok ()) :
    r ∈ Event.paths (w.runOn h).events ↔ ∃ t ∈ w.endsOn h, w.emits h.answer t = some r := by
  rw [paths_runOn hok, List.mem_eraseDups, List.mem_filterMap]
  rfl

theorem mem_paths_plain {r : String} (hok : (w.plain.runOn h).result = .ok ()) :
    r ∈ Event.paths (w.plain.runOn h).events ↔
      ∃ t ∈ w.endsOn h, w.plain.emits h.answer t = some r := by
  rw [mem_paths_runOn hok, endsOn_plain]

/-- All ends can be displayed just if all results of the plain walk can be. -/
theorem displays_iff_forall_paths (ha : w.alternative.Compiled)
    (hroot : w.alternative.root = "/" ∨ w.alternative.root = "") (hsearch : h.files.Searchable)
    (hok : (w.plain.runOn h).result = .ok ()) : (∀ t ∈ w.endsOn h, w.Displays h.answer t) ↔
      ∀ r ∈ Event.paths (w.plain.runOn h).events, ∃ shown, w.styled h r = .ok shown := by
  constructor
  · intro hall r hr
    obtain ⟨t, ht, hemits⟩ := (mem_paths_plain hok).mp hr
    have hend := plainEnd_of_mem ha hroot hsearch hok ht
    exact (displays_iff_styled hend.route hroot hend.lays hend.displays).mp (hall t ht) r hemits
  · intro hall t ht
    have hend := plainEnd_of_mem ha hroot hsearch hok ht
    exact (displays_iff_styled hend.route hroot hend.lays hend.displays).mpr fun r hemits =>
      hall r ((mem_paths_plain hok).mpr ⟨t, ht, hemits⟩)

/-- Where no link has a null character in its target, all that the plain walk returns can be
displayed. -/
theorem exists_styled (ha : w.alternative.Compiled)
    (hroot : w.alternative.root = "/" ∨ w.alternative.root = "") (hsearch : h.files.Searchable)
    (hfree : h.files.NullFree) (hok : (w.plain.runOn h).result = .ok ()) {r : String}
    (hr : r ∈ Event.paths (w.plain.runOn h).events) : ∃ shown, w.styled h r = .ok shown := by
  obtain ⟨t, ht, hemits⟩ := (mem_paths_plain hok).mp hr
  have hend := plainEnd_of_mem ha hroot hsearch hok ht
  obtain ⟨hne, rfl⟩ := eq_spell_of_emits_plain hend.lays hemits
  have hdir : Oracle.isDirectory h.answer w.root = true :=
    isDirectory_root_of_outcome (w := w.plain) hok
  have hnull := hasNull_path_of_lays hend.lays (Host.isDirectory_answer.mp hdir).1
  obtain ⟨canonical, hcanonical⟩ := Host.exists_canonical hfree hnull
  rw [styled_spell (hend.route hne) hroot hne, hcanonical]
  split_ifs <;> exact ⟨_, rfl⟩

theorem paths_eq_styled (ha : w.alternative.Compiled)
    (hroot : w.alternative.root = "/" ∨ w.alternative.root = "") (hsearch : h.files.Searchable)
    (hok : (w.runOn h).result = .ok ()) : Event.paths (w.runOn h).events =
      ((Event.paths (w.plain.runOn h).events).filterMap fun r =>
        (w.styled h r).toOption.join).eraseDups := by
  have hplain := (result_iff_plain.mp hok).1
  have hemits : ∀ t ∈ w.endsOn h, w.emits h.answer t =
      (w.plain.emits h.answer t).bind fun r => (w.styled h r).toOption.join := by
    intro t ht
    have hend := plainEnd_of_mem ha hroot hsearch hplain ht
    exact emits_eq_styled hend.route hroot hend.lays
  calc Event.paths (w.runOn h).events
      = ((w.endsOn h).filterMap (w.emits h.answer)).eraseDups := paths_runOn hok
    _ = (((w.endsOn h).filterMap (w.plain.emits h.answer)).filterMap fun r =>
          (w.styled h r).toOption.join).eraseDups := by
        rw [List.filterMap_filterMap, List.filterMap_congr hemits]
    _ = ((((w.plain.endsOn h).filterMap (w.plain.emits h.answer)).eraseDups).filterMap fun r =>
          (w.styled h r).toOption.join).eraseDups := by
        rw [eraseDups_filterMap, endsOn_plain]
    _ = _ := by
        rw [paths_runOn hplain]
        rfl

/-- Where all directories may be searched, what a walk returns is what the plain walk returns,
displayed one by one: results that lead to directories are left out or marked, results are made
absolute or canonical, those without a canonical form are dropped, and so are repeats. It fails if
the plain walk does or if a canonical form is refused for a null character, which only the target
of a link can bring in. -/
theorem paths_displayed (w : Walk) (h : Host) (c c' : Cache) (ha : w.alternative.Compiled)
    (hroot : w.alternative.root = "/" ∨ w.alternative.root = "") (hsearch : h.files.Searchable)
    (hc : c.Agrees h.answer) (hc' : c'.Agrees h.answer) :
    ((w.run h c).result = .ok () ↔ (w.plain.run h c').result = .ok () ∧
        ∀ r ∈ Event.paths (w.plain.run h c').events, ∃ shown, w.styled h r = .ok shown) ∧
      ((w.run h c).result = .ok () →
        Event.paths (w.run h c).events =
          ((Event.paths (w.plain.run h c').events).filterMap fun r =>
            (w.styled h r).toOption.join).eraseDups) ∧
      (h.files.NullFree →
        ((w.run h c).result = .ok () ↔ (w.plain.run h c').result = .ok ())) := by
  rw [run_of_agrees w h hc, run_of_agrees w.plain h hc']
  have hiff : (w.runOn h).result = .ok () ↔ (w.plain.runOn h).result = .ok () ∧
      ∀ r ∈ Event.paths (w.plain.runOn h).events, ∃ shown, w.styled h r = .ok shown :=
    result_iff_plain.trans
      (and_congr_right fun hok => displays_iff_forall_paths ha hroot hsearch hok)
  refine ⟨hiff, paths_eq_styled ha hroot hsearch, fun hfree => ?_⟩
  exact hiff.trans (and_iff_left_of_imp fun hok r hr => exists_styled ha hroot hsearch hfree hok hr)

/-- What is found by way of the link is dropped, since its canonical form is already listed. -/
theorem paths_displayed_canonical :
    let w : Walk := ⟨Pattern.readAlternative {} false 0 0 "**".toList,
      { follow := true, realpath := true, mark := true }, fun _ _ => false, "/"⟩
    Event.paths (w.plain.run linkedHost .empty).events = ["d", "d/f", "l", "l/f"] ∧
      (w.run linkedHost .empty).result = .ok () ∧
      Event.paths (w.run linkedHost .empty).events = ["/d/", "/d/f"] := by
  intro w
  have hempty := Cache.agrees_empty linkedHost.answer
  have hcompiled : w.alternative.Compiled :=
    Alternative.compiled_of_expand (by decide) (by decide +kernel) false 0 0
  obtain ⟨-, hsearch⟩ := FileSystem.open_of_isOpen linkedHost.files (by decide +kernel)
  obtain ⟨-, hpaths, hresult⟩ := paths_displayed w linkedHost .empty .empty hcompiled
    (.inr (by decide +kernel)) hsearch hempty hempty
  have hfree := FileSystem.nullFree_of_isNullFree linkedHost.files (by decide +kernel)
  have hall : Event.paths (w.plain.run linkedHost .empty).events =
      ["d", "d/f", "l", "l/f"] := by
    rw [run_of_agrees _ _ hempty]
    decide +kernel
  have hok : (w.run linkedHost .empty).result = .ok () := by
    rw [hresult hfree, run_of_agrees _ _ hempty]
    decide +kernel
  refine ⟨hall, hok, ?_⟩
  rw [hpaths hok, hall]
  decide +kernel

end Walk

end PathGlob
