import PathGlob.Proofs.Ignore.Relative
import PathGlob.Proofs.Walk.Ends
import PathGlob.Proofs.Walk.Failure
import PathGlob.Proofs.Walk.Route

/-!
# Ignored paths

A walk does not go into directories that are ignored. What it reports is nevertheless just what a
walk that ignores nothing reports, without the results that are ignored themselves or by a directory
on the way.
-/
namespace PathGlob

namespace Walk

/-! ## Filters of results -/

/-- Paths are ignored by their normal form, and the top of the tree never is. -/
def IgnoresBy (w : Walk) (decision : String → Bool → Bool) : Prop :=
  ∀ path isDir, w.ignored path isDir =
    (Ignore.Filter.relative path != "" && decision (Ignore.Filter.relative path) isDir)

/-- Filters that are read from lines decide so. -/
theorem ignoresBy_filter {w : Walk} {f : Ignore.Filter} (hw : w.ignored = f.ignores) :
    w.IgnoresBy fun rel isDir =>
      f.active && f.ignoresPath (if isDir then rel ++ "/" else rel).toList := by
  intro path isDir
  rw [hw, Ignore.Filter.ignores]
  cases f.active <;> simp

def unfiltered (w : Walk) : Walk := { w with ignored := fun _ _ => false }

/-- Whether no proper leading part of some components is ignored as a directory. -/
def clear (w : Walk) (components : List String) : Bool :=
  (List.range components.length).all fun n => !w.ignored (spell (components.take n)) true

/-- Whether a result of the walk is not ignored, neither itself nor by a directory on the way. -/
def spares (w : Walk) (o : Oracle) (r : String) : Bool :=
  w.clear (Path.components r) && !w.ignored r (o.isDirectory (Path.join w.cwd r))

def keeps (w : Walk) (o : Oracle) (t : Spot) : Bool :=
  w.clear t.out && !w.ignored (spell t.out) (t.isDirectory o)

variable {w : Walk} {o : Oracle} {decision : String → Bool → Bool} {rest segs : List Segment}
  {s t m : Spot} {out : List String} {depth : Nat}

theorem clear_eq_true :
    w.clear out = true ↔ ∀ n < out.length, w.ignored (spell (out.take n)) true = false := by
  simp [clear]

theorem clear_concat (c : String) :
    w.clear (out ++ [c]) = true ↔ w.clear out = true ∧ w.ignored (spell out) true = false := by
  simp only [clear_eq_true, List.length_append, List.length_singleton]
  constructor
  · intro h
    refine ⟨fun n hn => ?_, ?_⟩
    · have hsame := h n (by omega)
      rwa [List.take_append_of_le_length hn.le] at hsame
    · have hsame := h out.length (by omega)
      rwa [List.take_left] at hsame
  · rintro ⟨h, hout⟩ n hn
    rcases Nat.lt_succ_iff_lt_or_eq.mp hn with hn | rfl
    · rw [List.take_append_of_le_length hn.le]
      exact h n hn
    · rwa [List.take_left]

theorem not_clear_beyond (hpre : s.out <+: t.out) (hne : t.out ≠ s.out)
    (hig : w.ignored (spell s.out) true = true) : w.clear t.out = false := by
  rw [Bool.eq_false_iff]
  intro hclear
  obtain ⟨more, hmore⟩ := hpre
  have hlt : s.out.length < t.out.length := by
    rw [← hmore, List.length_append]
    have hpos : 0 < more.length := by
      apply List.length_pos_of_ne_nil
      rintro rfl
      exact hne (by simpa using hmore.symm)
    omega
  have hno := clear_eq_true.mp hclear _ hlt
  rw [← hmore, List.take_left, hig] at hno
  cases hno

theorem ignored_slash (hign : w.IgnoresBy decision) (out : List String) (isDir : Bool) :
    w.ignored (spell (out ++ [""])) isDir = w.ignored (spell out) isDir := by
  by_cases hout : out = []
  · rw [hout]
    rfl
  · rw [hign, hign, spell_append hout, String.append_empty, Ignore.Filter.relative_slash]

/-! ## Nothing else is left out -/

/-- Behind an ignored directory nothing is kept. -/
theorem not_keeps_of_lays {w' : Walk} (hlays : w'.Lays o segs s t) (hne : segs ≠ [])
    (hig : w.ignored (spell s.out) true = true) : w.keeps o t = false := by
  obtain ⟨hpre, hdir⟩ := out_of_lays hlays
  unfold keeps
  by_cases heq : t.out = s.out
  · rw [hdir hne heq, heq, hig]
    simp
  · rw [not_clear_beyond hpre heq hig]
    rfl

variable {next next' deeper deeper' : Spot → List Spot}

theorem filter_onward (hnext : (next s).filter (w.keeps o) = (next' s).filter (w.keeps o))
    (hbarred : rest ≠ [] → w.ignored (spell s.out) true = true →
      (next' s).filter (w.keeps o) = []) :
    (w.onward o rest next s).filter (w.keeps o) =
      (w.unfiltered.onward o rest next' s).filter (w.keeps o) := by
  simp only [onward, unfiltered, Bool.not_false, Bool.and_true]
  cases rest with
  | nil => exact hnext
  | cons first rest =>
    simp only [List.isEmpty_cons, Bool.false_or]
    cases hdir : s.isDirectory o with
    | false => rfl
    | true =>
      cases hig : w.ignored (spell s.out) true with
      | false => exact hnext
      | true => exact (hbarred (by simp) hig).symm

theorem filter_choose {e : Entry} (ht : t = (s.enter o).child e.name.text (some e.isDir))
    (hdeeper : (deeper t).filter (w.keeps o) = (deeper' t).filter (w.keeps o))
    (hnext : (next t).filter (w.keeps o) = (next' t).filter (w.keeps o))
    (hbarred : w.ignored (spell t.out) true = true →
      (deeper' t).filter (w.keeps o) = [] ∧ (rest ≠ [] → (next' t).filter (w.keeps o) = [])) :
    (w.choose o rest deeper next s e).filter (w.keeps o) =
      (w.unfiltered.choose o rest deeper' next' s e).filter (w.keeps o) := by
  have hoptions : w.unfiltered.options = w.options := rfl
  have hdescends : w.unfiltered.descends e = w.descends e := rfl
  have hnever : ∀ path, w.unfiltered.ignored path true = false := fun _ => rfl
  simp only [choose, hoptions, hdescends, hnever, ← ht, Bool.false_eq_true, if_false]
  split_ifs with hidden inner hig
  · rfl
  · exact (hbarred hig).1.symm
  · exact hdeeper
  · exact filter_onward hnext fun hne hig => (hbarred hig).2 hne

theorem filter_sweep {next next' : Nat → Spot → List Spot}
    (hnext : ∀ depth s, (next depth s).filter (w.keeps o) = (next' depth s).filter (w.keeps o))
    (hlays : ∀ depth s, ∀ t ∈ next' depth s, w.unfiltered.Lays o rest s t) (depth : Nat)
    (s : Spot) :
    (w.sweep o rest next depth s).filter (w.keeps o) =
      (w.unfiltered.sweep o rest next' depth s).filter (w.keeps o) := by
  induction depth generalizing s with
  | zero => rfl
  | succ depth ih =>
    have hloops : w.unfiltered.loops o s = w.loops o s := rfl
    rw [sweep, sweep, List.filter_append, List.filter_append, hloops]
    congr 1
    · split
      · rfl
      · exact hnext depth _
    · split
      · rfl
      · rw [List.filter_flatMap, List.filter_flatMap]
        refine List.flatMap_congr fun e _ => filter_choose rfl (ih _) (hnext depth _) fun hig => ?_
        constructor
        · rw [List.filter_eq_nil_iff]
          intro t ht
          rw [not_keeps_of_lays (lays_of_mem_sweep (fun d s => hlays d s t) ht) (by simp) hig]
          simp
        · intro hne
          rw [List.filter_eq_nil_iff]
          intro t ht
          rw [not_keeps_of_lays (hlays depth _ t ht) hne hig]
          simp

/-- Of the ends of all trails those that are kept are ends of trails with the filter too. -/
theorem filter_ends (segs : List Segment) (depth : Nat) (s : Spot) :
    (w.ends o segs depth s).filter (w.keeps o) =
      (w.unfiltered.ends o segs depth s).filter (w.keeps o) := by
  induction segs generalizing depth s with
  | nil => rfl
  | cons first rest ih =>
    have hbarred : ∀ s : Spot, rest ≠ [] → w.ignored (spell s.out) true = true →
        (w.unfiltered.ends o rest depth s).filter (w.keeps o) = [] := by
      intro s hne hig
      rw [List.filter_eq_nil_iff]
      intro t ht
      rw [not_keeps_of_lays (lays_of_mem_ends ht) hne hig]
      simp
    cases first with
    | empty =>
      rw [ends, ends]
      split
      · exact ih depth s.slash
      · rfl
    | literal text name =>
      rw [ends, ends]
      split
      · exact filter_onward (ih depth _) (hbarred _)
      · rfl
    | magic text mode tokens =>
      rw [ends, ends, List.filter_flatMap, List.filter_flatMap]
      refine List.flatMap_congr fun e _ => ?_
      split
      · exact filter_onward (ih depth _) (hbarred _)
      · rfl
    | globstar =>
      rw [ends, ends]
      exact filter_sweep ih (fun _ _ _ => lays_of_mem_ends) depth s

/-! ## Nothing that is ignored is found -/

theorem clear_of_sweeps (hsweep : w.Sweeps o rest s m) (hclear : w.clear s.out = true)
    (hopen : w.ignored (spell s.out) true = false) :
    w.clear m.out = true ∧ (rest ≠ [] → w.ignored (spell m.out) true = false) := by
  induction hsweep with
  | stay placed => exact ⟨hclear, fun _ => hopen⟩
  | last offered final goes =>
    refine ⟨(clear_concat _).mpr ⟨hclear, hopen⟩, fun hne => ?_⟩
    exact (goes.resolve_left hne).2
  | down offered inner kept more ih => exact ih ((clear_concat _).mpr ⟨hclear, hopen⟩) kept

theorem clear_of_lays (hign : w.IgnoresBy decision) (hlays : w.Lays o segs s t)
    (hclear : w.clear s.out = true)
    (hopen : segs ≠ [] → w.ignored (spell s.out) true = false) : w.clear t.out = true := by
  induction hlays with
  | nil => exact hclear
  | empty dir more ih =>
    have hopen := hopen (by simp)
    refine ih ((clear_concat _).mpr ⟨hclear, hopen⟩) fun _ => ?_
    rw [← hopen]
    exact ignored_slash hign _ true
  | literal there goes more ih =>
    refine ih ((clear_concat _).mpr ⟨hclear, hopen (by simp)⟩) fun hne => ?_
    exact (goes.resolve_left hne).2
  | magic listed accepted goes more ih =>
    refine ih ((clear_concat _).mpr ⟨hclear, hopen (by simp)⟩) fun hne => ?_
    exact (goes.resolve_left hne).2
  | globstar sweep more ih =>
    obtain ⟨hclear', hopen'⟩ := clear_of_sweeps sweep hclear (hopen (by simp))
    exact ih hclear' hopen'

theorem clear_of_mem_ends (ha : w.alternative.Compiled)
    (hroot : w.alternative.root = "/" ∨ w.alternative.root = "") (hign : w.IgnoresBy decision)
    (ht : t ∈ w.ends o w.ahead depth w.start) : w.clear t.out = true := by
  have hopen : w.ignored (spell w.beginning) true = false := by
    have htop : Ignore.Filter.relative "" = "" := by decide
    rw [hign, spell_beginning, htop]
    rfl
  have hclear : w.clear w.beginning = true := by
    rw [clear_eq_true]
    intro n hn
    have hzero : n = 0 := by
      unfold beginning at hn
      split at hn <;> simp at hn
      exact hn
    have hnil : spell (w.beginning.take n) = spell w.beginning := by
      rw [hzero, spell_beginning]
      rfl
    rw [hnil, hopen]
  rw [← start_out ha hroot] at hclear hopen
  exact clear_of_lays hign (lays_of_mem_ends ht) hclear fun _ => hopen

/-! ## Results -/

/-- Without a filter the end of a trail amounts to its spelling or to nothing. -/
theorem eq_spell_of_emits {r : String} (hreal : w.options.realpath = false)
    (habs : w.options.absolute = false) (hmark : w.options.mark = false)
    (hlays : w.Lays o w.ahead s t) (hr : w.emits o t = some r) :
    spell t.out ≠ "" ∧ r = spell t.out := by
  unfold emits at hr
  split at hr
  · cases hr
  · rename_i hne
    split at hr
    · cases hr
    · simp only [shown, hreal, habs, Bool.false_and, Bool.false_eq_true, if_false,
        marked_of_lays hmark hlays hne, Option.some.injEq] at hr
      exact ⟨hne, hr.symm⟩

theorem emits_eq (w : Walk) (o : Oracle) (t : Spot) :
    w.emits o t =
      if w.ignored (spell t.out) (t.isDirectory o) then none else w.unfiltered.emits o t := by
  have hshown : w.unfiltered.shown o t.path (spell t.out) (t.isDirectory o) =
      w.shown o t.path (spell t.out) (t.isDirectory o) := rfl
  have hoptions : w.unfiltered.options = w.options := rfl
  have hnever : w.unfiltered.ignored (spell t.out) (t.isDirectory o) = false := rfl
  unfold emits
  rw [hshown, hoptions, hnever, Bool.or_false]
  split_ifs <;> simp_all

/-- A result is spared just if the end of the trail is kept that it comes from. -/
theorem spares_of_emits {h : Host} {r : String} (hsearch : h.files.Searchable)
    (ha : w.alternative.Compiled) (hroot : w.alternative.root = "/" ∨ w.alternative.root = "")
    (hdir : Oracle.isDirectory h.answer w.root = true) (hreal : w.options.realpath = false)
    (habs : w.options.absolute = false) (hmark : w.options.mark = false)
    (hlays : w.unfiltered.Lays h.answer w.ahead w.start t)
    (hr : w.unfiltered.emits h.answer t = some r) :
    w.spares h.answer r = w.keeps h.answer t := by
  obtain ⟨hne, rfl⟩ := eq_spell_of_emits (w := w.unfiltered) hreal habs hmark hlays hr
  have hroute : w.unfiltered.OnRoute h.answer t :=
    onRoute_of_lays_start (w := w.unfiltered) (telling_answer hsearch) ha hroot hdir hlays hne
  have hisDir : Oracle.isDirectory h.answer (Path.join w.cwd (spell t.out)) =
      t.isDirectory h.answer := hroute.isDirectory hroot hne
  rw [spares, keeps, hroute.components_spell hne, hisDir]

/-- Filtering what a walk without a filter finds is walking with the filter. -/
theorem filterMap_ends {h : Host} (hsearch : h.files.Searchable)
    (ha : w.alternative.Compiled) (hroot : w.alternative.root = "/" ∨ w.alternative.root = "")
    (hdir : Oracle.isDirectory h.answer w.root = true) (hreal : w.options.realpath = false)
    (habs : w.options.absolute = false) (hmark : w.options.mark = false)
    (hign : w.IgnoresBy decision) (depth : Nat) :
    (w.ends h.answer w.ahead depth w.start).filterMap (w.emits h.answer) =
      ((w.unfiltered.ends h.answer w.ahead depth w.start).filterMap
        (w.unfiltered.emits h.answer)).filter (w.spares h.answer) := by
  have hkept : ∀ t ∈ w.ends h.answer w.ahead depth w.start, w.emits h.answer t =
      if w.keeps h.answer t then w.unfiltered.emits h.answer t else none := by
    intro t ht
    rw [emits_eq, keeps, clear_of_mem_ends ha hroot hign ht, Bool.true_and]
    cases w.ignored (spell t.out) (t.isDirectory h.answer) <;> rfl
  have hspared : ∀ t ∈ w.unfiltered.ends h.answer w.ahead depth w.start,
      (w.unfiltered.emits h.answer t).filter (w.spares h.answer) =
        if w.keeps h.answer t then w.unfiltered.emits h.answer t else none := by
    intro t ht
    cases hr : w.unfiltered.emits h.answer t with
    | none => simp
    | some r =>
      have hsame := spares_of_emits hsearch ha hroot hdir hreal habs hmark (lays_of_mem_ends ht) hr
      rw [Option.filter, hsame]
  calc (w.ends h.answer w.ahead depth w.start).filterMap (w.emits h.answer)
      = ((w.ends h.answer w.ahead depth w.start).filter (w.keeps h.answer)).filterMap
          (w.unfiltered.emits h.answer) := by
        rw [List.filterMap_filter]
        exact List.filterMap_congr hkept
    _ = ((w.unfiltered.ends h.answer w.ahead depth w.start).filter (w.keeps h.answer)).filterMap
          (w.unfiltered.emits h.answer) := by rw [filter_ends]
    _ = ((w.unfiltered.ends h.answer w.ahead depth w.start).filterMap
          (w.unfiltered.emits h.answer)).filter (w.spares h.answer) := by
        rw [List.filterMap_filter, List.filter_filterMap]
        exact (List.filterMap_congr hspared).symm

/-- Where all directories may be searched, a walk that ignores paths fails if and only if the walk
that ignores nothing does. Else it returns what that one returns, in the same order, without the
results that are ignored themselves or by a leading part that is ignored as a directory. -/
theorem paths_ignoring (w : Walk) (h : Host) (c c' : Cache) (ha : w.alternative.Compiled)
    (hroot : w.alternative.root = "/" ∨ w.alternative.root = "") (hclean : w.alternative.Clean)
    (hsearch : h.files.Searchable) (hc : c.Agrees h.answer) (hc' : c'.Agrees h.answer)
    (hreal : w.options.realpath = false) (habs : w.options.absolute = false)
    (hmark : w.options.mark = false) (decision : String → Bool → Bool)
    (hign : w.IgnoresBy decision) :
    ((w.run h c).result = .ok () ↔ (w.unfiltered.run h c').result = .ok ()) ∧
      ((w.run h c).result = .ok () →
        Event.paths (w.run h c).events =
          (Event.paths (w.unfiltered.run h c').events).filter (w.spares h.answer)) := by
  rw [run_of_agrees w h hc, run_of_agrees w.unfiltered h hc']
  have hempty := Cache.agrees_empty h.answer
  have hnames := names_of_clean ha hclean
  have hcanon : w.Canonizes h.answer := canonizes_of_realpath hreal _
  have hboth : (w.runOn h).result = .ok () ↔ (w.unfiltered.runOn h).result = .ok () :=
    (outcome_script_iff (w := w) hempty hnames hcanon le_rfl).trans
      (outcome_script_iff (w := w.unfiltered) hempty hnames hcanon le_rfl).symm
  refine ⟨hboth, fun hok => ?_⟩
  have hdir : Oracle.isDirectory h.answer w.root = true := isDirectory_root_of_outcome hok
  rw [paths_runOn hok, paths_runOn (hboth.mp hok), ← eraseDups_filter]
  exact congrArg List.eraseDups
    (filterMap_ends hsearch ha hroot hdir hreal habs hmark hign (w.depthOn h .empty))

/-- What is in the directory is left out, but not what is found by way of the link to it. -/
theorem paths_ignoring_directory :
    let f := (Ignore.Filter.ofLines ["d/"]).toOption.getD .none
    let w : Walk :=
      ⟨Pattern.readAlternative {} false 0 0 "**".toList, { follow := true }, f.ignores, "/"⟩
    Event.paths (w.unfiltered.run linkedHost .empty).events = ["d", "d/f", "l", "l/f"] ∧
      (w.run linkedHost .empty).result = .ok () ∧
      Event.paths (w.run linkedHost .empty).events = ["l", "l/f"] := by
  intro f w
  have hempty := Cache.agrees_empty linkedHost.answer
  have hcompiled : w.alternative.Compiled :=
    Alternative.compiled_of_expand (by decide) (by decide +kernel) false 0 0
  obtain ⟨-, hsearch⟩ := FileSystem.open_of_isOpen linkedHost.files (by decide +kernel)
  obtain ⟨hresult, hpaths⟩ := paths_ignoring w linkedHost .empty .empty hcompiled
    (.inr (by decide +kernel)) (by decide +kernel) hsearch hempty hempty rfl rfl rfl _
    (ignoresBy_filter rfl)
  have hok : (w.unfiltered.run linkedHost .empty).result = .ok () := by
    rw [run_of_agrees _ _ hempty]
    decide +kernel
  have hall : Event.paths (w.unfiltered.run linkedHost .empty).events =
      ["d", "d/f", "l", "l/f"] := by
    rw [run_of_agrees _ _ hempty]
    decide +kernel
  refine ⟨hall, hresult.mpr hok, ?_⟩
  rw [hpaths (hresult.mpr hok), hall]
  decide +kernel

end Walk

end PathGlob
