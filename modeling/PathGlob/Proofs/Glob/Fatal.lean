import PathGlob.Proofs.FileSystem.Canonical
import PathGlob.Proofs.Glob.Reading
import PathGlob.Proofs.Glob.Transparency
import PathGlob.Proofs.Walk.Failure

/-!
# When searches fail

Without null characters there are two reasons for a walk to fail, and both are about its root: it is
no directory, or the walk begins with listing it and that fails. A search of several alternatives
fails with the first walk that does. Whatever else cannot be listed, looked up or made canonical is
passed over.
-/
namespace PathGlob

/-! ## Roots -/

namespace Pattern

theorem isAlpha_of_isDrive {cs : List Char} (h : isDrive cs = true) :
    ∃ c, cs = [c, ':'] ∧ c.isAlpha = true := by
  unfold isDrive at h
  split at h
  · exact ⟨_, rfl, h⟩
  · cases h

theorem hasNull_rootOf (drives : Bool) (parts : List (List Char)) :
    hasNull (rootOf drives parts) = false := by
  unfold rootOf
  split
  · split_ifs with hempty hdrive
    · decide
    · obtain ⟨c, rfl, hc⟩ := isAlpha_of_isDrive (Bool.and_eq_true_iff.mp hdrive).2
      have hne : c ≠ '\x00' := by
        rintro rfl
        cases hc
      simpa [hasNull] using hne.symm
    · decide
  · decide

end Pattern

theorem Alternative.Compiled.hasNull_root {a : Alternative} (ha : a.Compiled) :
    hasNull a.root = false := by
  obtain ⟨o, drives, i, n, cs, rfl⟩ := ha.exists_read
  exact Pattern.hasNull_rootOf drives _

/-! ## Walks -/

namespace Walk

def fatal? (w : Walk) (h : Host) : Option WalkError :=
  if !Oracle.isDirectory h.answer w.root then some (.notDirectory w.root)
  else if listsFirst w.ahead then
    match h.list w.root with
    | .error f => some (.unreadable w.root ⟨f, w.root⟩)
    | .ok _ => none
  else none

variable {w : Walk} {h : Host} {c : Cache} {e : RunError}

theorem canonizes_answer (hfree : w.options.realpath = true → h.files.NullFree) :
    w.Canonizes h.answer :=
  fun hasked _ hp => Host.exists_canonical (hfree hasked) hp

/-- A walk from what is no directory fails for that. -/
theorem outcome_script_of_not_directory {depth : Nat} (hnull : hasNull w.root = false)
    (noDir : Oracle.isDirectory h.answer w.root = false) :
    (w.script depth).outcome h.answer = .error (.walk (.notDirectory w.root)) := by
  obtain ⟨d, hd⟩ := outcome_whetherDirectory_of_nullFree (h := h) hnull none
  change (isDirectory w.root).outcome h.answer = .ok d at hd
  obtain rfl : d = false := (outcome_isDirectory hd).symm.trans noDir
  rw [script_eq, Script.outcome_bind, hd]
  rfl

/-- A walk that begins with listing a directory that cannot be listed fails for that. -/
theorem outcome_script_of_unlisted {f : Fault} {depth : Nat}
    (hc : c.Agrees h.answer)
    (hnames : ∀ text name, .literal text name ∈ w.ahead → name ≠ "" ∧ hasNull name = false)
    (hcanon : w.Canonizes h.answer) (hdepth : w.depthOn h c ≤ depth)
    (hdir : Oracle.isDirectory h.answer w.root = true) (hlists : listsFirst w.ahead = true)
    (hfails : h.answer (.list w.root) = .ok (.error ⟨f, w.root⟩)) :
    (w.script depth).outcome h.answer = .error (.walk (.unreadable w.root ⟨f, w.root⟩)) := by
  cases hresult : (w.script depth).outcome h.answer with
  | ok u =>
    obtain ⟨es, hes⟩ := ((outcome_script_iff hc hnames hcanon hdepth).mp hresult).2 hlists
    rw [hfails] at hes
    cases hes
  | error e =>
    obtain ⟨cause, rfl, hcause⟩ := failsOnly_script_of_directory hc
      (fun text name hmem => (hnames text name hmem).2) hcanon hdir hdepth e hresult
    rw [hfails] at hcause
    cases hcause
    rfl

/-- A walk that has a reason to fail does, and one that has none ends well. -/
theorem result_runOn (ha : w.alternative.Compiled) (hclean : w.alternative.Clean)
    (hcwd : hasNull w.cwd = false) (hfree : w.options.realpath = true → h.files.NullFree) :
    (w.runOn h).result = match w.fatal? h with
      | some f => .error (.walk f)
      | none => .ok () := by
  have hempty := Cache.agrees_empty h.answer
  have hnames := names_of_clean ha hclean
  have hcanon := canonizes_answer hfree
  have hnull : hasNull w.root = false := by
    unfold root
    split
    · exact ha.hasNull_root
    · exact hcwd
  have hok : (w.runOn h).result = .ok () ↔ Oracle.isDirectory h.answer w.root = true ∧
      (listsFirst w.ahead = true → ∃ es, h.answer (.list w.root) = .ok (.ok es)) :=
    outcome_script_iff hempty hnames hcanon le_rfl
  unfold fatal?
  cases hdir : Oracle.isDirectory h.answer w.root with
  | false => exact outcome_script_of_not_directory hnull hdir
  | true =>
    cases hlists : listsFirst w.ahead with
    | false => exact hok.mpr ⟨hdir, fun hfirst => absurd (hlists.symm.trans hfirst) (by simp)⟩
    | true =>
      have hanswer := Host.answer_list (h := h) hnull
      cases hlist : h.list w.root with
      | ok es => exact hok.mpr ⟨hdir, fun _ => ⟨es, by rw [hanswer, hlist]; rfl⟩⟩
      | error f =>
        rw [hlist] at hanswer
        exact outcome_script_of_unlisted hempty hnames hcanon le_rfl hdir hlists hanswer

theorem runOn_eq_error_iff (ha : w.alternative.Compiled) (hclean : w.alternative.Clean)
    (hcwd : hasNull w.cwd = false) (hfree : w.options.realpath = true → h.files.NullFree) :
    (w.runOn h).result = .error e ↔ ∃ f, w.fatal? h = some f ∧ e = .walk f := by
  rw [result_runOn ha hclean hcwd hfree]
  cases w.fatal? h <;> simp [eq_comm]

end Walk

/-! ## Searches -/

namespace Glob

variable {g : Glob} {h : Host} {o : Options} {drives backslashes : Bool} {given : List Given}

theorem compiled_of_compileAll {i n : Nat} {texts : List String} {as : List Alternative}
    (hread : compileAll o drives i n given = .ok (texts, as)) : ∀ a ∈ as, a.Compiled := by
  induction given generalizing i n texts as with
  | nil =>
    cases hread
    simp
  | cons first given ih =>
    cases first with
    | other kind => cases hread
    | text pattern =>
      rw [compileAll] at hread
      cases hown : Pattern.compile o drives i n pattern with
      | error e => simp [hown, bind, Except.bind] at hread
      | ok own =>
        cases hmore : compileAll o drives (i + 1) (n + own.length) given with
        | error e => simp [hown, hmore, bind, Except.bind] at hread
        | ok more =>
          simp only [hown, hmore, bind, Except.bind, pure, Except.pure, Except.ok.injEq,
            Prod.mk.injEq] at hread
          obtain ⟨-, rfl⟩ := hread
          intro a ha
          rcases List.mem_append.mp ha with ha | ha
          · exact ⟨o, drives, i, n, pattern, own, hown, ha⟩
          · exact ih hmore a ha

theorem compiled_of_make (hmake : make o backslashes given = .ok g) :
    ∀ a ∈ g.alternatives, a.Compiled :=
  compiled_of_compileAll (make_eq_ok.mp hmake).2.2

/-- Alternatives fail with the first walk that has a reason to. -/
theorem walkAllOn_eq_error {as : List Alternative} {e : RunError}
    (hwalks : ∀ a ∈ as, ∀ e, ((g.walk h a).runOn h).result = .error e ↔
      ∃ f, (g.walk h a).fatal? h = some f ∧ e = .walk f) :
    (g.walkAllOn h as).result = .error e ↔
      ∃ f, (as.findSome? fun a => (g.walk h a).fatal? h) = some f ∧ e = .walk f := by
  induction as with
  | nil => simp [walkAllOn]
  | cons a as ih =>
    obtain ⟨hfirst, hrest⟩ := List.forall_mem_cons.mp hwalks
    rw [walkAllOn, List.findSome?_cons]
    cases hfatal : (g.walk h a).fatal? h with
    | some f =>
      rw [(hfirst (.walk f)).mpr ⟨f, hfatal, rfl⟩]
      simp [eq_comm]
    | none =>
      cases hresult : ((g.walk h a).runOn h).result with
      | error e' =>
        obtain ⟨f, hf, -⟩ := (hfirst e').mp hresult
        rw [hfatal] at hf
        cases hf
      | ok u =>
        rw [← ih hrest]
        exact Except.map_eq_error

/-- Without null characters in names and the working directory, a walk fails just if its root is no
directory, or if it begins with listing its root and that fails: no other listing and no other
lookup fails it. A search fails just if one of its walks has such a reason, with that of the first
one. Where canonical forms are asked for, no link may have a null character in its target. -/
theorem fails_iff_fatal (h : Host) (c : Cache) (hc : c.Agrees h.answer) :
    (∀ w : Walk, w.alternative.Compiled → w.alternative.Clean → hasNull w.cwd = false →
      (w.options.realpath = true → h.files.NullFree) → ∀ e,
        ((w.run h c).result = .error e ↔ ∃ f, w.fatal? h = some f ∧ e = .walk f)) ∧
    ∀ (o : Options) (backslashes : Bool) (given : List Given) (g : Glob),
      make o backslashes given = .ok g → (∀ a ∈ g.alternatives, a.Clean) →
      hasNull (directory g.options h) = false →
      (g.options.realpath = true → h.files.NullFree) → ∀ e,
        ((g.search h c).result = .error e ↔ ∃ f,
          (g.alternatives.findSome? fun a => (g.walk h a).fatal? h) = some f ∧ e = .walk f) := by
  constructor
  · intro w ha hclean hcwd hfree e
    rw [w.run_of_agrees h hc]
    exact Walk.runOn_eq_error_iff ha hclean hcwd hfree
  · intro o backslashes given g hmake hclean hcwd hfree e
    have hcwd : ∀ a, hasNull (g.walk h a).cwd = false := fun a => by
      simpa only [walk] using hcwd
    have hsearch : (g.search h c).result = .error e ↔
        (g.walkAllOn h g.alternatives).result = .error e := by
      rw [search_of_agrees hc, searchOn, Except.map_eq_error]
    rw [hsearch]
    exact walkAllOn_eq_error fun a ha e =>
      Walk.runOn_eq_error_iff (compiled_of_make hmake a ha) (hclean a ha) (hcwd a) hfree

/-- The first two walks end well: a name is looked up in the directory that may not be listed, and
the root may be. The third begins with listing the directory, and the last is not begun. -/
theorem fails_iff_fatal_sealed :
    let h := { sealedHost with cwd := "/d" }
    ∃ g, make {} false (["x", "/*", "**/x", "*"].map .text) = .ok g ∧
      (g.search h .empty).result = .error (.walk (.unreadable "/d" ⟨.denied, "/d"⟩)) := by
  intro h
  let read (i : Nat) (cs : List Char) : Alternative := Pattern.readAlternative {} false i i cs
  let g : Glob := ⟨["x", "/*", "**/x", "*"], settle {} false,
    [read 0 "x".toList, read 1 "/*".toList, read 2 "**/x".toList, read 3 "*".toList], .none⟩
  have hmake : make {} false (["x", "/*", "**/x", "*"].map .text) = .ok g :=
    make_eq_ok.mpr ⟨⟨rfl, rfl⟩, rfl, by rfl⟩
  obtain ⟨-, hsearch⟩ := fails_iff_fatal h .empty (Cache.agrees_empty _)
  refine ⟨g, hmake, (hsearch {} false _ g hmake (by decide +kernel) (by decide +kernel)
    (fun hreal => by cases hreal) _).mpr ⟨_, ?_, rfl⟩⟩
  decide +kernel

end Glob

end PathGlob
