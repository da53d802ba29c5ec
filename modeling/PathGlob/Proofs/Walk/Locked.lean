import PathGlob.Proofs.FileSystem.Lock
import PathGlob.Proofs.Walk.Absolute
import PathGlob.Proofs.Walk.Listings

/-!
# Directories that are passed over

A directory that cannot be listed costs a walk the names in it. What is found elsewhere stays, and
so do names that are looked up without a listing.
-/
namespace PathGlob

/-- Whether a directory may be listed, but not once some directories are locked. -/
def Host.Barred (h : Host) (locked : Location → Bool) (path : String) : Prop :=
  ∃ es f, h.list path = .ok es ∧ (h.lock locked).list path = .error f

namespace Walk

/-- Where the leading components of a result lead to; no components lead to the root. -/
def placeOf (w : Walk) (lead : List String) : String :=
  if spell lead = "" then w.root else Path.join w.cwd (spell lead)

variable {w : Walk} {h : Host} {locked : Location → Bool} {s t : Spot} {out : List String}
  {path r : String}

theorem Route.locate_placeOf (hr : w.Route h.answer out path)
    (hroot : w.alternative.root = "/" ∨ w.alternative.root = "") :
    h.locate true (w.placeOf out) = h.locate true path := by
  unfold placeOf
  by_cases hbegin : out = w.beginning
  · rw [if_pos (by rw [hbegin, spell_beginning]), hr.path_of_beginning hbegin]
  · obtain ⟨hne, halike⟩ := hr.alike hroot hbegin
    rw [if_neg hne, halike.locate]

/-- Names that stand in no barred directory are still listed. -/
theorem listsAlong_lock (hroot : w.alternative.root = "/" ∨ w.alternative.root = "")
    {all : List String} (hfree : ∀ lead name, lead ++ [name] <+: all → name ≠ "" →
      ¬ h.Barred locked (w.placeOf lead)) :
    w.ListsAlong h.answer (h.lock locked).answer all := by
  intro out path e hr he hall
  obtain ⟨hnull, -⟩ := Host.mem_entries_answer.mp he
  rw [Host.entries_answer hnull] at he ⊢
  rcases h.list_lock locked path with hsame | hdenied
  · rwa [hsame]
  · exfalso
    have hloc := hr.locate_placeOf hroot
    have hloc' : (h.lock locked).locate true (w.placeOf out) =
        (h.lock locked).locate true path := by
      rw [Host.locate_lock, Host.locate_lock, hloc]
    refine hfree out e.name.text hall e.name.text_ne_empty ?_
    cases hlist : h.list path with
    | error f => simp [hlist, Except.toOption] at he
    | ok es =>
      obtain ⟨es', hes'⟩ := Host.exists_list_congr hloc ⟨es, hlist⟩
      cases hbarred : (h.lock locked).list (w.placeOf out) with
      | error f => exact ⟨es', f, hes', hbarred⟩
      | ok es'' =>
        obtain ⟨es₀, hes₀⟩ := Host.exists_list_congr hloc'.symm ⟨es'', hbarred⟩
        rw [hdenied] at hes₀
        cases hes₀

/-- The components at the end of a trail are the first of what is reported there. -/
theorem prefix_components_marked {o : Oracle} (ht : w.OnRoute o t)
    (hends : w.ahead.getLast? = some .empty → ∃ xs, t.out = xs ++ [""]) (hne : spell t.out ≠ "")
    (isDir : Bool) : t.out <+: Path.components (w.marked isDir (spell t.out)) := by
  rw [marked_spell hends hne]
  split
  · rw [Path.components_slash, ht.components_spell hne]
    exact List.prefix_append _ _
  · rw [ht.components_spell hne]

/-- Some more directories that may not be listed cost a walk no more than what is in them. It
returns no other paths, and of those that it returned before it returns each one whose names stand
in other directories, provided that its root may still be listed where it has to be. -/
theorem paths_locked (w : Walk) (h : Host) (c c' : Cache) (locked : Location → Bool)
    (ha : w.alternative.Compiled)
    (hroot : w.alternative.root = "/" ∨ w.alternative.root = "") (hsearch : h.files.Searchable)
    (hc : c.Agrees h.answer) (hc' : c'.Agrees (h.lock locked).answer)
    (hreal : w.options.realpath = false) (habs : w.options.absolute = false)
    (hok : (w.run h c).result = .ok ()) (hok' : (w.run (h.lock locked) c').result = .ok ()) :
    (∀ r ∈ Event.paths (w.run (h.lock locked) c').events, r ∈ Event.paths (w.run h c).events) ∧
      ∀ r ∈ Event.paths (w.run h c).events,
        (∀ lead name, lead ++ [name] <+: Path.components r → name ≠ "" →
          ¬ h.Barred locked (w.placeOf lead)) →
        r ∈ Event.paths (w.run (h.lock locked) c').events := by
  rw [run_of_agrees w h hc] at hok ⊢
  rw [run_of_agrees w (h.lock locked) hc'] at hok' ⊢
  have hsame := h.sameStatus_lock locked
  have hdir : Oracle.isDirectory h.answer w.root = true := isDirectory_root_of_outcome hok
  have hemits : ∀ t, w.emits (h.lock locked).answer t = w.emits h.answer t := fun t =>
    emits_of_same hsame (fun hasked => by simp [hreal] at hasked) t
  have hfound : ∀ r, r ∈ Event.paths (w.runOn h).events ↔
      ∃ t, w.Lays h.answer w.ahead w.start t ∧ w.emits h.answer t = some r := fun r =>
    Event.mem_paths.trans (finds_script hok)
  have hfound' : ∀ r, r ∈ Event.paths (w.runOn (h.lock locked)).events ↔
      ∃ t, w.Lays (h.lock locked).answer w.ahead w.start t ∧ w.emits h.answer t = some r := by
    intro r
    simp only [← hemits]
    exact Event.mem_paths.trans (finds_script hok')
  constructor
  · intro r hr
    obtain ⟨t, hlays, ht⟩ := (hfound' r).mp hr
    exact (hfound r).mpr ⟨t, lays_mono hsame.symm (fun _ _ => Host.mem_entries_of_lock) hlays, ht⟩
  · intro r hr hfree
    obtain ⟨t, hlays, ht⟩ := (hfound r).mp hr
    obtain ⟨hne, -, rfl⟩ := marked_of_emits hreal habs ht
    have htell : Telling h.answer := telling_answer hsearch
    have hroute := onRoute_of_lays_start htell ha hroot hdir hlays hne
    have hcomponents := prefix_components_marked hroute (exists_of_lays_empty hlays) hne
      (t.isDirectory h.answer)
    have hlists := listsAlong_lock hroot fun lead name hlead =>
      hfree lead name (hlead.trans hcomponents)
    exact (hfound' _).mpr ⟨t, lays_of_listsAlong hsame htell hlists hlays (names_ahead ha)
      (onRoute_start ha hroot) (ready_start ha hroot hdir hlays hne), ht⟩

/-- What is in the locked directory is lost, and the link into it stays. -/
theorem paths_locked_link :
    let w : Walk := ⟨Pattern.readAlternative {} false 0 0 "**".toList, {}, fun _ _ => false, "/"⟩
    let locked (loc : Location) := decide (loc = .ofText "d")
    Event.paths (w.run strayHost .empty).events = ["d", "d/x", "d/e", "l"] ∧
      (w.run (strayHost.lock locked) .empty).result = .ok () ∧
      "d/x" ∉ Event.paths (w.run (strayHost.lock locked) .empty).events ∧
      "l" ∈ Event.paths (w.run (strayHost.lock locked) .empty).events := by
  intro w locked
  have hempty := Cache.agrees_empty strayHost.answer
  have hempty' := Cache.agrees_empty (strayHost.lock locked).answer
  have hcompiled : w.alternative.Compiled :=
    Alternative.compiled_of_expand (by decide) (by decide +kernel) false 0 0
  obtain ⟨-, hsearch⟩ := FileSystem.open_of_isOpen strayHost.files (by decide +kernel)
  have hok : (w.run strayHost .empty).result = .ok () := by
    rw [run_of_agrees _ _ hempty]
    decide +kernel
  have hok' : (w.run (strayHost.lock locked) .empty).result = .ok () := by
    rw [run_of_agrees _ _ hempty']
    decide +kernel
  have hall : Event.paths (w.run strayHost .empty).events = ["d", "d/x", "d/e", "l"] := by
    rw [run_of_agrees _ _ hempty]
    decide +kernel
  have hlost : "d/x" ∉ Event.paths (w.run (strayHost.lock locked) .empty).events := by
    rw [run_of_agrees _ _ hempty']
    decide +kernel
  obtain ⟨-, hkept⟩ := paths_locked w strayHost .empty .empty locked hcompiled
    (.inr (by decide +kernel)) hsearch hempty hempty' rfl rfl hok hok'
  refine ⟨hall, hok', hlost, hkept "l" (by simp [hall]) fun lead name hlead _ => ?_⟩
  have hnil : lead = [] := by
    have hlength := hlead.length_le
    have hone : (Path.components "l").length = 1 := by decide
    rw [List.length_append, List.length_singleton, hone] at hlength
    exact List.length_eq_zero_iff.mp (by omega)
  subst hnil
  rintro ⟨es, f, -, hbarred⟩
  have hlist : ((strayHost.lock locked).list (w.placeOf [])).isOk = true := by decide +kernel
  rw [hbarred] at hlist
  cases hlist

end Walk

end PathGlob
