import PathGlob.Proofs.FileSystem.NullFree
import PathGlob.Proofs.Walk.Presence

/-!
# Results without null characters

A walk adds names to what it spells, and names that it looked up; neither has null characters. So
its results have none, unless the alternative begins with one that does.
-/
namespace PathGlob.Walk

variable {w : Walk} {h : Host} {o : Oracle} {rest segs : List Segment} {s t : Spot} {r : String}

theorem nullFree_child {name : String} (hs : ∀ c ∈ s.out, hasNull c = false)
    (hname : hasNull name = false) (known : Option Bool) :
    ∀ c ∈ (s.child name known).out, hasNull c = false :=
  List.forall_mem_append.mpr ⟨hs, by simpa using hname⟩

theorem nullFree_of_sweeps (hsweep : w.Sweeps o rest s t) (hs : ∀ c ∈ s.out, hasNull c = false) :
    ∀ c ∈ t.out, hasNull c = false := by
  induction hsweep with
  | stay placed => exact hs
  | @last s e offered final goes =>
    exact nullFree_child (s := s.enter o) hs (hasNull_name e.name) _
  | @down s t e offered inner kept more ih =>
    exact ih (nullFree_child (s := s.enter o) hs (hasNull_name e.name) _)

theorem nullFree_of_lays (hlays : w.Lays h.answer segs s t)
    (hs : ∀ c ∈ s.out, hasNull c = false) : ∀ c ∈ t.out, hasNull c = false := by
  induction hlays with
  | nil s => exact hs
  | empty dir more ih => exact ih (List.forall_mem_append.mpr ⟨hs, by simp [hasNull]⟩)
  | @literal text name rest s t there goes more ih =>
    have hpath : hasNull (Path.child s.path name) = false := (isThere_answer.mp there).1
    rw [hasNull_child, Bool.or_eq_false_iff] at hpath
    exact ih (nullFree_child hs hpath.2 _)
  | @magic text mode tokens rest s t e listed accepted goes more ih =>
    exact ih (nullFree_child hs (hasNull_name e.name) _)
  | globstar sweep more ih => exact ih (nullFree_of_sweeps sweep hs)

theorem hasNull_marked {p : String} (hp : hasNull p = false) (isDir : Bool) :
    hasNull (w.marked isDir p) = false := by
  unfold marked
  split_ifs
  · rw [hasNull_append, hp, hasNull_slash]
    rfl
  · exact hp

/-- What is reported at a spot is spelled like it, or is the canonical form of a path. -/
theorem hasNull_of_emits (hdir : Oracle.isDirectory h.answer w.root = true)
    (hcwd : hasNull h.cwd = false) (hs : ∀ c ∈ s.out, hasNull c = false)
    (hr : w.emits h.answer s = some r) : hasNull r = false := by
  have hspell : hasNull (spell s.out) = false := Path.hasNull_intercalate hs
  unfold emits shown at hr
  split_ifs at hr with hempty hskip hreal habs
  · cases hq : h.answer (.realpath s.path) with
    | error e => simp [hq] at hr
    | ok found =>
      rw [hq] at hr
      obtain ⟨q, rfl, rfl⟩ := Option.map_eq_some_iff.mp hr
      exact hasNull_marked (Host.hasNull_of_canonical hcwd hq) _
  · cases hr
    have hrelative : w.alternative.isAbsolute = false := by
      simpa using (Bool.and_eq_true_iff.mp habs).2
    have hnull : hasNull w.root = false := (Host.isDirectory_answer.mp hdir).1
    rw [root, hrelative] at hnull
    exact hasNull_marked (Path.hasNull_absolute hnull hspell) _
  · cases hr
    exact hasNull_marked hspell _

theorem hasNull_of_mem_paths (hcwd : hasNull h.cwd = false)
    (hparts : ∀ part ∈ w.alternative.parts, hasNull part = false)
    (hok : (w.runOn h).result = .ok ()) (hr : r ∈ Event.paths (w.runOn h).events) :
    hasNull r = false := by
  obtain ⟨t, hlays, ht⟩ := (finds_script hok).mp (Event.mem_paths.mp hr)
  have hstart : ∀ c ∈ w.start.out, hasNull c = false := by
    unfold start
    dsimp only
    split_ifs
    · exact fun c hc => hparts c (List.mem_of_mem_take hc)
    · exact fun c hc => by cases hc
  exact hasNull_of_emits (isDirectory_root_of_outcome hok) hcwd (nullFree_of_lays hlays hstart) ht

end PathGlob.Walk
