import PathGlob.Proofs.FileSystem.Answers
import PathGlob.Proofs.FileSystem.Canonical

/-!
# Paths without null characters

Joining paths without null characters, and bringing them into a normal form, puts none in. A strict
canonical form has none either, whatever it was made from: it is spelled with what was looked up.
-/
namespace PathGlob

namespace Path

variable {p dir : String} {cs : List String}

theorem hasNull_intercalate (h : ∀ c ∈ cs, hasNull c = false) :
    hasNull ("/".intercalate cs) = false := by
  induction cs with
  | nil => decide
  | cons c rest ih =>
    obtain ⟨hc, hrest⟩ := List.forall_mem_cons.mp h
    cases rest with
    | nil => simpa using hc
    | cons d rest =>
      rw [String.intercalate_cons_of_ne_nil (by simp), hasNull_append, hasNull_append, hc,
        ih hrest]
      decide

theorem hasNull_slashes (n : Nat) : hasNull (String.ofList (List.replicate n '/')) = false := by
  simp [hasNull]

theorem mem_climb {rooted : Bool} {done : List String} {c d : String}
    (h : c ∈ climb rooted done d) : c ∈ done ∨ c = d := by
  unfold climb at h
  split_ifs at h
  · exact .inl h
  · simpa using h
  · simpa using h
  · cases h
  · exact .inr (List.mem_singleton.mp h)
  · exact .inl (List.mem_of_mem_dropLast h)

theorem mem_foldl_climb {rooted : Bool} {done : List String} {c : String}
    (h : c ∈ cs.foldl (climb rooted) done) : c ∈ done ∨ c ∈ cs := by
  induction cs generalizing done with
  | nil => exact .inl h
  | cons d rest ih =>
    rcases ih h with hdone | hrest
    · rcases mem_climb hdone with hdone | rfl
      · exact .inl hdone
      · exact .inr List.mem_cons_self
    · exact .inr (List.mem_cons_of_mem _ hrest)

theorem hasNull_normalize (hp : hasNull p = false) : hasNull (normalize p) = false := by
  have hparts : ∀ c ∈ (components p).foldl (climb (leadingSlashes p.toList != 0)) [],
      hasNull c = false := by
    intro c hc
    rcases mem_foldl_climb hc with hc | hc
    · cases hc
    · exact Host.hasNull_of_mem_components hp hc
  unfold normalize
  dsimp only
  split_ifs
  · decide
  · rw [hasNull_append, hasNull_slashes, hasNull_intercalate hparts]
    rfl

theorem hasNull_tidy (hp : hasNull p = false) : hasNull (tidy p) = false := by
  unfold tidy
  dsimp only
  split_ifs
  · decide
  · rw [hasNull_append, hasNull_slashes, hasNull_intercalate fun c hc =>
      Host.hasNull_of_mem_components hp (List.mem_filter.mp hc).1]
    rfl

theorem hasNull_absolute (hdir : hasNull dir = false) (hp : hasNull p = false) :
    hasNull (absolute dir p) = false := by
  refine hasNull_normalize ?_
  unfold join
  split_ifs
  · exact hp
  · rw [hasNull_append, hdir, hp]
    rfl
  · rw [hasNull_append, hasNull_append, hdir, hp]
    rfl

end Path

/-! ## Canonical forms -/

namespace Spelling

variable {s : Spelling}

def NullFree (s : Spelling) : Prop := ∀ c ∈ s.parts, hasNull c = false

theorem NullFree.push (hs : s.NullFree) {c : String} (hc : hasNull c = false) :
    (s.push c).NullFree :=
  List.forall_mem_append.mpr ⟨hs, by simpa using hc⟩

theorem NullFree.up (hs : s.NullFree) : s.up.NullFree := by
  have hshorter : ∀ c ∈ s.parts.dropLast, hasNull c = false := fun c hc =>
    hs c (List.mem_of_mem_dropLast hc)
  unfold Spelling.up
  split_ifs
  · exact hshorter
  · exact hs.push (by decide)
  · exact hshorter

theorem NullFree.base (hs : s.NullFree) (target : String) : (s.base target).NullFree := by
  unfold Spelling.base
  split_ifs
  · exact fun c hc => by cases hc
  · exact hs

theorem NullFree.hasNull_toPath (hs : s.NullFree) {cwd : String} (hcwd : hasNull cwd = false) :
    hasNull (s.toPath cwd) = false := by
  have hparts := Path.hasNull_intercalate hs
  unfold toPath
  split_ifs
  · refine Path.hasNull_normalize ?_
    rw [hasNull_append, hparts]
    rfl
  · exact Path.hasNull_absolute hcwd hparts

end Spelling

namespace Host

variable {h : Host} {active : List Spelling} {here there : Spelling} {c : String}
  {cs : List String} {depth : Nat}
  {onLink : Spelling → Spelling → List String → Except CanonicalError Journey}

theorem nullFree_alight
    (honward : ∀ link start target there, start.NullFree →
      onLink link start target = .ok (.arrived there) → there.NullFree)
    (hhere : here.NullFree) (hgo : h.alight active onLink here c = .ok there) :
    there.NullFree := by
  unfold alight at hgo
  by_cases hstay : c = "" ∨ c = "."
  · rw [if_pos hstay] at hgo
    cases hgo
    exact hhere
  rw [if_neg hstay] at hgo
  by_cases hup : c = ".."
  · rw [if_pos hup] at hgo
    cases hgo
    exact hhere.up
  rw [if_neg hup] at hgo
  by_cases hnull : hasNull c = true
  · rw [if_pos hnull] at hgo
    cases hgo
  rw [if_neg hnull] at hgo
  have hpush : (here.push c).NullFree := hhere.push (by simpa using hnull)
  cases hpeek : h.peek (here.push c) with
  | error f => simp [hpeek] at hgo
  | ok node =>
    cases node with
    | directory access =>
      obtain rfl : here.push c = there := by simpa [hpeek] using hgo
      exact hpush
    | file readable content =>
      obtain rfl : here.push c = there := by simpa [hpeek] using hgo
      exact hpush
    | link target =>
      simp only [hpeek] at hgo
      split_ifs at hgo
      cases hlands : onLink (here.push c) (here.base target) (Path.components target) with
      | error e => simp [hlands] at hgo
      | ok j =>
        cases j with
        | looped link => simp [hlands] at hgo
        | arrived place =>
          obtain rfl : place = there := by simpa [hlands] using hgo
          exact honward _ _ _ _ (hhere.base target) hlands

theorem nullFree_travel_of_beyond
    (honward : ∀ link start target there, start.NullFree →
      h.beyond active depth link start target = .ok (.arrived there) → there.NullFree)
    (hhere : here.NullFree) (hgo : h.travel true depth active here cs = .ok (.arrived there)) :
    there.NullFree := by
  rw [travel_eq_foldlM] at hgo
  induction cs generalizing here with
  | nil =>
    obtain rfl : here = there := by simpa [pure, Except.pure, Except.map] using hgo
    exact hhere
  | cons c rest ih =>
    rw [List.foldlM_cons] at hgo
    cases hstep : h.alight active (h.beyond active depth) here c with
    | error e => simp [hstep, bind, Except.bind, Except.map] at hgo
    | ok next =>
      rw [hstep] at hgo
      exact ih (nullFree_alight honward hhere hstep) hgo

theorem nullFree_travel (depth : Nat) (active : List Spelling) (hhere : here.NullFree)
    (hgo : h.travel true depth active here cs = .ok (.arrived there)) : there.NullFree := by
  induction depth generalizing active here there cs with
  | zero => exact nullFree_travel_of_beyond (by simp [beyond, endInLoop]) hhere hgo
  | succ depth ih =>
    have honward : ∀ link start target there, start.NullFree →
        h.beyond active (depth + 1) link start target = .ok (.arrived there) → there.NullFree :=
      fun link _ _ _ hstart hlands => ih (link :: active) hstart hlands
    exact nullFree_travel_of_beyond honward hhere hgo

theorem hasNull_of_canonical {p q : String} (hcwd : hasNull h.cwd = false)
    (hq : h.canonical p = .ok (some q)) : hasNull q = false := by
  unfold canonical at hq
  rcases hgo : h.journey true p with (_ | f) | (there | link) <;> simp only [hgo] at hq <;> cases hq
  exact (nullFree_travel h.linkDepth [] (fun c hc => by cases hc) hgo).hasNull_toPath hcwd

end Host

end PathGlob
