import PathGlob.Proofs.FileSystem.Spelling

/-!
# Canonical forms

Strict canonical forms do not depend on how a path is spelled: empty components are passed over, and
a link that leads back to itself is an error wherever it stands. They are refused for null
characters only, in the path or in the target of a link.
-/
namespace PathGlob

namespace FileSystem

def NullFree (fs : FileSystem) : Prop :=
  ∀ loc target, fs.node? loc = some (.link target) → hasNull target = false

def isNullFree (fs : FileSystem) : Bool :=
  fs.items.all fun i => match i.node with
    | .link target => !hasNull target
    | _ => true

theorem nullFree_of_isNullFree (fs : FileSystem) (h : fs.isNullFree = true) : fs.NullFree := by
  intro loc target hnode
  rcases node?_cases hnode with ⟨-, hroot⟩ | ⟨i, hi, -, hlink⟩
  · cases hroot
  · simpa [hlink] using List.all_eq_true.mp h i hi

end FileSystem

namespace Host

variable {h : Host} {active : List Spelling} {here : Spelling} {c : String} {cs : List String}
  {p q : String} {depth : Nat}
  {onLink : Spelling → Spelling → List String → Except CanonicalError Journey}

/-! ## One component -/

/-- Where a component leads, strictly. -/
def alight (h : Host) (active : List Spelling)
    (onLink : Spelling → Spelling → List String → Except CanonicalError Journey)
    (here : Spelling) (c : String) : Except CanonicalError Spelling :=
  if c = "" ∨ c = "." then .ok here
  else if c = ".." then .ok here.up
  else if hasNull c then .error .null
  else
    match h.peek (here.push c) with
    | .ok (.link target) =>
      if here.push c ∈ active then .error (.fault .linkLoop)
      else
        match onLink (here.push c) (here.base target) (Path.components target) with
        | .ok (.arrived there) => .ok there
        | .ok (.looped _) => .error (.fault .linkLoop)
        | .error e => .error e
    | .ok _ => .ok (here.push c)
    | .error f => .error (.fault f)

/-- Journeys to the targets of links do not end in loops. -/
def Straight (onLink : Spelling → Spelling → List String → Except CanonicalError Journey) : Prop :=
  ∀ link start target there, onLink link start target ≠ .ok (.looped there)

/-- A strict journey takes one component after the other. -/
theorem travelWith_eq_foldlM (hlink : Straight onLink) :
    h.travelWith true active onLink here cs =
      (cs.foldlM (h.alight active onLink) here).map .arrived := by
  induction cs generalizing here with
  | nil => rfl
  | cons c rest ih =>
    rw [travelWith, List.foldlM_cons, alight]
    by_cases hstay : c = "" ∨ c = "."
    · rw [if_pos hstay, if_pos hstay]
      exact ih
    rw [if_neg hstay, if_neg hstay]
    by_cases hup : c = ".."
    · rw [if_pos hup, if_pos hup]
      exact ih
    rw [if_neg hup, if_neg hup]
    by_cases hnull : hasNull c = true
    · rw [if_pos hnull, if_pos hnull]
      rfl
    rw [if_neg hnull, if_neg hnull]
    dsimp only
    cases hpeek : h.peek (here.push c) with
    | error f => rfl
    | ok node =>
      cases node with
      | directory access => exact ih
      | file readable content => exact ih
      | link target =>
        by_cases hloop : here.push c ∈ active
        · simp only [if_pos hloop, endInLoop, if_true]
          rfl
        simp only [if_neg hloop]
        cases hgo : onLink (here.push c) (here.base target) (Path.components target) with
        | error e => rfl
        | ok j =>
          cases j with
          | arrived there => exact ih
          | looped there => exact absurd hgo (hlink _ _ _ _)

def beyond (h : Host) (active : List Spelling) :
    (depth : Nat) → Spelling → Spelling → List String → Except CanonicalError Journey
  | 0 => fun link _ _ => endInLoop true link
  | depth + 1 => fun link start target => h.travel true depth (link :: active) start target

theorem travel_eq (h : Host) (active : List Spelling) (depth : Nat) :
    h.travel true depth active = h.travelWith true active (h.beyond active depth) := by
  cases depth <;> rfl

theorem straight_beyond (h : Host) (active : List Spelling) (depth : Nat) :
    Straight (h.beyond active depth) := by
  induction depth generalizing active with
  | zero =>
    intro link start target there
    simp [beyond, endInLoop]
  | succ depth ih =>
    intro link start target there
    change h.travel true depth (link :: active) start target ≠ _
    rw [travel_eq, travelWith_eq_foldlM (ih _)]
    cases target.foldlM (h.alight (link :: active) (h.beyond (link :: active) depth)) start <;>
      simp [Except.map]

theorem travel_eq_foldlM : h.travel true depth active here cs =
    (cs.foldlM (h.alight active (h.beyond active depth)) here).map .arrived := by
  rw [travel_eq, travelWith_eq_foldlM (h.straight_beyond active depth)]

/-! ## Empty components -/

theorem foldlM_alight_filter (here : Spelling) (cs : List String) :
    (cs.filter (· ≠ "")).foldlM (h.alight active onLink) here =
      cs.foldlM (h.alight active onLink) here := by
  induction cs generalizing here with
  | nil => rfl
  | cons c rest ih =>
    by_cases hc : c = ""
    · subst hc
      rw [List.filter_cons_of_neg (by simp), ih, List.foldlM_cons, alight, if_pos (.inl rfl)]
      rfl
    · rw [List.filter_cons_of_pos (by simpa using hc), List.foldlM_cons, List.foldlM_cons]
      exact congrArg _ (funext ih)

theorem Alike.canonical (ha : h.Alike p q) : h.canonical p = h.canonical q := by
  have hsame : h.journey true p = h.journey true q := by
    rw [journey, journey, travel_eq_foldlM, travel_eq_foldlM,
      ← foldlM_alight_filter _ (Path.components p), ← foldlM_alight_filter _ (Path.components q),
      ha.absolute]
    exact congrArg _ (congrArg _ ha.names)
  rw [Host.canonical, Host.canonical, hsame]

/-! ## Null characters -/

theorem hasNull_of_mem_components (hp : hasNull p = false) (hc : c ∈ Path.components p) :
    hasNull c = false := by
  obtain ⟨part, hpart, rfl⟩ := List.mem_map.mp hc
  rw [← Bool.not_eq_true]
  intro hnull
  have hmem : '\x00' ∈ part := by simpa [hasNull] using hnull
  simp [hasNull, Path.mem_of_mem_splitOn hpart hmem] at hp

theorem node?_of_peek {s : Spelling} {node : Node} (hnode : h.peek s = .ok node) :
    ∃ loc, h.files.node? loc = some node := by
  unfold peek at hnode
  cases hloc : h.files.resolve false maxLinks
      (if s.rooted then [] else Location.ofText h.cwd) s.parts with
  | error f => simp [hloc, bind, Except.bind] at hnode
  | ok loc =>
    refine ⟨loc, ?_⟩
    cases hn : h.files.node? loc <;> simp_all [bind, Except.bind, pure, Except.pure]

theorem alight_ne_null (hfree : h.files.NullFree)
    (hlink : ∀ link start target, (∀ c ∈ target, hasNull c = false) →
      onLink link start target ≠ .error .null) (hc : hasNull c = false) :
    h.alight active onLink here c ≠ .error .null := by
  unfold alight
  simp only [hc, Bool.false_eq_true, if_false]
  cases hpeek : h.peek (here.push c) with
  | error f => split_ifs <;> simp
  | ok node =>
    cases node with
    | directory access => split_ifs <;> simp
    | file readable content => split_ifs <;> simp
    | link target =>
      obtain ⟨loc, hloc⟩ := node?_of_peek hpeek
      have htarget : ∀ c ∈ Path.components target, hasNull c = false := fun c hc =>
        hasNull_of_mem_components (hfree loc target hloc) hc
      have hgo := hlink (here.push c) (here.base target) _ htarget
      cases hlands : onLink (here.push c) (here.base target) (Path.components target) with
      | error e =>
        have hne : e ≠ .null := fun he => hgo (he ▸ hlands)
        split_ifs <;> simp [hlands, hne]
      | ok j => cases j <;> split_ifs <;> simp [hlands]

theorem foldlM_alight_ne_null
    (hstep : ∀ here c, hasNull c = false → h.alight active onLink here c ≠ .error .null)
    (hcs : ∀ c ∈ cs, hasNull c = false) :
    cs.foldlM (h.alight active onLink) here ≠ .error .null := by
  induction cs generalizing here with
  | nil => simp [pure, Except.pure]
  | cons c rest ih =>
    rw [List.foldlM_cons]
    cases hgo : h.alight active onLink here c with
    | error e =>
      rintro ⟨⟩
      exact hstep here c (hcs c List.mem_cons_self) hgo
    | ok there => exact ih fun c hc => hcs c (List.mem_cons_of_mem _ hc)

theorem travel_ne_null_of_beyond (hfree : h.files.NullFree)
    (hlink : ∀ link start target, (∀ c ∈ target, hasNull c = false) →
      h.beyond active depth link start target ≠ .error .null)
    (hcs : ∀ c ∈ cs, hasNull c = false) : h.travel true depth active here cs ≠ .error .null := by
  have hne : cs.foldlM (h.alight active (h.beyond active depth)) here ≠ .error .null :=
    foldlM_alight_ne_null (fun here c hc => alight_ne_null hfree hlink hc) hcs
  rw [travel_eq_foldlM]
  cases hgo : cs.foldlM (h.alight active (h.beyond active depth)) here with
  | error e =>
    have he : e ≠ .null := fun he => hne (he ▸ hgo)
    simpa [Except.map] using he
  | ok there => simp [Except.map]

theorem travel_ne_null (hfree : h.files.NullFree) (depth : Nat) (active : List Spelling)
    (here : Spelling) (hcs : ∀ c ∈ cs, hasNull c = false) :
    h.travel true depth active here cs ≠ .error .null := by
  induction depth generalizing active here cs with
  | zero => exact travel_ne_null_of_beyond hfree (by simp [beyond, endInLoop]) hcs
  | succ depth ih =>
    exact travel_ne_null_of_beyond hfree
      (fun link start target htarget => ih (link :: active) start htarget) hcs

/-- Where no link has a null character in its target, a path without null characters has a strict
canonical form or leads nowhere. -/
theorem exists_canonical (hfree : h.files.NullFree) (hp : hasNull p = false) :
    ∃ r, h.canonical p = .ok r := by
  have hne := travel_ne_null hfree h.linkDepth [] ⟨Path.isAbsolute p, []⟩
    fun c hc => hasNull_of_mem_components hp hc
  unfold canonical
  rcases hgo : h.journey true p with (_ | f) | (t | t)
  · exact absurd hgo hne
  · exact ⟨_, rfl⟩
  · exact ⟨_, rfl⟩
  · exact ⟨_, rfl⟩

end Host

end PathGlob
