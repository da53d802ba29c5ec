import PathGlob.Proofs.Lookup.Agreement

/-!
# Lookups after a clear

What is stored when the cache is cleared is forgotten. What a task has computed and not stored yet
is not: it is stored later, and then lookups that begin after the clear are given an answer from
before it.
-/
namespace PathGlob

namespace Pool

variable {α : Type} {p p' p'' : Pool α} {i : Nat} {t t' : Task α} {act : Act} {q : Query}
  {a : q.Answer} {recent later : List (Nat × Act)}

def Holds (p : Pool α) (q : Query) (a : q.Answer) : Prop :=
  ∃ t ∈ p.tasks, ∃ next, t.phase = .computed q a next

/-- An answer can still reach a lookup: it is stored or will be. -/
def Has (p : Pool α) (q : Query) (a : q.Answer) : Prop := p.cache.get? q = some a ∨ p.Holds q a

def ComputedIn (recent : List (Nat × Act)) (q : Query) (a : q.Answer) : Prop :=
  ∃ j, (j, Act.compute q a) ∈ recent

/-- The second pool has come out of the first by some acts, and what it has, and what it has
answered, the first had or has been computed since. -/
structure Since (p : Pool α) (recent : List (Nat × Act)) (p' : Pool α) : Prop where
  history : p'.history = p.history ++ recent
  has : ∀ q a, p'.Has q a → p.Has q a ∨ ComputedIn recent q a
  answered : ∀ mid i act later q a, recent = mid ++ (i, act) :: later → act.Answers q a →
    p.Has q a ∨ ComputedIn mid q a

theorem ComputedIn.append_left (h : ComputedIn recent q a) : ComputedIn (recent ++ later) q a := by
  obtain ⟨j, hj⟩ := h
  exact ⟨j, List.mem_append_left _ hj⟩

theorem ComputedIn.append_right (h : ComputedIn later q a) : ComputedIn (recent ++ later) q a := by
  obtain ⟨j, hj⟩ := h
  exact ⟨j, List.mem_append_right _ hj⟩

theorem Since.of_shrinks (hhistory : p'.history = p.history) (hhas : ∀ q a, p'.Has q a → p.Has q a) :
    p.Since [] p' where
  history := by rw [hhistory, List.append_nil]
  has q a ha := .inl (hhas q a ha)
  answered mid i act later q a hnil _ := by simp at hnil

theorem Since.refl (p : Pool α) : p.Since [] p := .of_shrinks rfl fun _ _ ha => ha

theorem Since.trans (hp : p.Since recent p') (hp' : p'.Since later p'') :
    p.Since (recent ++ later) p'' where
  history := by rw [hp'.history, hp.history, List.append_assoc]
  has q a ha := by
    rcases hp'.has q a ha with ha | ha
    · exact (hp.has q a ha).imp_right ComputedIn.append_left
    · exact .inr ha.append_right
  answered mid i act rest q a hsplit ha := by
    rcases List.append_eq_append_iff.mp hsplit with ⟨extra, rfl, hlater⟩ | ⟨extra, hrecent, hrest⟩
    · rcases hp'.answered extra i act rest q a hlater ha with hhas | hcomputed
      · exact (hp.has q a hhas).imp_right ComputedIn.append_left
      · exact .inr hcomputed.append_right
    · cases extra with
      | nil =>
        rw [List.append_nil] at hrecent
        subst hrecent
        rcases hp'.answered [] i act rest q a hrest.symm ha with hhas | ⟨j, hj⟩
        · exact hp.has q a hhas
        · cases hj
      | cons x extra =>
        obtain ⟨rfl, rfl⟩ := List.cons.inj hrest
        exact hp.answered mid i act extra q a hrecent ha

/-! ## What every run preserves -/

/-- What is stored by a task was stored before, or the task has held it. -/
theorem Acted.has_of_stored (hacted : p.Acted i t act t' p') (ht : p.tasks[i]? = some t)
    (hq : p'.cache.get? q = some a) : p.Has q a := by
  rcases Cache.get?_before hacted.changes hq with hq | rfl
  · exact .inl hq
  obtain ⟨a', next, hphase, hs⟩ := hacted.stored q a rfl
  cases hbefore : p.cache.get? q with
  | some b =>
    rw [Cache.store_stored hbefore] at hs
    exact .inl (hbefore.trans (congrArg some (Prod.mk.inj hs).1))
  | none =>
    rw [Cache.store_fresh hbefore] at hs
    obtain rfl : a' = a := (Prod.mk.inj hs).1
    exact .inr ⟨t, List.mem_of_getElem? ht, next, hphase⟩

theorem Acted.since (hacted : p.Acted i t act t' p') (ht : p.tasks[i]? = some t) :
    p.Since [(i, act)] p' where
  history := hacted.history
  has q a ha := by
    rcases ha with hq | ⟨u, hu, next, hphase⟩
    · exact .inl (hacted.has_of_stored ht hq)
    rw [hacted.tasks] at hu
    rcases List.mem_or_eq_of_mem_set hu with hu | rfl
    · exact .inl (.inr ⟨u, hu, next, hphase⟩)
    · obtain rfl := hacted.held q a next hphase
      exact .inr ⟨i, List.mem_singleton_self _⟩
  answered mid j act' later q a hsplit ha := by
    have hmem : (j, act') ∈ [(i, act)] := hsplit ▸ List.mem_append_right _ List.mem_cons_self
    obtain ⟨-, rfl⟩ := Prod.mk.inj (List.mem_singleton.mp hmem)
    exact .inl (hacted.has_of_stored ht (Cache.get?_of_changes hacted.changes ha))

theorem since_move (p : Pool α) (m : Move) : ∃ recent, p.Since recent (p.move m) := by
  cases m with
  | step i =>
    rcases p.step_eq_or i with hsame | ⟨t, act, t', ht, hacted⟩
    · rw [move, hsame]
      exact ⟨[], .refl p⟩
    · exact ⟨_, hacted.since ht⟩
  | clear =>
    refine ⟨[], .of_shrinks rfl ?_⟩
    rintro q a (hq | hheld)
    · cases (Cache.get?_empty q).symm.trans hq
    · exact .inr hheld
  | change h => exact ⟨[], .of_shrinks rfl fun _ _ ha => ha⟩

theorem since_run (p : Pool α) (moves : List Move) : ∃ recent, p.Since recent (p.run moves) := by
  induction moves generalizing p with
  | nil => exact ⟨[], .refl p⟩
  | cons m rest ih =>
    obtain ⟨first, hfirst⟩ := p.since_move m
    obtain ⟨others, hothers⟩ := ih (p.move m)
    exact ⟨_, hfirst.trans hothers⟩

/-- The first has looked before the cache is cleared, and stores what it saw afterwards. So the
second is told that there is no file. -/
theorem history_overtaken_clear :
    let p := seekers.run [.step 0, .step 0, .change fileHost]
    ((p.move .clear).run [.step 0, .step 1]).history =
      p.history ++ [(0, .store (.lstat "/f") none)] ++ [(1, .hit (.lstat "/f") none)] := by
  intro p
  have hfresh : Cache.empty.get? (.lstat "/f") = none := Cache.get?_empty _
  have hseen := Cache.get?_store_self Cache.empty (.lstat "/f") none
  rw [Cache.store_fresh hfresh] at hseen
  have hp : p = _ := run_seekers
  rw [hp, move, run, List.foldl_cons, move, step_store rfl]
  simp only [Cache.clear, Cache.store_fresh hfresh, List.foldl_cons, List.foldl_nil, move]
  rw [step_hit rfl hseen]
  rfl

/-- Whatever happens after the cache is cleared: an answer that a lookup ends with then has been
computed since, or was computed and not stored yet when the cache was cleared. -/
theorem answered_since_clear (p : Pool α) (after : List Move) (mid later : List (Nat × Act))
    (i : Nat) (act : Act) (q : Query) (a : q.Answer)
    (hsplit : ((p.move .clear).run after).history = p.history ++ mid ++ (i, act) :: later)
    (ha : act.Answers q a) : p.Holds q a ∨ ComputedIn mid q a := by
  obtain ⟨recent, hsince⟩ := (p.move .clear).since_run after
  have hrecent : recent = mid ++ (i, act) :: later := by
    have hall : p.history ++ recent = p.history ++ (mid ++ (i, act) :: later) := by
      rw [← List.append_assoc, ← hsplit]
      exact hsince.history.symm
    exact List.append_cancel_left hall
  refine (hsince.answered mid i act later q a hrecent ha).imp_left fun hhas => ?_
  rcases hhas with hq | hheld
  · cases (Cache.get?_empty q).symm.trans hq
  · exact hheld

theorem answered_since_clear_overtaken :
    let p := seekers.run [.step 0, .step 0, .change fileHost]
    ((p.move .clear).run [.step 0, .step 1]).history =
        p.history ++ [(0, .store (.lstat "/f") none)] ++ [(1, .hit (.lstat "/f") none)] ∧
      (Act.hit (.lstat "/f") none).Answers (.lstat "/f") none ∧ p.Holds (.lstat "/f") none := by
  intro p
  have hsplit := history_overtaken_clear
  have hanswers : (Act.hit (.lstat "/f") none).Answers (.lstat "/f") none := .inl rfl
  refine ⟨hsplit, hanswers, ?_⟩
  rcases answered_since_clear p _ _ [] 1 _ _ _ hsplit hanswers with hheld | ⟨j, hj⟩
  · exact hheld
  · simp at hj

/-- The file is there when the cache is cleared, and the second task begins after that. Still it is
given the answer that the first computed before. -/
theorem exists_answer_from_before_clear :
    let p := seekers.run [.step 0, .step 0, .change fileHost]
    (∀ act, (1, act) ∉ p.history) ∧ ComputedIn p.history (.lstat "/f") none ∧
      p.host.answer (.lstat "/f") = .ok (some fileStatus) ∧
      ((p.move .clear).run [.step 0, .step 1]).history =
        p.history ++ [(0, .store (.lstat "/f") none)] ++ [(1, .hit (.lstat "/f") none)] := by
  intro p
  have hp : p = _ := run_seekers
  have hhistory : p.history =
      [(0, .miss (.lstat "/f")), (0, .compute (.lstat "/f") none)] := by rw [hp]
  refine ⟨fun act hact => ?_, ⟨0, ?_⟩, ?_, history_overtaken_clear⟩
  · simp [hhistory] at hact
  · simp [hhistory]
  · rw [hp]
    decide +kernel

end Pool

end PathGlob
