import PathGlob.Glob.Concurrent
import PathGlob.Proofs.Glob.Transparency
import PathGlob.Proofs.Lookup.Pool

/-!
# Searches by a schedule

On a host that does not change, it does not show which walk takes the next step: a search by any
schedule reports what the search does that walks the alternatives one after another, or both fail.
-/
namespace PathGlob

theorem Except.map_eq_error {ε α β : Type} {x : Except ε α} {f : α → β} {e : ε} :
    x.map f = .error e ↔ x = .error e := by
  cases x <;> simp [Except.map]

namespace Walk

variable (w : Walk) {h : Host} {c d : Cache}

theorem run_of_grows (hd : c.Grows h d) :
    (w.run h d).events = (w.run h c).events ∧ (w.run h d).result = (w.run h c).result ∧
      c.Grows h (w.run h d).state := by
  have hsame := w.run_of_extends (.refl c) (rfl : c.answers h.answer = _) (le_refl (w.depthOn h c))
  rw [w.run_of_extends hd.kept hd.answers le_rfl, hsame]
  exact ⟨rfl, rfl, hd.lookups _⟩

theorem run_eq_script (h : Host) (c : Cache) :
    (w.run h c).events = (w.script (w.depthOn h c)).events (c.answers h.answer) ∧
      (w.run h c).result = (w.script (w.depthOn h c)).outcome (c.answers h.answer) := by
  rw [w.run_of_extends (.refl c) rfl le_rfl]
  exact ⟨rfl, rfl⟩

end Walk

namespace Glob

variable {g : Glob} {h : Host} {c d : Cache} {as : List Alternative}

theorem walkAll_of_grows (hd : c.Grows h d)
    (hok : ∀ a ∈ as, ((g.walk h a).run h c).result = .ok ()) :
    (g.walkAll h as d).result =
      .ok (as.map fun a => Event.paths ((g.walk h a).run h c).events) := by
  induction as generalizing d with
  | nil => rfl
  | cons a as ih =>
    obtain ⟨hevents, hresult, hd'⟩ := (g.walk h a).run_of_grows hd
    have hfirst := hresult.trans (hok a List.mem_cons_self)
    have hrest := ih hd' fun b hb => hok b (List.mem_cons_of_mem a hb)
    rw [walkAll]
    simp only [hfirst, hrest, hevents, List.map_cons]
    rfl

theorem search_of_walks (hok : ∀ a ∈ g.alternatives, ((g.walk h a).run h c).result = .ok ()) :
    (g.search h c).result =
      .ok (g.merge (g.alternatives.map fun a => Event.paths ((g.walk h a).run h c).events)) := by
  rw [search, walkAll_of_grows (.refl h c) hok]
  rfl

/-- A walk that fails when walks are run one after another fails with the first cache too. -/
theorem exists_walk_of_walkAll (hd : c.Grows h d) {e : RunError}
    (he : (g.walkAll h as d).result = .error e) :
    ∃ a ∈ as, ((g.walk h a).run h c).result = .error e := by
  induction as generalizing d with
  | nil => cases he
  | cons a as ih =>
    obtain ⟨-, hresult, hd'⟩ := (g.walk h a).run_of_grows hd
    rw [walkAll] at he
    cases hfirst : ((g.walk h a).run h d).result with
    | error e' =>
      simp only [hfirst, Except.error.injEq] at he
      exact ⟨a, List.mem_cons_self, by rw [← hresult, hfirst, he]⟩
    | ok u =>
      simp only [hfirst, Except.map_eq_error] at he
      obtain ⟨b, hb, hfails⟩ := ih hd' he
      exact ⟨b, List.mem_cons_of_mem a hb, hfails⟩

theorem exists_walk_of_search {e : RunError} (he : (g.search h c).result = .error e) :
    ∃ a ∈ g.alternatives, ((g.walk h a).run h c).result = .error e :=
  exists_walk_of_walkAll (.refl h c) (Except.map_eq_error.mp he)

theorem walkAll_fails (hd : c.Grows h d)
    (hfails : ∃ a ∈ as, ∃ e, ((g.walk h a).run h c).result = .error e) :
    ∃ e, (g.walkAll h as d).result = .error e := by
  induction as generalizing d with
  | nil =>
    obtain ⟨a, ha, -⟩ := hfails
    cases ha
  | cons a as ih =>
    obtain ⟨-, hresult, hd'⟩ := (g.walk h a).run_of_grows hd
    rw [walkAll]
    cases hfirst : ((g.walk h a).run h d).result with
    | error e => exact ⟨e, by simp⟩
    | ok u =>
      obtain ⟨b, hb, e, he⟩ := hfails
      rcases List.mem_cons.mp hb with rfl | hb
      · rw [hfirst, he] at hresult
        cases hresult
      · obtain ⟨e', he'⟩ := ih hd' ⟨b, hb, e, he⟩
        exact ⟨e', by simp [he', Except.map]⟩

theorem search_fails
    (hfails : ∃ a ∈ g.alternatives, ∃ e, ((g.walk h a).run h c).result = .error e) :
    ∃ e, (g.search h c).result = .error e := by
  obtain ⟨e, he⟩ := walkAll_fails (.refl h c) hfails
  exact ⟨e, by simp only [search, he, Except.map]⟩

def scripts (g : Glob) (h : Host) (c : Cache) : List (Script Unit) :=
  g.alternatives.map fun a => (g.walk h a).script ((g.walk h a).depthOn h c)

theorem sound_pool (schedule : List Nat) (g : Glob) (h : Host) (c : Cache) :
    ((g.pool h c).run (schedule.map .step)).Sound h c (g.scripts h c) :=
  (Pool.sound_start h c (g.scripts h c)).run schedule

theorem paths_scripts (g : Glob) (h : Host) (c : Cache) :
    ((g.scripts h c).map fun s => Event.paths (s.events (c.answers h.answer))) =
      g.alternatives.map fun a => Event.paths ((g.walk h a).run h c).events := by
  rw [scripts, List.map_map]
  refine List.map_congr_left fun a _ => ?_
  rw [((g.walk h a).run_eq_script h c).1]
  rfl

theorem searchBy_of_ok (schedule : List Nat)
    (hok : ∀ a ∈ g.alternatives, ((g.walk h a).run h c).result = .ok ()) :
    (g.searchBy schedule h c).1 =
      .ok (g.merge (g.alternatives.map fun a => Event.paths ((g.walk h a).run h c).events)) := by
  have hp := sound_pool schedule g h c
  have hnone : ((g.pool h c).run (schedule.map .step)).finish.failures = [] := by
    rw [List.eq_nil_iff_forall_not_mem]
    intro e he
    obtain ⟨s, hs, hout⟩ := hp.finish.failed e he
    obtain ⟨a, ha, rfl⟩ := List.mem_map.mp hs
    rw [← ((g.walk h a).run_eq_script h c).2, hok a ha] at hout
    cases hout
  have hfound := hp.finish.map_found hp.ended_finish
  rw [paths_scripts] at hfound
  rw [← hfound]
  simp only [searchBy, poolBy, resultOf, hnone]

theorem searchBy_fails (schedule : List Nat)
    (hfails : ∃ a ∈ g.alternatives, ∃ e, ((g.walk h a).run h c).result = .error e) :
    ∃ a ∈ g.alternatives, ∃ e, ((g.walk h a).run h c).result = .error e ∧
      (g.searchBy schedule h c).1 = .error e := by
  have hp := sound_pool schedule g h c
  cases hfailures : ((g.pool h c).run (schedule.map .step)).finish.failures with
  | nil =>
    obtain ⟨a, ha, e, he⟩ := hfails
    obtain ⟨u, hu⟩ := hp.outcome_of_no_failure hfailures (List.mem_map_of_mem ha)
    rw [← ((g.walk h a).run_eq_script h c).2, he] at hu
    cases hu
  | cons e es =>
    -- The first failure is the one that is reported, whichever walk it comes from.
    obtain ⟨s, hs, hout⟩ := hp.finish.failed e (by rw [hfailures]; exact List.mem_cons_self)
    obtain ⟨a, ha, rfl⟩ := List.mem_map.mp hs
    rw [← ((g.walk h a).run_eq_script h c).2] at hout
    exact ⟨a, ha, e, hout, by simp only [searchBy, poolBy, resultOf, hfailures]⟩

theorem walks_of_search {xs : List String} (hx : (g.search h c).result = .ok xs) :
    ∀ a ∈ g.alternatives, ((g.walk h a).run h c).result = .ok () := by
  intro a ha
  cases hresult : ((g.walk h a).run h c).result with
  | ok u => rfl
  | error e =>
    obtain ⟨e', he'⟩ := search_fails ⟨a, ha, e, hresult⟩
    rw [hx] at he'
    cases he'

/-- Whatever the schedule, what a search returns is what a search by the schedule returns. -/
theorem searchBy_of_search (schedule : List Nat) {xs : List String}
    (hx : (g.search h c).result = .ok xs) : (g.searchBy schedule h c).1 = .ok xs := by
  have hok := walks_of_search hx
  rw [searchBy_of_ok schedule hok, ← search_of_walks hok, hx]

theorem searchBy_eq_ok_iff (schedule : List Nat) {xs : List String} :
    (g.searchBy schedule h c).1 = .ok xs ↔ (g.search h c).result = .ok xs := by
  refine ⟨fun hx => ?_, searchBy_of_search schedule⟩
  cases hresult : (g.search h c).result with
  | ok ys =>
    rw [searchBy_of_search schedule hresult] at hx
    exact hx
  | error e =>
    obtain ⟨a, ha, hfails⟩ := exists_walk_of_search hresult
    obtain ⟨-, -, e', -, he'⟩ := searchBy_fails schedule ⟨a, ha, e, hfails⟩
    rw [he'] at hx
    cases hx

/-- Whatever the schedule: if no walk fails, the search reports what the walks one after another
report; if some walk fails, the search fails as some failing walk does alone, and so do the walks
one after another. -/
theorem searchBy_agrees (schedule : List Nat) (g : Glob) (h : Host) (c : Cache) :
    ((∀ a ∈ g.alternatives, ((g.walk h a).run h c).result = .ok ()) →
      ∃ paths, (g.search h c).result = .ok paths ∧ (g.searchBy schedule h c).1 = .ok paths) ∧
    ((∃ a ∈ g.alternatives, ∃ e, ((g.walk h a).run h c).result = .error e) →
      (∃ e, (g.search h c).result = .error e) ∧
      ∃ a ∈ g.alternatives, ∃ e, ((g.walk h a).run h c).result = .error e ∧
        (g.searchBy schedule h c).1 = .error e) := by
  constructor
  · intro hok
    exact ⟨_, search_of_walks hok, searchBy_of_ok schedule hok⟩
  · intro hfails
    exact ⟨search_fails hfails, searchBy_fails schedule hfails⟩

def lister : Alternative := Pattern.readAlternative {} false 0 0 "*".toList

def asker : Alternative := Pattern.readAlternative {} false 1 1 "/d".toList

/-- The working directory may not be listed, so that the first walk fails and the second does not. -/
theorem searchBy_agrees_sealed :
    let g : Glob := ⟨["*", "/d"], {}, [lister, asker], .none⟩
    let h : Host := { sealedHost with cwd := "/d" }
    (g.searchBy [1, 0, 1, 0, 0, 1] h .empty).1 =
        .error (.walk (.unreadable "/d" ⟨.denied, "/d"⟩)) ∧
      ∃ e, (g.search h .empty).result = .error e := by
  intro g h
  have hempty := Cache.agrees_empty h.answer
  have hlister : ((g.walk h lister).run h .empty).result =
      .error (.walk (.unreadable "/d" ⟨.denied, "/d"⟩)) := by
    rw [Walk.run_of_agrees _ h hempty]
    decide +kernel
  have hasker : ((g.walk h asker).run h .empty).result = .ok () := by
    rw [Walk.run_of_agrees _ h hempty]
    decide +kernel
  obtain ⟨hfails, a, ha, e, he, hsearch⟩ :=
    (searchBy_agrees [1, 0, 1, 0, 0, 1] g h .empty).2 ⟨lister, List.mem_cons_self, _, hlister⟩
  refine ⟨?_, hfails⟩
  have hone : a = lister ∨ a = asker := by simpa [g] using ha
  rcases hone with rfl | rfl
  · rw [hlister, Except.error.injEq] at he
    rw [hsearch, ← he]
  · rw [hasker] at he
    cases he

end Glob

end PathGlob
