import PathGlob.Proofs.Lookup.Pool

/-!
# Lookups that overlap

Tasks that share a cache while the file system changes. Two tasks may compute different answers to
one question, but the first that is stored is what both are given, as long as nothing is forgotten.
-/
namespace PathGlob

namespace Act

def Answers (act : Act) (q : Query) (a : q.Answer) : Prop := act = .hit q a ∨ act = .store q a

def begins : Act → Bool
  | .hit _ _ => true
  | .miss _ => true
  | _ => false

def Changes (c d : Cache) : Act → Prop
  | .hit q a => c.get? q = some a ∧ d = { c with hits := c.hits + 1 }
  | .miss q => c.get? q = none ∧ d = { c with misses := c.misses + 1 }
  | .store q b => ∃ a, c.store q a = (b, d)
  | _ => d = c

end Act

namespace Cache

variable {c d : Cache} {q : Query}

theorem store_stored {a b : q.Answer} (h : c.get? q = some b) : c.store q a = (b, c) := by
  simp [store, h]

theorem store_fresh {a : q.Answer} (h : c.get? q = none) :
    c.store q a = (a, { c with stored := c.stored.insert q a }) := by
  simp [store, h]

theorem extends_store (c : Cache) (q : Query) (a : q.Answer) : c.Extends (c.store q a).2 := by
  intro p b hp
  cases hq : c.get? q with
  | some a' => rwa [store_stored hq]
  | none =>
    have hne : q ≠ p := by
      rintro rfl
      rw [hq] at hp
      cases hp
    rw [store_fresh hq]
    simpa [get?, Std.DHashMap.get?_insert, hne] using hp

theorem get?_store_self (c : Cache) (q : Query) (a : q.Answer) :
    (c.store q a).2.get? q = some (c.store q a).1 := by
  cases hq : c.get? q with
  | some a' =>
    rw [store_stored hq]
    exact hq
  | none =>
    rw [store_fresh hq]
    exact Std.DHashMap.get?_insert_self

theorem extends_of_changes {act : Act} (h : act.Changes c d) : c.Extends d := by
  cases act with
  | hit q a =>
    obtain ⟨-, rfl⟩ := h
    exact fun _ _ hp => hp
  | miss q =>
    obtain ⟨-, rfl⟩ := h
    exact fun _ _ hp => hp
  | store q b =>
    obtain ⟨a, hs⟩ := h
    have hext := extends_store c q a
    rwa [hs] at hext
  | compute q a => exact h ▸ .refl c
  | refuse q => exact h ▸ .refl c
  | add path new => exact h ▸ .refl c
  | report e => exact h ▸ .refl c
  | stop => exact h ▸ .refl c

/-- The answer that a lookup ends with is stored then. -/
theorem get?_of_changes {act : Act} {a : q.Answer} (h : act.Changes c d)
    (ha : act.Answers q a) : d.get? q = some a := by
  rcases ha with rfl | rfl
  · obtain ⟨hq, rfl⟩ := h
    exact hq
  · obtain ⟨b, hs⟩ := h
    have hself := get?_store_self c q b
    rwa [hs] at hself

/-- What is stored was stored before, or is being stored. -/
theorem get?_before {act : Act} {a : q.Answer} (h : act.Changes c d) (hq : d.get? q = some a) :
    c.get? q = some a ∨ act = .store q a := by
  cases act with
  | hit p b =>
    obtain ⟨-, rfl⟩ := h
    exact .inl hq
  | miss p =>
    obtain ⟨-, rfl⟩ := h
    exact .inl hq
  | store p b =>
    obtain ⟨b', hs⟩ := h
    have hd : d = (c.store p b').2 := by rw [hs]
    by_cases hpq : p = q
    · subst hpq
      have hself := get?_store_self c p b'
      rw [hs, hq] at hself
      exact .inr (Option.some.inj hself ▸ rfl)
    · left
      rw [hd] at hq
      cases hp : c.get? p with
      | some b'' => rwa [store_stored hp] at hq
      | none =>
        rw [store_fresh hp] at hq
        simpa [get?, Std.DHashMap.get?_insert, hpq] using hq
  | compute p b => exact .inl (h ▸ hq)
  | refuse p => exact .inl (h ▸ hq)
  | add path new => exact .inl (h ▸ hq)
  | report e => exact .inl (h ▸ hq)
  | stop => exact .inl (h ▸ hq)

theorem counts_of_changes {act : Act} (h : act.Changes c d) :
    d.hits + d.misses = c.hits + c.misses + if act.begins then 1 else 0 := by
  cases act with
  | hit q a =>
    obtain ⟨-, rfl⟩ := h
    simp only [Act.begins, if_true]
    omega
  | miss q =>
    obtain ⟨-, rfl⟩ := h
    simp only [Act.begins, if_true]
    omega
  | store q b =>
    obtain ⟨a, hs⟩ := h
    have hd : d = (c.store q a).2 := by rw [hs]
    cases hq : c.get? q with
    | some a' => rw [hd, store_stored hq]; rfl
    | none => rw [hd, store_fresh hq]; rfl
  | compute q a => rw [show d = c from h]; rfl
  | refuse q => rw [show d = c from h]; rfl
  | add path new => rw [show d = c from h]; rfl
  | report e => rw [show d = c from h]; rfl
  | stop => rw [show d = c from h]; rfl

end Cache

namespace Pool

variable {α : Type} {p p' : Pool α} {i : Nat} {t : Task α}

def begun (p : Pool α) : Nat := p.history.countP fun x => x.2.begins

/-- A step of a task has been one act, which is noted, and has brought the task to another phase. -/
structure Acted (p : Pool α) (i : Nat) (t : Task α) (act : Act) (t' : Task α) (p' : Pool α) :
    Prop where
  history : p'.history = p.history ++ [(i, act)]
  tasks : p'.tasks = p.tasks.set i t'
  changes : act.Changes p.cache p'.cache
  /-- Only what the task has computed is stored. -/
  stored : ∀ q b, act = .store q b →
    ∃ a next, t.phase = .computed q a next ∧ p.cache.store q a = (b, p'.cache)
  held : ∀ q a next, t'.phase = .computed q a next → act = .compute q a

theorem Stepped.exists_acted (h : p.Stepped i t p') : ∃ act t', p.Acted i t act t' p' := by
  cases h with
  | done phase => exact ⟨.stop, _, rfl, rfl, rfl, by simp, by simp⟩
  | fail phase => exact ⟨.stop, _, rfl, rfl, rfl, by simp, by simp⟩
  | @report e next phase =>
    cases e with
    | found path =>
      unfold Pool.report
      by_cases hnew : (t.found.add path).1 = true
      · simp only [hnew, if_true]
        exact ⟨.add path _, _, rfl, rfl, rfl, by simp, by simp⟩
      · simp only [hnew]
        exact ⟨.report (.found path), _, rfl, rfl, rfl, by simp, by simp⟩
    | loop dir => exact ⟨.report (.loop dir), _, rfl, rfl, rfl, by simp, by simp⟩
    | unreadable dir error =>
      exact ⟨.report (.unreadable dir error), _, rfl, rfl, rfl, by simp, by simp⟩
  | @hit q next a phase stored => exact ⟨.hit q a, _, rfl, rfl, ⟨stored, rfl⟩, by simp, by simp⟩
  | @miss q next phase missing => exact ⟨.miss q, _, rfl, rfl, ⟨missing, rfl⟩, by simp, by simp⟩
  | @compute q next a phase answer =>
    refine ⟨.compute q a, _, rfl, rfl, rfl, by simp, ?_⟩
    rintro q' a' next' ⟨⟩
    rfl
  | @refuse q next e phase refused => exact ⟨.refuse q, _, rfl, rfl, rfl, by simp, by simp⟩
  | @store q next a phase =>
    refine ⟨.store q (p.cache.store q a).1, _, rfl, rfl, ⟨a, rfl⟩, ?_, by simp⟩
    rintro q' b ⟨⟩
    exact ⟨a, next, phase, rfl⟩

theorem step_eq_or (p : Pool α) (i : Nat) : p.step i = p ∨
    ∃ t act t', p.tasks[i]? = some t ∧ p.Acted i t act t' (p.step i) := by
  rcases p.step_cases i with ⟨hsame, -⟩ | ⟨t, ht, hstep⟩
  · exact .inl hsame
  · obtain ⟨act, t', hacted⟩ := hstep.exists_acted
    exact .inr ⟨t, act, t', ht, hacted⟩

/-! ## What holds as long as nothing is forgotten -/

/-- Since the cache was `c` it has kept all that was answered and has counted all lookups. -/
structure Remembers (c : Cache) (p : Pool α) : Prop where
  stored : ∀ i act q a, (i, act) ∈ p.history → act.Answers q a → p.cache.get? q = some a
  counted : p.cache.hits + p.cache.misses = c.hits + c.misses + p.begun

variable {c : Cache}

theorem remembers_start (h : Host) (c : Cache) (scripts : List (Script α)) :
    (start h c scripts).Remembers c where
  stored i act q a hmem _ := by cases hmem
  counted := rfl

theorem Remembers.step (hp : p.Remembers c) (i : Nat) : (p.step i).Remembers c := by
  rcases p.step_eq_or i with hsame | ⟨t, act, t', -, hacted⟩
  · rwa [hsame]
  have hhistory := hacted.history
  have hgrown := Cache.extends_of_changes hacted.changes
  refine ⟨fun j act' q a hmem ha => ?_, ?_⟩
  · rw [hhistory] at hmem
    rcases List.mem_append.mp hmem with hmem | hmem
    · exact hgrown q a (hp.stored j act' q a hmem ha)
    · obtain ⟨rfl, rfl⟩ := Prod.mk.inj (List.mem_singleton.mp hmem)
      exact Cache.get?_of_changes hacted.changes ha
  · have hcounts := Cache.counts_of_changes hacted.changes
    have hbefore := hp.counted
    rw [begun] at hbefore ⊢
    rw [hhistory, List.countP_append, List.countP_singleton, hcounts, hbefore]
    exact Nat.add_assoc _ _ _

theorem Remembers.run (hp : p.Remembers c) {moves : List Move} (hkeep : ∀ m ∈ moves, m ≠ .clear) :
    (p.run moves).Remembers c := by
  induction moves generalizing p with
  | nil => exact hp
  | cons m rest ih =>
    refine ih ?_ fun m' hm' => hkeep m' (List.mem_cons_of_mem _ hm')
    cases m with
    | step i => exact hp.step i
    | clear => exact absurd rfl (hkeep .clear List.mem_cons_self)
    | change h => exact ⟨hp.stored, hp.counted⟩

theorem extends_step (p : Pool α) (i : Nat) : p.cache.Extends (p.step i).cache := by
  rcases p.step_eq_or i with hsame | ⟨t, act, t', -, hacted⟩
  · rw [hsame]
    exact .refl _
  · exact Cache.extends_of_changes hacted.changes

theorem extends_run (p : Pool α) {moves : List Move} (hkeep : ∀ m ∈ moves, m ≠ .clear) :
    p.cache.Extends (p.run moves).cache := by
  induction moves generalizing p with
  | nil => exact .refl _
  | cons m rest ih =>
    have hfirst : p.cache.Extends (p.move m).cache := by
      cases m with
      | step i => exact p.extends_step i
      | clear => exact absurd rfl (hkeep .clear List.mem_cons_self)
      | change h => exact .refl _
    exact hfirst.trans (ih (p.move m) fun m' hm' => hkeep m' (List.mem_cons_of_mem _ hm'))

theorem run_append (p : Pool α) (before after : List Move) :
    p.run (before ++ after) = (p.run before).run after := by
  simp [run]

theorem cache_of_refuse {q : Query} (h : (p.step i).history = p.history ++ [(i, .refuse q)]) :
    (p.step i).cache = p.cache := by
  rcases p.step_eq_or i with hsame | ⟨t, act, t', -, hacted⟩
  · rw [hsame]
  · have hhistory := hacted.history
    rw [h] at hhistory
    obtain ⟨rfl⟩ : Act.refuse q = act := by simpa using hhistory
    exact hacted.changes

/-! ## Single steps -/

variable {q : Query} {next : q.Answer → Script α} {found : OrderedSet} {a : q.Answer}

theorem step_hit (ht : p.tasks[i]? = some ⟨.ready (.ask q next), found⟩)
    (hq : p.cache.get? q = some a) :
    p.step i = { p.put i ⟨.ready (.ask q next), found⟩ (.ready (next a)) (.hit q a) with
      cache := { p.cache with hits := p.cache.hits + 1 } } := by
  simp only [step, ht, Cache.check, hq]

theorem step_miss (ht : p.tasks[i]? = some ⟨.ready (.ask q next), found⟩)
    (hq : p.cache.get? q = none) :
    p.step i = { p.put i ⟨.ready (.ask q next), found⟩ (.missed q next) (.miss q) with
      cache := { p.cache with misses := p.cache.misses + 1 } } := by
  simp only [step, ht, Cache.check, hq]

theorem step_compute (ht : p.tasks[i]? = some ⟨.missed q next, found⟩)
    (ha : p.host.answer q = .ok a) :
    p.step i = p.put i ⟨.missed q next, found⟩ (.computed q a next) (.compute q a) := by
  simp only [step, ht, ha]

theorem step_store (ht : p.tasks[i]? = some ⟨.computed q a next, found⟩) :
    p.step i = { p.put i ⟨.computed q a next, found⟩ (.ready (next (p.cache.store q a).1))
        (.store q (p.cache.store q a).1) with
      cache := (p.cache.store q a).2 } := by
  simp only [step, ht]

def bareHost : Host := ⟨.empty, "/"⟩

def fileHost : Host := ⟨FileSystem.empty.apply (.file (.ofText "f") []), "/"⟩

def fileStatus : Status := ⟨.file, ⟨Location.ofText "f", 1⟩⟩

def seekers : Pool (Option Status) :=
  start bareHost .empty [Script.lookup (.lstat "/f"), Script.lookup (.lstat "/f")]

/-- The first has looked when the file is made, and has not stored what it saw. -/
theorem run_seekers : seekers.run [.step 0, .step 0, .change fileHost] =
    ⟨fileHost, ⟨∅, 0, 1⟩, .empty,
      [⟨.computed (.lstat "/f") none .done, .empty⟩,
        ⟨.ready (Script.lookup (.lstat "/f")), .empty⟩], [],
      [(0, .miss (.lstat "/f")), (0, .compute (.lstat "/f") none)]⟩ := by
  have hmiss : seekers.step 0 = ⟨bareHost, ⟨∅, 0, 1⟩, .empty,
      [⟨.missed (.lstat "/f") .done, .empty⟩, ⟨.ready (Script.lookup (.lstat "/f")), .empty⟩], [],
      [(0, .miss (.lstat "/f"))]⟩ := step_miss rfl (Cache.get?_empty _)
  have hnone : bareHost.answer (.lstat "/f") = .ok none := rfl
  rw [run, List.foldl_cons, move, hmiss, List.foldl_cons, move, step_compute rfl hnone]
  rfl

/-- Whatever the schedule, and whatever changes in the file system meanwhile, as long as nothing is
forgotten: all lookups of one question that end with an answer end with the same one, an answer that
is stored stays, a computation that fails leaves the cache as it was, and each lookup is counted
when it begins. -/
theorem answers_agree (h : Host) (c : Cache) (scripts : List (Script α)) (moves : List Move)
    (hkeep : ∀ m ∈ moves, m ≠ .clear) :
    let p := (start h c scripts).run moves
    (∀ i j act act' q a b, (i, act) ∈ p.history → (j, act') ∈ p.history → act.Answers q a →
      act'.Answers q b → a = b) ∧
    (∀ before after, moves = before ++ after →
      ((start h c scripts).run before).cache.Extends p.cache) ∧
    (∀ i q, (p.step i).history = p.history ++ [(i, .refuse q)] → (p.step i).cache = p.cache) ∧
    p.cache.hits + p.cache.misses = c.hits + c.misses + p.begun := by
  intro p
  have hp : p.Remembers c := (remembers_start h c scripts).run hkeep
  refine ⟨fun i j act act' q a b hi hj ha hb => ?_, ?_, fun i q => cache_of_refuse, hp.counted⟩
  · have hstored := hp.stored i act q a hi ha
    rw [hp.stored j act' q b hj hb] at hstored
    exact (Option.some.inj hstored).symm
  · rintro before after rfl
    have hsplit : p = ((start h c scripts).run before).run after := run_append _ before after
    rw [hsplit]
    exact extends_run _ fun m hm => hkeep m (List.mem_append_right _ hm)

/-- Both are told that the file is there: the second looks later than the first, but stores what it
saw before. -/
theorem answers_agree_overtaken :
    let moves : List Move :=
      [.step 0, .step 0, .change fileHost] ++ [.step 1, .step 1, .step 1, .step 0]
    let p := seekers.run moves
    (∀ m ∈ moves, m ≠ .clear) ∧ (0, .compute (.lstat "/f") none) ∈ p.history ∧
      (∃ a, (0, .store (.lstat "/f") a) ∈ p.history ∧ a = some fileStatus) ∧
      p.cache.hits + p.cache.misses = 2 := by
  intro moves p
  have hkeep : ∀ m ∈ moves, m ≠ .clear := by simp [moves]
  obtain ⟨hsame, -, -, hcount⟩ := answers_agree bareHost .empty
    [Script.lookup (.lstat "/f"), Script.lookup (.lstat "/f")] moves hkeep
  have hseen : fileHost.answer (.lstat "/f") = .ok (some fileStatus) := by decide +kernel
  have hnone : (⟨∅, 0, 1⟩ : Cache).get? (.lstat "/f") = none := Cache.get?_empty _
  have hfresh : (⟨∅, 0, 2⟩ : Cache).get? (.lstat "/f") = none := Cache.get?_empty _
  obtain ⟨b, hhistory⟩ : ∃ b, p.history = [(0, .miss (.lstat "/f")),
      (0, .compute (.lstat "/f") none), (1, .miss (.lstat "/f")),
      (1, .compute (.lstat "/f") (some fileStatus)),
      (1, .store (.lstat "/f")
        ((⟨∅, 0, 2⟩ : Cache).store (.lstat "/f") (some fileStatus)).1),
      (0, .store (.lstat "/f") b)] := by
    have hp : p = _ := run_append _ _ _
    rw [hp, run_seekers, run, List.foldl_cons, move, step_miss rfl hnone, List.foldl_cons, move,
      step_compute rfl hseen, List.foldl_cons, move, step_store rfl, List.foldl_cons, move,
      step_store rfl]
    exact ⟨_, rfl⟩
  rw [Cache.store_fresh hfresh] at hhistory
  have hb : b = some fileStatus := hsame 0 1 _ _ _ b _ (by rw [← seekers, hhistory]; simp)
    (by rw [← seekers, hhistory]; simp) (.inr rfl) (.inr rfl)
  refine ⟨hkeep, by simp [hhistory], ⟨b, by simp [hhistory], hb⟩, ?_⟩
  have hbegun : p.begun = 2 := by
    rw [begun, hhistory]
    rfl
  refine hcount.trans ?_
  change Cache.empty.hits + Cache.empty.misses + p.begun = 2
  rw [hbegun]
  rfl

end Pool

end PathGlob
