import PathGlob.Proofs.Lookup.Agreement

/-!
# Sets that tasks share

Each task adds the paths that are new to it to the set that all share. However their steps follow
each other, the shared set holds what has been added, in the order in which it was added first, and
one addition of each path is told that the path is new. Every task comes to its end.
-/
namespace PathGlob

structure Addition where
  task : Nat
  path : String
  /-- What the task is told: whether the path is new to the set. -/
  new : Bool

def addition? : Nat × Act → Option Addition
  | (i, .add path new) => some ⟨i, path, new⟩
  | _ => none

theorem task_of_addition? {x : Nat × Act} {a : Addition} (h : addition? x = some a) :
    a.task = x.1 := by
  obtain ⟨i, act⟩ := x
  cases act with
  | add path new =>
    obtain rfl := Option.some.inj h
    rfl
  | _ => cases h

/-- What an act does to the shared set and to the task's own one. -/
def Act.Fills (shared own shared' own' : OrderedSet) : Act → Prop
  | .add path new =>
    path ∉ own.toList ∧ shared.add path = (new, shared') ∧ own' = (own.add path).2
  | _ => shared' = shared ∧ own' = own

namespace Phase

variable {α : Type}

inductive Next : Phase α → Phase α → Prop
  | stop {phase : Phase α} (going : ∀ r, phase ≠ .ended r) (result : Except RunError α) :
      Next phase (.ended result)
  | report {e : Event} {next : Script α} : Next (.ready (.report e next)) (.ready next)
  | hit {q : Query} {next : q.Answer → Script α} (a : q.Answer) :
      Next (.ready (.ask q next)) (.ready (next a))
  | miss {q : Query} {next : q.Answer → Script α} : Next (.ready (.ask q next)) (.missed q next)
  | compute {q : Query} {next : q.Answer → Script α} (a : q.Answer) :
      Next (.missed q next) (.computed q a next)
  | store {q : Query} {next : q.Answer → Script α} {a : q.Answer} (b : q.Answer) :
      Next (.computed q a next) (.ready (next b))

abbrev Finite (phase : Phase α) : Prop := Acc (fun after before => before.Next after) phase

theorem finite_ended (r : Except RunError α) : (ended r).Finite := by
  refine .intro _ fun phase hnext => ?_
  cases hnext with
  | stop going => exact absurd rfl (going r)

theorem finite_computed {q : Query} {next : q.Answer → Script α}
    (hnext : ∀ a, (ready (next a)).Finite) (a : q.Answer) : (computed q a next).Finite := by
  refine .intro _ fun phase h => ?_
  cases h with
  | stop going result => exact finite_ended result
  | store b => exact hnext b

theorem finite_missed {q : Query} {next : q.Answer → Script α}
    (hnext : ∀ a, (ready (next a)).Finite) : (missed q next).Finite := by
  refine .intro _ fun phase h => ?_
  cases h with
  | stop going result => exact finite_ended result
  | compute a => exact finite_computed hnext a

theorem finite_ready (s : Script α) : (ready s).Finite := by
  induction s with
  | done a =>
    refine .intro _ fun phase h => ?_
    cases h with
    | stop going result => exact finite_ended result
  | fail e =>
    refine .intro _ fun phase h => ?_
    cases h with
    | stop going result => exact finite_ended result
  | report e next ih =>
    refine .intro _ fun phase h => ?_
    cases h with
    | stop going result => exact finite_ended result
    | report => exact ih
  | ask q next ih =>
    refine .intro _ fun phase h => ?_
    cases h with
    | stop going result => exact finite_ended result
    | hit a => exact ih a
    | miss => exact finite_missed ih

theorem finite (phase : Phase α) : phase.Finite := by
  cases phase with
  | ready s => exact finite_ready s
  | missed q next => exact finite_missed fun a => finite_ready (next a)
  | computed q a next => exact finite_computed (fun b => finite_ready (next b)) a
  | ended r => exact finite_ended r

end Phase

namespace Pool

variable {α : Type} {p p' : Pool α} {i : Nat} {t t' : Task α} {act : Act}

def additions (p : Pool α) : List Addition := p.history.filterMap addition?

def added (p : Pool α) : List String := p.additions.map Addition.path

def addedBy (p : Pool α) (i : Nat) : List String :=
  (p.additions.filter fun a => a.task = i).map Addition.path

def InTurn (p : Pool α) : Prop := p.history.Pairwise fun x y => x.1 ≤ y.1

/-! ## Steps -/

/-- A step of a task is one act that goes on from its phase and fills the sets. -/
structure Advanced (p : Pool α) (i : Nat) (t : Task α) (act : Act) (t' : Task α) (p' : Pool α) :
    Prop where
  history : p'.history = p.history ++ [(i, act)]
  tasks : p'.tasks = p.tasks.set i t'
  fills : act.Fills p.matched t.found p'.matched t'.found
  next : t.phase.Next t'.phase

theorem Stepped.exists_advanced (h : p.Stepped i t p') : ∃ act t', p.Advanced i t act t' p' := by
  cases h with
  | done phase => exact ⟨.stop, _, rfl, rfl, ⟨rfl, rfl⟩, .stop (by simp [phase]) _⟩
  | fail phase => exact ⟨.stop, _, rfl, rfl, ⟨rfl, rfl⟩, .stop (by simp [phase]) _⟩
  | @report e next phase =>
    have hnext : t.phase.Next (.ready next) := phase ▸ .report
    cases e with
    | found path =>
      unfold Pool.report
      by_cases hold : path ∈ t.found.toList
      · have hsame : (t.found.add path).1 = false := by simp [OrderedSet.add, hold]
        simp only [hsame, Bool.false_eq_true, if_false]
        exact ⟨.report (.found path), _, rfl, rfl, ⟨rfl, rfl⟩, hnext⟩
      · have hnew : (t.found.add path).1 = true := by simp [OrderedSet.add, hold]
        simp only [hnew, if_true]
        exact ⟨.add path _, _, rfl, rfl, ⟨hold, rfl, rfl⟩, hnext⟩
    | loop dir => exact ⟨.report (.loop dir), _, rfl, rfl, ⟨rfl, rfl⟩, hnext⟩
    | unreadable dir error =>
      exact ⟨.report (.unreadable dir error), _, rfl, rfl, ⟨rfl, rfl⟩, hnext⟩
  | @hit q next a phase stored => exact ⟨.hit q a, _, rfl, rfl, ⟨rfl, rfl⟩, phase ▸ .hit a⟩
  | @miss q next phase missing => exact ⟨.miss q, _, rfl, rfl, ⟨rfl, rfl⟩, phase ▸ .miss⟩
  | @compute q next a phase answer =>
    exact ⟨.compute q a, _, rfl, rfl, ⟨rfl, rfl⟩, phase ▸ .compute a⟩
  | @refuse q next e phase refused =>
    exact ⟨.refuse q, _, rfl, rfl, ⟨rfl, rfl⟩, .stop (by simp [phase]) _⟩
  | @store q next a phase => exact ⟨.store q _, _, rfl, rfl, ⟨rfl, rfl⟩, phase ▸ .store _⟩

theorem Advanced.additions_eq (h : p.Advanced i t act t' p') :
    p'.additions = p.additions ++ (addition? (i, act)).toList := by
  rw [additions, h.history, List.filterMap_append, additions]
  cases haddition : addition? (i, act) <;> simp [haddition]

/-! ## What every run preserves -/

structure Filled (p : Pool α) : Prop where
  matched : p.matched = .ofList p.added
  /-- One addition of each path is told that the path is new. -/
  once : ∀ path, p.additions.countP (fun a => a.path = path ∧ a.new) =
    if path ∈ p.matched.toList then 1 else 0
  found : ∀ i t, p.tasks[i]? = some t → t.found.toList = p.addedBy i
  tasks : ∀ a ∈ p.additions, a.task < p.tasks.length

theorem filled_start (h : Host) (c : Cache) (scripts : List (Script α)) :
    (start h c scripts).Filled where
  matched := rfl
  once _ := rfl
  found i t ht := by
    obtain ⟨s, -, rfl⟩ := List.mem_map.mp (List.mem_of_getElem? ht)
    rfl
  tasks a ha := by cases ha

/-- A step that adds nothing. -/
theorem Filled.of_quiet (hp : p.Filled) (ht : p.tasks[i]? = some t)
    (hadvanced : p.Advanced i t act t' p') (hquiet : addition? (i, act) = none)
    (hmatched : p'.matched = p.matched) (hfound : t'.found = t.found) : p'.Filled := by
  have hadditions : p'.additions = p.additions := by
    rw [hadvanced.additions_eq, hquiet, Option.toList_none, List.append_nil]
  refine ⟨?_, ?_, fun j u hu => ?_, ?_⟩
  · rw [hmatched, added, hadditions]
    exact hp.matched
  · rw [hmatched, hadditions]
    exact hp.once
  · rw [addedBy, hadditions]
    rw [hadvanced.tasks] at hu
    rcases eq_or_of_getElem?_set hu with ⟨rfl, rfl⟩ | ⟨-, hu⟩
    · rw [hfound]
      exact hp.found j t ht
    · exact hp.found j u hu
  · rw [hadditions, hadvanced.tasks, List.length_set]
    exact hp.tasks

/-- A step that adds a path. -/
theorem Filled.of_add (hp : p.Filled) (ht : p.tasks[i]? = some t) {path : String} {new : Bool}
    (hadvanced : p.Advanced i t (.add path new) t' p') : p'.Filled := by
  obtain ⟨hold, hshared, hown⟩ := hadvanced.fills
  have hadditions : p'.additions = p.additions ++ [⟨i, path, new⟩] := hadvanced.additions_eq
  have hmatched : p'.matched = (p.matched.add path).2 := (congrArg Prod.snd hshared).symm
  have hadded : p'.added = p.added ++ [path] := by
    rw [added, hadditions, List.map_append, added, List.map_singleton]
  refine ⟨?_, fun x => ?_, fun j u hu => ?_, ?_⟩
  · rw [hmatched, hp.matched, hadded, OrderedSet.ofList, OrderedSet.ofList,
      OrderedSet.addAll_append]
    rfl
  · have hnew : new = !p.matched.contains path := by rw [← OrderedSet.add_eq_new, hshared]
    rw [hadditions, List.countP_append, hp.once, List.countP_singleton, hmatched,
      OrderedSet.toList_add, hnew]
    by_cases hpath : path ∈ p.matched.toList
    · simp [OrderedSet.contains, hpath]
    · by_cases hx : x = path
      · subst hx
        simp [OrderedSet.contains, hpath]
      · simp [hpath, hx, Ne.symm hx]
  · rw [hadvanced.tasks] at hu
    rw [addedBy, hadditions, List.filter_append, List.map_append]
    rcases eq_or_of_getElem?_set hu with ⟨rfl, rfl⟩ | ⟨hne, hu⟩
    · rw [hown, OrderedSet.toList_add, if_neg hold, hp.found j t ht]
      simp [addedBy]
    · rw [hp.found j u hu]
      simp [addedBy, hne.symm]
  · rw [hadditions, hadvanced.tasks, List.length_set]
    obtain ⟨hi, -⟩ := List.getElem?_eq_some_iff.mp ht
    exact List.forall_mem_append.mpr ⟨hp.tasks, List.forall_mem_singleton.mpr hi⟩

theorem Filled.step (hp : p.Filled) (i : Nat) : (p.step i).Filled := by
  rcases p.step_cases i with ⟨hsame, -⟩ | ⟨t, ht, hstep⟩
  · rwa [hsame]
  obtain ⟨act, t', hadvanced⟩ := hstep.exists_advanced
  cases act with
  | add path new => exact hp.of_add ht hadvanced
  | _ => exact hp.of_quiet ht hadvanced rfl hadvanced.fills.1 hadvanced.fills.2

/-- Neither do answers that are forgotten change the sets, nor does another file system. -/
theorem Filled.run (hp : p.Filled) (moves : List Move) : (p.run moves).Filled := by
  induction moves generalizing p with
  | nil => exact hp
  | cons m rest ih =>
    refine ih ?_
    cases m with
    | step i => exact hp.step i
    | clear => exact ⟨hp.matched, hp.once, hp.found, hp.tasks⟩
    | change h => exact ⟨hp.matched, hp.once, hp.found, hp.tasks⟩

/-! ## Tasks one after another -/

theorem Filled.map_found (hp : p.Filled) :
    (p.tasks.map fun t => t.found.toList) = (List.range p.tasks.length).map p.addedBy := by
  apply List.ext_getElem (by simp)
  intro i hi hi'
  rw [List.length_map] at hi
  rw [List.getElem_map, List.getElem_map, List.getElem_range]
  exact hp.found i _ (List.getElem?_eq_getElem hi)

section Sorted

variable {β : Type} {xs : List β} {f : β → Nat} {n : Nat}

theorem filter_append_filter_le (hsorted : xs.Pairwise fun x y => f x ≤ f y) (n : Nat) :
    (xs.filter fun x => f x < n) ++ (xs.filter fun x => n ≤ f x) = xs := by
  induction hsorted with
  | nil => rfl
  | @cons x xs hx hsorted ih =>
    by_cases hlt : f x < n
    · rw [List.filter_cons_of_pos (by simpa using hlt), List.filter_cons_of_neg (by simpa using hlt),
        List.cons_append, ih]
    · have hall : ∀ y ∈ x :: xs, n ≤ f y := by
        refine List.forall_mem_cons.mpr ⟨Nat.le_of_not_lt hlt, fun y hy => ?_⟩
        exact (Nat.le_of_not_lt hlt).trans (hx y hy)
      have hlow : ((x :: xs).filter fun y => f y < n) = [] :=
        List.filter_eq_nil_iff.mpr fun y hy => by simpa using hall y hy
      have hhigh : ((x :: xs).filter fun y => n ≤ f y) = x :: xs :=
        List.filter_eq_self.mpr fun y hy => by simpa using hall y hy
      rw [hlow, hhigh, List.nil_append]

/-- What is in order is made up of the parts with equal values, in order. -/
theorem flatten_range_filter (hsorted : xs.Pairwise fun x y => f x ≤ f y)
    (hlt : ∀ x ∈ xs, f x < n) :
    ((List.range n).map fun i => xs.filter fun x => f x = i).flatten = xs := by
  induction n generalizing xs with
  | zero =>
    rw [List.eq_nil_iff_forall_not_mem.mpr fun x hx => Nat.not_lt_zero _ (hlt x hx)]
    rfl
  | succ n ih =>
    have hlow := ih (hsorted.sublist List.filter_sublist : (xs.filter fun x => f x < n).Pairwise _)
      fun x hx => by simpa using (List.mem_filter.mp hx).2
    have hparts : ((List.range n).map fun i => (xs.filter fun x => f x < n).filter fun x => f x = i) =
        (List.range n).map fun i => xs.filter fun x => f x = i := by
      refine List.map_congr_left fun i hi => ?_
      have hi := List.mem_range.mp hi
      rw [List.filter_filter]
      refine List.filter_congr fun x _ => ?_
      by_cases hx : f x = i <;> simp [hx, hi]
    have hlast : (xs.filter fun x => f x = n) = xs.filter fun x => n ≤ f x := by
      refine List.filter_congr fun x hx => ?_
      have hx := hlt x hx
      rw [decide_eq_decide]
      omega
    rw [hparts] at hlow
    rw [List.range_succ, List.map_append, List.flatten_append, hlow, List.map_singleton,
      List.flatten_singleton, hlast, filter_append_filter_le hsorted]

end Sorted

theorem InTurn.pairwise_additions (h : p.InTurn) :
    p.additions.Pairwise fun a b => a.task ≤ b.task := by
  rw [additions, List.pairwise_filterMap]
  refine h.imp fun hle a ha b hb => ?_
  rwa [task_of_addition? ha, task_of_addition? hb]

/-- Tasks that run one after another add what they find in the order of the tasks. -/
theorem Filled.added_of_inTurn (hp : p.Filled) (hturn : p.InTurn) :
    p.added = (p.tasks.map fun t => t.found.toList).flatten := by
  rw [hp.map_found, added]
  conv_lhs => rw [← flatten_range_filter hturn.pairwise_additions hp.tasks]
  rw [List.map_flatten, List.map_map]
  rfl

/-! ## Ends -/

/-- A task comes to its end when it is left to run. -/
theorem exists_run_to_end (ht : p.tasks[i]? = some t) :
    ∃ (n : Nat) (acts : List Act) (t' : Task α) (r : Except RunError α),
      (p.run (List.replicate n (.step i))).tasks = p.tasks.set i t' ∧ t'.phase = .ended r ∧
        (p.run (List.replicate n (.step i))).history = p.history ++ acts.map (i, ·) := by
  have hfinite := t.phase.finite
  generalize hphase : t.phase = phase at hfinite
  induction hfinite generalizing p t with
  | intro phase _ ih =>
    obtain ⟨hi, hget⟩ := List.getElem?_eq_some_iff.mp ht
    rcases p.step_cases i with ⟨-, hended⟩ | ⟨u, hu, hstep⟩
    · obtain ⟨r, hr⟩ := hended t ht
      refine ⟨0, [], t, r, ?_, hr, (List.append_nil _).symm⟩
      rw [← hget, List.set_getElem_self]
      rfl
    · obtain rfl : t = u := Option.some.inj (ht.symm.trans hu)
      obtain ⟨act, t', hadvanced⟩ := hstep.exists_advanced
      have ht' : (p.step i).tasks[i]? = some t' := by
        rw [hadvanced.tasks, List.getElem?_set_self hi]
      obtain ⟨n, acts, t'', r, htasks, hr, hhistory⟩ := ih _ (hphase ▸ hadvanced.next) ht' rfl
      refine ⟨n + 1, act :: acts, t'', r, ?_, hr, ?_⟩
      · rw [List.replicate_succ]
        exact htasks.trans (by rw [hadvanced.tasks, List.set_set])
      · rw [List.replicate_succ]
        refine hhistory.trans ?_
        rw [hadvanced.history, List.append_assoc]
        rfl

structure EndedInTurn (p : Pool α) (m : Nat) : Prop where
  ended : ∀ (i : Nat) (t : Task α), i < m → p.tasks[i]? = some t → ∃ r, t.phase = .ended r
  turn : p.InTurn
  begun : ∀ x ∈ p.history, x.1 < m

theorem EndedInTurn.exists_run {m : Nat} (hp : p.EndedInTurn m) :
    ∃ n, (p.run (List.replicate n (.step m))).EndedInTurn (m + 1) := by
  cases ht : p.tasks[m]? with
  | none =>
    refine ⟨0, fun i t hi ht' => ?_, hp.turn, fun x hx => Nat.lt_succ_of_lt (hp.begun x hx)⟩
    rcases Nat.lt_succ_iff_lt_or_eq.mp hi with hi | rfl
    · exact hp.ended i t hi ht'
    · cases ht.symm.trans ht'
  | some t =>
    obtain ⟨n, acts, t', r, htasks, hr, hhistory⟩ := exists_run_to_end ht
    refine ⟨n, fun i u hi hu => ?_, ?_, ?_⟩
    · rw [htasks] at hu
      rcases eq_or_of_getElem?_set hu with ⟨-, rfl⟩ | ⟨hne, hu⟩
      · exact ⟨r, hr⟩
      · exact hp.ended i u (by omega) hu
    · rw [InTurn, hhistory, List.pairwise_append]
      refine ⟨hp.turn, List.pairwise_map.mpr (List.pairwise_of_forall fun _ _ => le_rfl), ?_⟩
      intro x hx y hy
      obtain ⟨act, -, rfl⟩ := List.mem_map.mp hy
      exact (hp.begun x hx).le
    · rw [hhistory, List.forall_mem_append, List.forall_mem_map]
      exact ⟨fun x hx => Nat.lt_succ_of_lt (hp.begun x hx), fun _ _ => Nat.lt_succ_self m⟩

theorem exists_schedule_in_turn (hnone : p.history = []) (m : Nat) :
    ∃ schedule : List Nat, (p.run (schedule.map .step)).EndedInTurn m := by
  induction m with
  | zero =>
    refine ⟨[], fun i t hi _ => absurd hi (Nat.not_lt_zero i), ?_, ?_⟩
    · change p.history.Pairwise _
      rw [hnone]
      exact .nil
    · change ∀ x ∈ p.history, _
      simp [hnone]
  | succ m ih =>
    obtain ⟨schedule, hended⟩ := ih
    obtain ⟨n, hmore⟩ := hended.exists_run
    refine ⟨schedule ++ List.replicate n m, ?_⟩
    rwa [List.map_append, List.map_replicate, run_append]

end Pool

end PathGlob
