import PathGlob.Lookup.Pool
import PathGlob.Proofs.Lookup.Memo
import PathGlob.Proofs.OrderedSet

/-!
# Runs of pools

Scripts that share a cache on a host that does not change: whichever takes the next step, each goes
on as the oracle tells that the first cache and the host make up. So each ends as it would alone.
-/
namespace PathGlob

namespace Cache

/-- The second cache has come out of the first on a host: stored answers are kept, and nothing is
answered in another way. -/
structure Grows (h : Host) (c d : Cache) : Prop where
  kept : c.Extends d
  answers : d.answers h.answer = c.answers h.answer

variable {h : Host} {c d : Cache} {q : Query}

theorem Grows.refl (h : Host) (c : Cache) : c.Grows h c := ⟨.refl c, rfl⟩

theorem Grows.lookups (hd : c.Grows h d) (qs : List Query) :
    c.Grows h (d.lookups h.answer qs) :=
  ⟨hd.kept.trans (extends_lookups _ qs d), (answers_lookups _ qs d).trans hd.answers⟩

theorem Grows.of_stored (hd : c.Grows h d) {d' : Cache} (hstored : d'.stored = d.stored) :
    c.Grows h d' := by
  have hget : d'.get? = d.get? := by
    funext q
    simp only [get?, hstored]
  refine ⟨fun q a hq => ?_, ?_⟩
  · rw [hget]
    exact hd.kept q a hq
  · rw [← hd.answers]
    funext q
    simp only [Cache.answers, hget]

theorem Grows.answer_of_hit (hd : c.Grows h d) {a : q.Answer} (hq : d.get? q = some a) :
    c.answers h.answer q = .ok a := by
  rw [← hd.answers, answers_hit hq]

theorem Grows.answer_of_miss (hd : c.Grows h d) (hq : d.get? q = none) :
    c.answers h.answer q = h.answer q := by
  rw [← hd.answers, answers_miss hq]

/-- Storing the right answer gives that answer and changes no other. -/
theorem Grows.store (hd : c.Grows h d) {a : q.Answer} (ha : c.answers h.answer q = .ok a) :
    (d.store q a).1 = a ∧ c.Grows h (d.store q a).2 := by
  unfold Cache.store
  cases hq : d.get? q with
  | some b =>
    have hb := hd.answer_of_hit hq
    rw [ha] at hb
    exact ⟨(Except.ok.inj hb).symm, hd⟩
  | none =>
    refine ⟨rfl, fun p b hp => ?_, ?_⟩
    · have hp' := hd.kept p b hp
      by_cases hpq : q = p
      · subst hpq
        rw [hq] at hp'
        cases hp'
      · simpa [get?, Std.DHashMap.get?_insert, hpq] using hp'
    · funext p
      by_cases hpq : q = p
      · subst hpq
        rw [ha]
        exact answers_hit Std.DHashMap.get?_insert_self
      · rw [← hd.answers]
        simp [Cache.answers, get?, Std.DHashMap.get?_insert, hpq]

end Cache

namespace Phase

variable {α : Type}

/-- What is left of a task reports some events and then ends with a result. -/
def Leaves (h : Host) (o : Oracle) : Phase α → List Event → Except RunError α → Prop
  | .ready s, es, r => s.events o = es ∧ s.outcome o = r
  | .missed q next, es, r =>
    o q = h.answer q ∧ (Script.ask q next).events o = es ∧ (Script.ask q next).outcome o = r
  | .computed q a next, es, r => o q = .ok a ∧ (next a).events o = es ∧ (next a).outcome o = r
  | .ended result, es, r => es = [] ∧ result = r

variable {h : Host} {c d : Cache} {es : List Event} {r : Except RunError α}

theorem runCached_of_grows (hd : c.Grows h d) {s : Script α}
    (hs : s.events (c.answers h.answer) = es ∧ s.outcome (c.answers h.answer) = r) :
    (s.runCached h d).events = es ∧ (s.runCached h d).result = r ∧
      c.Grows h (s.runCached h d).state := by
  rw [Script.runCached, Script.run_lookup, hd.answers]
  exact ⟨hs.1, hs.2, hd.lookups _⟩

theorem ask_of_answer {o : Oracle} {q : Query} {next : q.Answer → Script α} {a : q.Answer}
    (ha : o q = .ok a) (hev : (Script.ask q next).events o = es)
    (hout : (Script.ask q next).outcome o = r) :
    (next a).events o = es ∧ (next a).outcome o = r := by
  rw [Script.events_ask next ha] at hev
  rw [Script.outcome_ask, ha] at hout
  exact ⟨hev, hout⟩

theorem ask_of_refusal {o : Oracle} {q : Query} (next : q.Answer → Script α) {e : NullInPath}
    (he : o q = .error e) : (Script.ask q next).events o = [] ∧
      (Script.ask q next).outcome o = .error .null := by
  rw [Script.outcome_ask, he]
  refine ⟨?_, rfl⟩
  unfold Script.events Script.runWith
  rw [Script.run, he]

theorem Leaves.complete {phase : Phase α} (hl : phase.Leaves h (c.answers h.answer) es r)
    (hd : c.Grows h d) : (phase.complete h d).events = es ∧ (phase.complete h d).result = r ∧
      c.Grows h (phase.complete h d).state := by
  cases phase with
  | ready s => exact runCached_of_grows hd hl
  | missed q next =>
    obtain ⟨hq, hev, hout⟩ := hl
    cases ha : h.answer q with
    | ok a =>
      have hans : c.answers h.answer q = .ok a := hq.trans ha
      obtain ⟨hstore, hd'⟩ := hd.store hans
      simp only [Phase.complete, ha, hstore]
      exact runCached_of_grows hd' (ask_of_answer hans hev hout)
    | error e =>
      obtain ⟨hnone, hnull⟩ := ask_of_refusal next (hq.trans ha)
      simp only [Phase.complete, ha]
      exact ⟨hnone.symm.trans hev, hnull.symm.trans hout, hd⟩
  | computed q a next =>
    obtain ⟨ha, hl⟩ := hl
    obtain ⟨hstore, hd'⟩ := hd.store ha
    simp only [Phase.complete, hstore]
    exact runCached_of_grows hd' hl
  | ended result =>
    obtain ⟨rfl, rfl⟩ := hl
    exact ⟨rfl, rfl, hd⟩

end Phase

/-- A task has come out of a script: what it has found so far and what is left of it make up the
whole of the script's run. -/
def Task.Tracks {α : Type} (h : Host) (o : Oracle) (s : Script α) (t : Task α) : Prop :=
  ∃ before after, s.events o = before ++ after ∧ t.found.toList = Event.paths before ∧
    t.phase.Leaves h o after (s.outcome o)

namespace Pool

variable {α : Type}

inductive Stepped (p : Pool α) (i : Nat) (t : Task α) : Pool α → Prop
  | done {a : α} (phase : t.phase = .ready (.done a)) : Stepped p i t (p.stop i t (.ok a) .stop)
  | fail {e : WalkError} (phase : t.phase = .ready (.fail e)) :
      Stepped p i t (p.stop i t (.error (.walk e)) .stop)
  | report {e : Event} {next : Script α} (phase : t.phase = .ready (.report e next)) :
      Stepped p i t (p.report i t e next)
  | hit {q : Query} {next : q.Answer → Script α} {a : q.Answer}
      (phase : t.phase = .ready (.ask q next)) (stored : p.cache.get? q = some a) :
      Stepped p i t { p.put i t (.ready (next a)) (.hit q a) with
        cache := { p.cache with hits := p.cache.hits + 1 } }
  | miss {q : Query} {next : q.Answer → Script α} (phase : t.phase = .ready (.ask q next))
      (missing : p.cache.get? q = none) :
      Stepped p i t { p.put i t (.missed q next) (.miss q) with
        cache := { p.cache with misses := p.cache.misses + 1 } }
  | compute {q : Query} {next : q.Answer → Script α} {a : q.Answer}
      (phase : t.phase = .missed q next) (answer : p.host.answer q = .ok a) :
      Stepped p i t (p.put i t (.computed q a next) (.compute q a))
  | refuse {q : Query} {next : q.Answer → Script α} {e : NullInPath}
      (phase : t.phase = .missed q next) (refused : p.host.answer q = .error e) :
      Stepped p i t (p.stop i t (.error .null) (.refuse q))
  | store {q : Query} {next : q.Answer → Script α} {a : q.Answer}
      (phase : t.phase = .computed q a next) :
      Stepped p i t { p.put i t (.ready (next (p.cache.store q a).1))
          (.store q (p.cache.store q a).1) with cache := (p.cache.store q a).2 }

theorem step_cases (p : Pool α) (i : Nat) :
    p.step i = p ∧ (∀ t, p.tasks[i]? = some t → ∃ r, t.phase = .ended r) ∨
      ∃ t, p.tasks[i]? = some t ∧ p.Stepped i t (p.step i) := by
  unfold step
  cases ht : p.tasks[i]? with
  | none => exact .inl ⟨rfl, fun t h => by cases h⟩
  | some t =>
    obtain ⟨phase, found⟩ := t
    cases phase with
    | ended result =>
      refine .inl ⟨rfl, fun t h => ?_⟩
      cases h
      exact ⟨result, rfl⟩
    | ready s =>
      right
      refine ⟨_, rfl, ?_⟩
      cases s with
      | done a => exact .done rfl
      | fail e => exact .fail rfl
      | report e next => exact .report rfl
      | ask q next =>
        cases hq : p.cache.get? q with
        | some a =>
          simp only [Cache.check, hq]
          exact .hit rfl hq
        | none =>
          simp only [Cache.check, hq]
          exact .miss rfl hq
    | missed q next =>
      right
      refine ⟨_, rfl, ?_⟩
      cases ha : p.host.answer q with
      | ok a =>
        simp only [ha]
        exact .compute rfl ha
      | error e =>
        simp only [ha]
        exact .refuse rfl ha
    | computed q a next => exact .inr ⟨_, rfl, .store rfl⟩

/-- A member of a list with one place changed is the new one, or was at its place before. -/
theorem eq_or_of_getElem?_set {β : Type} {xs : List β} {i j : Nat} {x y : β}
    (h : (xs.set i x)[j]? = some y) : j = i ∧ y = x ∨ j ≠ i ∧ xs[j]? = some y := by
  rw [List.getElem?_set] at h
  split at h
  · next hij =>
    split at h
    · exact .inl ⟨hij.symm, (Option.some.inj h).symm⟩
    · cases h
  · next hij => exact .inr ⟨Ne.symm hij, h⟩

/-! ## What every run preserves -/

/-- Tasks that have come out of scripts on a host, with a cache that has come out of `c`. -/
structure Sound (h : Host) (c : Cache) (scripts : List (Script α)) (p : Pool α) : Prop where
  host : p.host = h
  grown : c.Grows h p.cache
  length : p.tasks.length = scripts.length
  tracks : ∀ (i : Nat) (s : Script α) (t : Task α), scripts[i]? = some s → p.tasks[i]? = some t →
    t.Tracks h (c.answers h.answer) s
  /-- All failures are those of scripts. -/
  failed : ∀ e ∈ p.failures, ∃ s ∈ scripts, s.outcome (c.answers h.answer) = .error e
  /-- No failure is lost. -/
  noticed : ∀ t ∈ p.tasks, ∀ e, t.phase = .ended (.error e) → p.failures ≠ []

variable {h : Host} {c : Cache} {scripts : List (Script α)} {p p' : Pool α} {i : Nat}
  {s : Script α} {t t' : Task α}

theorem Sound.exists_script (hp : p.Sound h c scripts) (ht : p.tasks[i]? = some t) :
    ∃ s, scripts[i]? = some s ∧ t.Tracks h (c.answers h.answer) s := by
  obtain ⟨hi, -⟩ := List.getElem?_eq_some_iff.mp ht
  rw [hp.length] at hi
  have hs : scripts[i]? = some scripts[i] := List.getElem?_eq_getElem hi
  exact ⟨_, hs, hp.tracks i _ t hs ht⟩

/-- One task is changed, and its failure is noted. -/
theorem Sound.update (hp : p.Sound h c scripts) (hs : scripts[i]? = some s)
    (ht' : t'.Tracks h (c.answers h.answer) s) (hhost : p'.host = p.host)
    (hgrown : c.Grows h p'.cache) (htasks : p'.tasks = p.tasks.set i t') (fs : List RunError)
    (hfailures : p'.failures = p.failures ++ fs)
    (hfailed : ∀ e ∈ fs, s.outcome (c.answers h.answer) = .error e)
    (hnoticed : ∀ e, t'.phase = .ended (.error e) → fs ≠ []) : p'.Sound h c scripts where
  host := hhost.trans hp.host
  grown := hgrown
  length := by rw [htasks, List.length_set, hp.length]
  tracks j s' u hs' hu := by
    rw [htasks] at hu
    rcases eq_or_of_getElem?_set hu with ⟨rfl, rfl⟩ | ⟨-, hu⟩
    · rw [hs, Option.some.injEq] at hs'
      rw [← hs']
      exact ht'
    · exact hp.tracks j s' u hs' hu
  failed e he := by
    rw [hfailures] at he
    rcases List.mem_append.mp he with he | he
    · exact hp.failed e he
    · exact ⟨s, List.mem_of_getElem? hs, hfailed e he⟩
  noticed u hu e he := by
    rw [htasks] at hu
    rw [hfailures]
    rcases List.mem_or_eq_of_mem_set hu with hu | rfl
    · have hne := hp.noticed u hu e he
      simp [hne]
    · have hne := hnoticed e he
      simp [hne]

/-- A task goes on, and what it was to report and its end stay the same. -/
theorem Sound.put (hp : p.Sound h c scripts) (ht : p.tasks[i]? = some t) (phase' : Phase α)
    (hphase : ∀ es r, t.phase.Leaves h (c.answers h.answer) es r →
      phase'.Leaves h (c.answers h.answer) es r)
    (hgoes : ∀ r, phase' ≠ .ended r) (hhost : p'.host = p.host) (hgrown : c.Grows h p'.cache)
    (htasks : p'.tasks = p.tasks.set i { t with phase := phase' })
    (hfailures : p'.failures = p.failures) : p'.Sound h c scripts := by
  obtain ⟨s, hs, before, after, hev, hpaths, hleft⟩ := hp.exists_script ht
  have htracks : Task.Tracks h (c.answers h.answer) s { t with phase := phase' } :=
    ⟨before, after, hev, hpaths, hphase _ _ hleft⟩
  exact hp.update hs htracks hhost hgrown htasks [] (by simpa using hfailures) (by simp)
    fun e he => absurd he (hgoes _)

theorem Sound.stop (hp : p.Sound h c scripts) (ht : p.tasks[i]? = some t)
    {result : Except RunError α} {act : Act}
    (hends : ∀ es r, t.phase.Leaves h (c.answers h.answer) es r → es = [] ∧ result = r) :
    (p.stop i t result act).Sound h c scripts := by
  obtain ⟨s, hs, before, after, hev, hpaths, hleft⟩ := hp.exists_script ht
  obtain ⟨hnone, hresult⟩ := hends _ _ hleft
  have htracks : Task.Tracks h (c.answers h.answer) s { t with phase := .ended result } :=
    ⟨before, after, hev, hpaths, hnone, hresult⟩
  refine hp.update hs htracks rfl hp.grown rfl (failureOf result) rfl ?_ ?_
  · rw [← hresult]
    cases result <;> simp [failureOf]
  · rintro e ⟨⟩
    simp [failureOf]

theorem Sound.report (hp : p.Sound h c scripts) (ht : p.tasks[i]? = some t) {e : Event}
    {next : Script α} (hphase : t.phase = .ready (.report e next)) :
    (p.report i t e next).Sound h c scripts := by
  obtain ⟨s, hs, before, after, hev, hpaths, hleft⟩ := hp.exists_script ht
  rw [hphase] at hleft
  obtain ⟨rfl, hout⟩ := hleft
  have hev' : s.events (c.answers h.answer) =
      (before ++ [e]) ++ next.events (c.answers h.answer) := by
    rw [hev, Script.events_report, List.append_assoc, List.singleton_append]
  have goes : ∀ found : OrderedSet, found.toList = Event.paths (before ++ [e]) →
      ∀ p' : Pool α, p'.host = p.host → p'.cache = p.cache →
        p'.tasks = p.tasks.set i ⟨.ready next, found⟩ → p'.failures = p.failures →
        p'.Sound h c scripts := by
    intro found hfound p' hhost hcache htasks hfailures
    have htracks : Task.Tracks h (c.answers h.answer) s ⟨.ready next, found⟩ :=
      ⟨_, _, hev', hfound, rfl, hout⟩
    exact hp.update hs htracks hhost (hcache ▸ hp.grown) htasks [] (by simpa using hfailures)
      (by simp) (by simp)
  cases e with
  | found path =>
    -- Whether or not the path is new to the task, its set is the one with the path added.
    have hadd := Event.toList_add_path hpaths path
    unfold Pool.report
    by_cases hold : path ∈ t.found.toList
    · have hsame : t.found.add path = (false, t.found) := by simp [OrderedSet.add, hold]
      rw [hsame] at hadd
      simp only [hsame, Bool.false_eq_true, if_false]
      exact goes _ hadd _ rfl rfl rfl rfl
    · have hnew : (t.found.add path).1 = true := by simp [OrderedSet.add, hold]
      simp only [hnew, if_true]
      exact goes _ hadd _ rfl rfl rfl rfl
  | loop dir =>
    exact goes t.found (hpaths.trans (Event.paths_append_of_not_found (by simp) _).symm) _ rfl rfl
      rfl rfl
  | unreadable dir error =>
    exact goes t.found (hpaths.trans (Event.paths_append_of_not_found (by simp) _).symm) _ rfl rfl
      rfl rfl

theorem Sound.of_stepped (hp : p.Sound h c scripts) (ht : p.tasks[i]? = some t)
    (hstep : p.Stepped i t p') : p'.Sound h c scripts := by
  have hhost := hp.host
  cases hstep with
  | done phase =>
    refine hp.stop ht fun es r hl => ?_
    rw [phase] at hl
    exact ⟨hl.1.symm, hl.2⟩
  | fail phase =>
    refine hp.stop ht fun es r hl => ?_
    rw [phase] at hl
    exact ⟨hl.1.symm, hl.2⟩
  | report phase => exact hp.report ht phase
  | @hit q next a phase stored =>
    refine hp.put ht (.ready (next a)) (fun es r hl => ?_) (by simp) rfl (hp.grown.of_stored rfl)
      rfl rfl
    rw [phase] at hl
    exact Phase.ask_of_answer (hp.grown.answer_of_hit stored) hl.1 hl.2
  | @miss q next phase missing =>
    refine hp.put ht (.missed q next) (fun es r hl => ?_) (by simp) rfl (hp.grown.of_stored rfl)
      rfl rfl
    rw [phase] at hl
    exact ⟨hp.grown.answer_of_miss missing, hl⟩
  | @compute q next a phase answer =>
    refine hp.put ht (.computed q a next) (fun es r hl => ?_) (by simp) rfl hp.grown rfl rfl
    rw [phase] at hl
    rw [hhost] at answer
    have ha := hl.1.trans answer
    exact ⟨ha, Phase.ask_of_answer ha hl.2.1 hl.2.2⟩
  | @refuse q next e phase refused =>
    refine hp.stop ht fun es r hl => ?_
    rw [phase] at hl
    rw [hhost] at refused
    obtain ⟨hnone, hnull⟩ := Phase.ask_of_refusal next (hl.1.trans refused)
    exact ⟨hl.2.1.symm.trans hnone, hnull.symm.trans hl.2.2⟩
  | @store q next a phase =>
    -- Another task may have stored its answer first, but that is the same one.
    obtain ⟨s, hs, before, after, hev, hpaths, hleft⟩ := hp.exists_script ht
    rw [phase] at hleft
    obtain ⟨hstore, hgrown⟩ := hp.grown.store hleft.1
    refine hp.put ht (.ready (next (p.cache.store q a).1)) (fun es r hl => ?_) (by simp) rfl hgrown
      rfl rfl
    rw [phase] at hl
    rw [hstore]
    exact hl.2

theorem Sound.step (hp : p.Sound h c scripts) (i : Nat) : (p.step i).Sound h c scripts := by
  rcases p.step_cases i with ⟨hsame, -⟩ | ⟨t, ht, hstep⟩
  · rw [hsame]
    exact hp
  · exact hp.of_stepped ht hstep

theorem Sound.run (hp : p.Sound h c scripts) (schedule : List Nat) :
    (p.run (schedule.map .step)).Sound h c scripts := by
  induction schedule generalizing p with
  | nil => exact hp
  | cons i rest ih => exact ih (hp.step i)

theorem sound_start (h : Host) (c : Cache) (scripts : List (Script α)) :
    (start h c scripts).Sound h c scripts where
  host := rfl
  grown := .refl h c
  length := List.length_map _
  tracks i s t hs ht := by
    simp only [start, List.getElem?_map, hs, Option.map_some, Option.some.injEq] at ht
    subst ht
    exact ⟨[], s.events _, rfl, rfl, rfl, rfl⟩
  failed e he := by cases he
  noticed t ht e he := by
    obtain ⟨s, -, rfl⟩ := List.mem_map.mp ht
    cases he

/-! ## Completion -/

structure Completed (p : Pool α) (i : Nat) (t : Task α) (p' : Pool α) : Prop where
  host : p'.host = p.host
  cache : p'.cache = (t.phase.complete p.host p.cache).state
  tasks : p'.tasks = p.tasks.set i
    ⟨.ended (t.phase.complete p.host p.cache).result,
      t.found.addAll (Event.paths (t.phase.complete p.host p.cache).events)⟩
  failures : p'.failures = p.failures ++ failureOf (t.phase.complete p.host p.cache).result

theorem complete_cases (p : Pool α) (i : Nat) :
    p.complete i = p ∧ (∀ t, p.tasks[i]? = some t → ∃ r, t.phase = .ended r) ∨
      ∃ t, p.tasks[i]? = some t ∧ p.Completed i t (p.complete i) := by
  unfold complete
  cases ht : p.tasks[i]? with
  | none => exact .inl ⟨rfl, fun t h => by cases h⟩
  | some t =>
    obtain ⟨phase, found⟩ := t
    cases phase with
    | ready s => exact .inr ⟨_, rfl, rfl, rfl, rfl, rfl⟩
    | missed q next => exact .inr ⟨_, rfl, rfl, rfl, rfl, rfl⟩
    | computed q a next => exact .inr ⟨_, rfl, rfl, rfl, rfl, rfl⟩
    | ended result =>
      refine .inl ⟨rfl, fun t h => ?_⟩
      cases h
      exact ⟨result, rfl⟩

theorem Sound.complete (hp : p.Sound h c scripts) (i : Nat) :
    (p.complete i).Sound h c scripts := by
  rcases p.complete_cases i with ⟨hsame, -⟩ | ⟨t, ht, hdone⟩
  · rw [hsame]
    exact hp
  · obtain rfl := hp.host
    obtain ⟨s, hs, before, after, hev, hpaths, hleft⟩ := hp.exists_script ht
    obtain ⟨hafter, hresult, hgrown⟩ := hleft.complete hp.grown
    have hfound : (t.found.addAll (Event.paths (t.phase.complete p.host p.cache).events)).toList =
        Event.paths (s.events (c.answers p.host.answer)) := by
      rw [hafter, hev]
      exact Event.toList_addAll_paths hpaths after
    refine hp.update hs ⟨_, [], (List.append_nil _).symm, hfound, ?_⟩ hdone.host
      (hdone.cache ▸ hgrown) hdone.tasks _ hdone.failures (fun e he => ?_) fun e he => ?_
    · exact ⟨rfl, hresult⟩
    · rw [hresult] at he
      cases hout : s.outcome (c.answers p.host.answer) with
      | ok a => simp [hout, failureOf] at he
      | error e' => simp_all [failureOf]
    · have herror : (t.phase.complete p.host p.cache).result = .error e := by simpa using he
      simp [herror, failureOf]

theorem ended_complete {j : Nat} (ht' : (p.complete i).tasks[j]? = some t')
    (hj : j = i ∨ ∀ t, p.tasks[j]? = some t → ∃ r, t.phase = .ended r) :
    ∃ r, t'.phase = .ended r := by
  rcases p.complete_cases i with ⟨hsame, hended⟩ | ⟨t, ht, hdone⟩
  · rw [hsame] at ht'
    rcases hj with rfl | hj
    · exact hended t' ht'
    · exact hj t' ht'
  · rw [hdone.tasks] at ht'
    rcases eq_or_of_getElem?_set ht' with ⟨-, rfl⟩ | ⟨hne, ht'⟩
    · exact ⟨_, rfl⟩
    · rcases hj with rfl | hj
      · exact absurd rfl hne
      · exact hj t' ht'

theorem ended_foldl_complete (is : List Nat) {j : Nat}
    (ht' : (is.foldl Pool.complete p).tasks[j]? = some t')
    (hj : j ∈ is ∨ ∀ t, p.tasks[j]? = some t → ∃ r, t.phase = .ended r) :
    ∃ r, t'.phase = .ended r := by
  induction is generalizing p with
  | nil =>
    rcases hj with hj | hj
    · cases hj
    · exact hj t' ht'
  | cons i is ih =>
    refine ih ht' ?_
    rcases hj with hj | hj
    · rcases List.mem_cons.mp hj with rfl | hj
      · exact .inr fun t ht => ended_complete ht (.inl rfl)
      · exact .inl hj
    · exact .inr fun t ht => ended_complete ht (.inr hj)

theorem Sound.foldl_complete (hp : p.Sound h c scripts) (is : List Nat) :
    (is.foldl Pool.complete p).Sound h c scripts := by
  induction is generalizing p with
  | nil => exact hp
  | cons i is ih => exact ih (hp.complete i)

theorem Sound.finish (hp : p.Sound h c scripts) : p.finish.Sound h c scripts :=
  hp.foldl_complete _

def Ended (p : Pool α) : Prop :=
  ∀ (i : Nat) (t : Task α), p.tasks[i]? = some t → ∃ r, t.phase = .ended r

/-- A task that has ended has found what its script finds, and has ended as its script ends. -/
theorem Sound.of_ended (hp : p.Sound h c scripts) (hended : p.Ended) (hs : scripts[i]? = some s)
    (ht : p.tasks[i]? = some t) : t.found.toList = Event.paths (s.events (c.answers h.answer)) ∧
      t.phase = .ended (s.outcome (c.answers h.answer)) := by
  obtain ⟨before, after, hev, hpaths, hleft⟩ := hp.tracks i s t hs ht
  obtain ⟨r, hr⟩ := hended i t ht
  rw [hr] at hleft ⊢
  obtain ⟨rfl, rfl⟩ := hleft
  rw [hev, List.append_nil]
  exact ⟨hpaths, rfl⟩

theorem Sound.map_found (hp : p.Sound h c scripts) (hended : p.Ended) :
    (p.tasks.map fun t => t.found.toList) =
      scripts.map fun s => Event.paths (s.events (c.answers h.answer)) := by
  apply List.ext_getElem?
  intro i
  rw [List.getElem?_map, List.getElem?_map]
  have hlength := hp.length
  cases ht : p.tasks[i]? with
  | none =>
    have hs : scripts[i]? = none := by
      rw [List.getElem?_eq_none_iff] at ht ⊢
      omega
    rw [hs]
    rfl
  | some t =>
    obtain ⟨s, hs, -⟩ := hp.exists_script ht
    rw [hs, Option.map_some, Option.map_some, (hp.of_ended hended hs ht).1]

theorem Sound.ended_finish (hp : p.Sound h c scripts) : p.finish.Ended := by
  intro i t ht
  have hi : i < p.tasks.length := by
    obtain ⟨hi, -⟩ := List.getElem?_eq_some_iff.mp ht
    rwa [hp.finish.length, ← hp.length] at hi
  exact ended_foldl_complete _ ht (.inl (List.mem_range.mpr hi))

/-- No failure is noted at the end only if no script fails. -/
theorem Sound.outcome_of_no_failure (hp : p.Sound h c scripts) (hnone : p.finish.failures = [])
    (hs : s ∈ scripts) : ∃ a, s.outcome (c.answers h.answer) = .ok a := by
  obtain ⟨i, hi, rfl⟩ := List.mem_iff_getElem.mp hs
  have hlength := hp.finish.length
  have hs' : scripts[i]? = some scripts[i] := List.getElem?_eq_getElem hi
  have ht := List.getElem?_eq_getElem (l := p.finish.tasks) (by omega : i < p.finish.tasks.length)
  cases hout : scripts[i].outcome (c.answers h.answer) with
  | ok a => exact ⟨a, rfl⟩
  | error e =>
    have hended := (hp.finish.of_ended hp.ended_finish hs' ht).2
    rw [hout] at hended
    exact absurd hnone (hp.finish.noticed _ (List.getElem_mem _) e hended)

end Pool

end PathGlob
