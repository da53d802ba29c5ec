import PathGlob.Lookup.Cache
import PathGlob.Proofs.Lookup.Oracle

/-!
# Runs through a cache

A cache in front of a computation answers like one oracle, the stored answers over those of the
computation, and goes on answering so whatever is looked up. A run through a cache is therefore the
run by that oracle, and its counts are told from the questions alone.
-/
namespace PathGlob

namespace Cache

/-- All stored answers are those of an oracle. -/
def Agrees (c : Cache) (o : Oracle) : Prop := ∀ q a, c.get? q = some a → o q = .ok a

def Extends (c d : Cache) : Prop := ∀ q a, c.get? q = some a → d.get? q = some a

/-- The stored answers, and those of an oracle where nothing is stored. -/
def answers (c : Cache) (o : Oracle) : Oracle := fun q =>
  match c.get? q with
  | some a => .ok a
  | none => o q

def lookups (compute : Oracle) (qs : List Query) (c : Cache) : Cache :=
  qs.foldl (fun c q => (c.lookup compute q).2) c

variable {c d : Cache} {o : Oracle} {q : Query}

@[simp] theorem get?_empty (q : Query) : empty.get? q = none :=
  Std.DHashMap.get?_empty

theorem agrees_empty (o : Oracle) : empty.Agrees o := by
  intro q a h
  simp at h

theorem answers_hit {a : q.Answer} (h : c.get? q = some a) : c.answers o q = .ok a := by
  simp [answers, h]

theorem answers_miss (h : c.get? q = none) : c.answers o q = o q := by simp [answers, h]

theorem answers_of_agrees (h : c.Agrees o) : c.answers o = o := by
  funext q
  cases hq : c.get? q with
  | some a => rw [answers_hit hq, h q a hq]
  | none => rw [answers_miss hq]

/-! ## One lookup -/

theorem lookup_hit {a : q.Answer} (h : c.get? q = some a) :
    c.lookup o q = (.ok a, { c with hits := c.hits + 1 }) := by
  simp [lookup, check, h]

theorem lookup_miss {a : q.Answer} (h : c.get? q = none) (ha : o q = .ok a) :
    c.lookup o q =
      (.ok a, { c with stored := c.stored.insert q a, misses := c.misses + 1 }) := by
  have hs : ({ c with misses := c.misses + 1 } : Cache).get? q = none := h
  simp [lookup, check, h, ha, store, hs]

theorem lookup_refused {e : NullInPath} (h : c.get? q = none) (he : o q = .error e) :
    c.lookup o q = (.error e, { c with misses := c.misses + 1 }) := by
  simp [lookup, check, h, he]

theorem lookup_fst (c : Cache) (o : Oracle) (q : Query) : (c.lookup o q).1 = c.answers o q := by
  cases h : c.get? q with
  | some a => rw [lookup_hit h, answers_hit h]
  | none =>
    rw [answers_miss h]
    cases ho : o q with
    | ok a => rw [lookup_miss h ho]
    | error e => rw [lookup_refused h ho]

theorem get?_lookup_of_ne {p : Query} (h : q ≠ p) : (c.lookup o q).2.get? p = c.get? p := by
  cases hq : c.get? q with
  | some a => rw [lookup_hit hq]; rfl
  | none =>
    cases ho : o q with
    | ok a =>
      rw [lookup_miss hq ho]
      simp [get?, Std.DHashMap.get?_insert, h]
    | error e => rw [lookup_refused hq ho]; rfl

theorem get?_lookup_self (c : Cache) (o : Oracle) (q : Query) :
    (c.lookup o q).2.get? q = (c.answers o q).toOption := by
  cases h : c.get? q with
  | some a =>
    rw [lookup_hit h, answers_hit h]
    exact h
  | none =>
    rw [answers_miss h]
    cases ho : o q with
    | ok a =>
      rw [lookup_miss h ho]
      exact Std.DHashMap.get?_insert_self
    | error e =>
      rw [lookup_refused h ho]
      exact h

theorem extends_lookup (c : Cache) (o : Oracle) (q : Query) : c.Extends (c.lookup o q).2 := by
  intro p a h
  by_cases hp : q = p
  · subst hp
    rw [get?_lookup_self, answers_hit h]
    rfl
  · rw [get?_lookup_of_ne hp, h]

/-- A lookup changes no later answer. -/
theorem answers_lookup (c : Cache) (o : Oracle) (q : Query) :
    (c.lookup o q).2.answers o = c.answers o := by
  funext p
  by_cases hp : q = p
  · subst hp
    have hs := get?_lookup_self c o q
    cases hq : c.answers o q with
    | ok a =>
      rw [hq] at hs
      exact answers_hit hs
    | error e =>
      rw [hq] at hs
      rw [answers_miss hs, ← hq]
      cases hc : c.get? q with
      | some a => rw [answers_hit hc] at hq; cases hq
      | none => rw [answers_miss hc]
  · simp only [answers, get?_lookup_of_ne hp]

theorem hits_add_misses_lookup (c : Cache) (o : Oracle) (q : Query) :
    (c.lookup o q).2.hits + (c.lookup o q).2.misses = c.hits + c.misses + 1 := by
  cases h : c.get? q with
  | some a => rw [lookup_hit h]; simp only; omega
  | none =>
    cases ho : o q with
    | ok a => rw [lookup_miss h ho]; simp only; omega
    | error e => rw [lookup_refused h ho]; simp only; omega

/-! ## Many lookups -/

theorem lookups_cons (o : Oracle) (q : Query) (qs : List Query) (c : Cache) :
    c.lookups o (q :: qs) = (c.lookup o q).2.lookups o qs := rfl

theorem lookups_append (o : Oracle) (qs rs : List Query) (c : Cache) :
    c.lookups o (qs ++ rs) = (c.lookups o qs).lookups o rs := by
  simp [lookups]

theorem Extends.refl (c : Cache) : c.Extends c := fun _ _ h => h

theorem Extends.trans {e : Cache} (h : c.Extends d) (h' : d.Extends e) : c.Extends e :=
  fun q a hq => h' q a (h q a hq)

theorem extends_lookups (o : Oracle) (qs : List Query) (c : Cache) :
    c.Extends (c.lookups o qs) := by
  induction qs generalizing c with
  | nil => exact .refl c
  | cons q qs ih => exact (extends_lookup c o q).trans (ih _)

theorem answers_lookups (o : Oracle) (qs : List Query) (c : Cache) :
    (c.lookups o qs).answers o = c.answers o := by
  induction qs generalizing c with
  | nil => rfl
  | cons q qs ih => rw [lookups_cons, ih, answers_lookup]

theorem hits_add_misses_lookups (o : Oracle) (qs : List Query) (c : Cache) :
    (c.lookups o qs).hits + (c.lookups o qs).misses = c.hits + c.misses + qs.length := by
  induction qs generalizing c with
  | nil => rfl
  | cons q qs ih =>
    have h := hits_add_misses_lookup c o q
    rw [lookups_cons, ih, List.length_cons]
    omega

theorem agrees_iff : c.Agrees o ↔ c.answers o = o := by
  constructor
  · exact answers_of_agrees
  · intro h q a hq
    rw [← h, answers_hit hq]

theorem agrees_lookups (h : c.Agrees o) (qs : List Query) : (c.lookups o qs).Agrees o := by
  rw [agrees_iff] at h ⊢
  rw [answers_lookups, h]

theorem extends_empty (c : Cache) : empty.Extends c := by
  intro q a h
  simp at h

/-- Looks questions up in order, each on a host of its own. -/
def lookupsOn (asks : List (Host × Query)) (c : Cache) : Cache :=
  asks.foldl (fun c x => (c.lookup x.1.answer x.2).2) c

theorem extends_lookupsOn (asks : List (Host × Query)) (c : Cache) :
    c.Extends (c.lookupsOn asks) := by
  induction asks generalizing c with
  | nil => exact .refl c
  | cons x asks ih => exact (extends_lookup c x.1.answer x.2).trans (ih _)

/-- What was answered once is answered ever after, whatever the computation is then. -/
theorem lookup_again {q : Query} {a : q.Answer} (h : (c.lookup o q).1 = .ok a)
    (hext : (c.lookup o q).2.Extends d) (o' : Oracle) : (d.lookup o' q).1 = .ok a := by
  have hstored : (c.lookup o q).2.get? q = some a := by
    rw [get?_lookup_self, ← lookup_fst, h]
    rfl
  rw [lookup_fst, answers_hit (hext q a hstored)]

/-! ## Computed answers -/

def missed (compute : Oracle) : List Query → Cache → List Query
  | [], _ => []
  | q :: qs, c =>
    let rest := missed compute qs (c.lookup compute q).2
    if c.get? q = none then q :: rest else rest

theorem misses_lookup (c : Cache) (o : Oracle) (q : Query) :
    (c.lookup o q).2.misses = c.misses + if c.get? q = none then 1 else 0 := by
  cases h : c.get? q with
  | some a => rw [lookup_hit h]; rfl
  | none =>
    cases ho : o q with
    | ok a => rw [lookup_miss h ho]; rfl
    | error e => rw [lookup_refused h ho]; rfl

theorem misses_lookups (o : Oracle) (qs : List Query) (c : Cache) :
    (c.lookups o qs).misses = c.misses + (missed o qs c).length := by
  induction qs generalizing c with
  | nil => rfl
  | cons q qs ih =>
    rw [lookups_cons, ih, misses_lookup, missed]
    split
    · rw [List.length_cons]
      omega
    · rfl

theorem answered_lookup {qs : List Query} (h : ∀ q ∈ qs, ∃ a, c.answers o q = .ok a) (p : Query) :
    ∀ q ∈ qs, ∃ a, (c.lookup o p).2.answers o q = .ok a := by
  rw [answers_lookup]
  exact h

/-- If all questions are answered, those are handed on for which nothing was stored before. -/
theorem mem_missed {qs : List Query} (h : ∀ q ∈ qs, ∃ a, c.answers o q = .ok a) {p : Query} :
    p ∈ missed o qs c ↔ p ∈ qs ∧ c.get? p = none := by
  induction qs generalizing c with
  | nil => simp [missed]
  | cons q qs ih =>
    have hrest := ih (answered_lookup (fun p hp => h p (List.mem_cons_of_mem _ hp)) q)
    obtain ⟨a, ha⟩ := h q List.mem_cons_self
    have hself : (c.lookup o q).2.get? q = some a := by
      rw [get?_lookup_self, ha]
      rfl
    -- The first question is stored from then on, and no other is changed.
    by_cases hp : q = p
    · subst hp
      rw [missed]
      split <;> simp_all
    · have hsame := get?_lookup_of_ne (c := c) (o := o) hp
      rw [missed]
      split <;> simp [hrest, hsame, Ne.symm hp]

theorem nodup_missed {qs : List Query} (h : ∀ q ∈ qs, ∃ a, c.answers o q = .ok a) :
    (missed o qs c).Nodup := by
  induction qs generalizing c with
  | nil => exact List.nodup_nil
  | cons q qs ih =>
    have hanswered := answered_lookup (fun p hp => h p (List.mem_cons_of_mem _ hp)) q
    obtain ⟨a, ha⟩ := h q List.mem_cons_self
    rw [missed]
    split
    · refine List.nodup_cons.mpr ⟨fun hmem => ?_, ih hanswered⟩
      have hnone := ((mem_missed hanswered).mp hmem).2
      rw [get?_lookup_self, ha] at hnone
      cases hnone
    · exact ih hanswered

theorem length_missed {qs : List Query} (h : ∀ q ∈ qs, ∃ a, c.answers o q = .ok a) :
    (missed o qs c).length = (qs.toFinset.filter fun q => c.get? q = none).card := by
  rw [← List.toFinset_card_of_nodup (nodup_missed h)]
  congr 1
  ext q
  simp [mem_missed h]

end Cache

/-! ## Scripts -/

namespace Script

variable {α : Type}

def asked {σ : Type} (answer : (q : Query) → σ → Except NullInPath q.Answer × σ) :
    Script α → σ → List Query
  | .done _, _ => []
  | .fail _, _ => []
  | .report _ next, s => next.asked answer s
  | .ask q next, s =>
    q :: match answer q s with
      | (.ok a, s) => (next a).asked answer s
      | (.error _, _) => []

def questions (o : Oracle) (s : Script α) : List Query := s.asked (fun q _ => (o q, ())) ()

theorem questions_ask (o : Oracle) (q : Query) (next : q.Answer → Script α) :
    (ask q next).questions o = q :: match o q with
      | .ok a => (next a).questions o
      | .error _ => [] := by
  unfold questions
  rw [asked]
  cases o q <;> rfl

/-- A run that looks no null character up has all its questions answered. -/
theorem answered_of_questions {o : Oracle} {s : Script α} (h : s.outcome o ≠ .error .null) :
    ∀ q ∈ s.questions o, ∃ a, o q = .ok a := by
  induction s with
  | done a => intro q hq; cases hq
  | fail e => intro q hq; cases hq
  | report e next ih => exact ih h
  | ask q next ih =>
    rw [outcome_ask] at h
    rw [questions_ask]
    cases hq : o q with
    | ok a =>
      simp only [hq] at h ⊢
      intro p hp
      rcases List.mem_cons.mp hp with rfl | hp
      · exact ⟨a, hq⟩
      · exact ih a h p hp
    | error e => simp [hq] at h

/-- A run through a cache is a run by an oracle; what it leaves behind is the cache after the
lookups of that run. -/
theorem run_lookup (o : Oracle) (s : Script α) (c : Cache) :
    s.run (fun q c => c.lookup o q) c =
      ⟨s.events (c.answers o), s.outcome (c.answers o), c.lookups o (s.questions (c.answers o))⟩ := by
  -- The cache changes with each question, but not the oracle that it makes up with `o`.
  induction s generalizing c with
  | done a => rfl
  | fail e => rfl
  | report e next ih => rw [run, ih c]; rfl
  | ask q next ih =>
    have hfst := c.lookup_fst o q
    have hans := c.answers_lookup o q
    rw [run, outcome_ask, questions_ask, Cache.lookups_cons]
    rcases hl : c.lookup o q with ⟨answer, d⟩
    rw [hl] at hfst hans
    simp only at hfst hans
    cases answer with
    | ok a =>
      rw [events_ask next hfst.symm, ← hfst]
      simp only [ih a d, hans]
    | error e =>
      have hev : (ask q next).events (c.answers o) = [] := by
        unfold events runWith
        rw [run, ← hfst]
      rw [hev, ← hfst]
      rfl

theorem asked_lookup (o : Oracle) (s : Script α) (c : Cache) :
    s.asked (fun q c => c.lookup o q) c = s.questions (c.answers o) := by
  induction s generalizing c with
  | done a => rfl
  | fail e => rfl
  | report e next ih => exact ih c
  | ask q next ih =>
    have hfst := c.lookup_fst o q
    have hans := c.answers_lookup o q
    rw [asked, questions_ask]
    rcases hl : c.lookup o q with ⟨answer, d⟩
    rw [hl] at hfst hans
    simp only at hfst hans
    cases answer with
    | ok a => simp only [← hfst, ih a d, hans]
    | error e => simp only [← hfst]

end Script

end PathGlob
