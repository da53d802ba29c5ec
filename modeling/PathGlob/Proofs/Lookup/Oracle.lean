import Mathlib
import PathGlob.Lookup.Script

/-!
# Runs by an oracle

An oracle answers each question in one way. What a script that is run by an oracle reports and how
it ends is told from its parts.
-/
namespace PathGlob

/-- Answers that depend on the question alone. -/
abbrev Oracle := (q : Query) → Except NullInPath q.Answer

namespace Oracle

def isDirectory (o : Oracle) (path : String) : Bool :=
  match o (.stat path) with
  | .ok s => s.any fun s => s.kind = .directory
  | .error _ => false

def isThere (o : Oracle) (path : String) : Bool :=
  match o (.lstat path) with
  | .ok s => s.isSome
  | .error _ => false

def identity (o : Oracle) (path : String) : Option Identity :=
  match o (.stat path) with
  | .ok s => s.map Status.identity
  | .error _ => none

/-- The entries of a directory; none if it cannot be read. -/
def entries (o : Oracle) (dir : String) : List Entry :=
  match o (.list dir) with
  | .ok (.ok es) => es
  | _ => []

variable {o : Oracle} {path : String}

theorem isDirectory_eq_true :
    o.isDirectory path = true ↔ ∃ s, o (.stat path) = .ok (some s) ∧ s.kind = .directory := by
  unfold isDirectory
  rcases o (.stat path) with n | (_ | s) <;> simp

theorem identity_eq_some {id : Identity} :
    o.identity path = some id ↔ ∃ s, o (.stat path) = .ok (some s) ∧ s.identity = id := by
  unfold identity
  rcases o (.stat path) with n | (_ | s) <;> simp

/-- Two oracles that tell the same of every path, though perhaps not of what is in it. -/
structure SameStatus (o o' : Oracle) : Prop where
  stat : ∀ p, o' (.stat p) = o (.stat p)
  lstat : ∀ p, o' (.lstat p) = o (.lstat p)

namespace SameStatus

variable {o' : Oracle}

theorem symm (hsame : o.SameStatus o') : o'.SameStatus o :=
  ⟨fun p => (hsame.stat p).symm, fun p => (hsame.lstat p).symm⟩

theorem isDirectory (hsame : o.SameStatus o') (path : String) :
    o'.isDirectory path = o.isDirectory path := by
  rw [Oracle.isDirectory, Oracle.isDirectory, hsame.stat]

theorem isThere (hsame : o.SameStatus o') (path : String) : o'.isThere path = o.isThere path := by
  rw [Oracle.isThere, Oracle.isThere, hsame.lstat]

theorem identity (hsame : o.SameStatus o') (path : String) :
    o'.identity path = o.identity path := by
  rw [Oracle.identity, Oracle.identity, hsame.stat]

end SameStatus

end Oracle

namespace Script

variable {α β : Type}

def runWith (o : Oracle) (s : Script α) : Run Unit α := s.run (fun q _ => (o q, ())) ()

def outcome (o : Oracle) (s : Script α) : Except RunError α := (s.runWith o).result

def events (o : Oracle) (s : Script α) : List Event := (s.runWith o).events

def Finds (o : Oracle) (s : Script α) (path : String) : Prop := .found path ∈ s.events o

def FailsOnly (o : Oracle) (allowed : RunError → Prop) (s : Script α) : Prop :=
  ∀ e, s.outcome o = .error e → allowed e

variable {o : Oracle} {allowed : RunError → Prop} {path : String}

theorem bind_eq (s : Script α) (f : α → Script β) : (s >>= f) = s.bind f := rfl

theorem pure_eq (a : α) : (pure a : Script α) = .done a := rfl

/-! ## Outcomes -/

@[simp] theorem outcome_done (a : α) : (done a).outcome o = .ok a := rfl

@[simp] theorem outcome_fail (e : WalkError) :
    (fail e : Script α).outcome o = .error (.walk e) := rfl

@[simp] theorem outcome_report (e : Event) (next : Script α) :
    (report e next).outcome o = next.outcome o := rfl

theorem outcome_ask (q : Query) (next : q.Answer → Script α) :
    (ask q next).outcome o = match o q with
      | .ok a => (next a).outcome o
      | .error _ => .error .null := by
  unfold outcome runWith
  rw [run]
  cases o q <;> rfl

theorem outcome_bind (s : Script α) (f : α → Script β) :
    (s.bind f).outcome o = (s.outcome o).bind fun a => (f a).outcome o := by
  induction s with
  | done a => rfl
  | fail e => rfl
  | report e next ih => exact ih
  | ask q next ih =>
    simp only [Script.bind, outcome_ask]
    cases o q with
    | ok a => exact ih a
    | error e => rfl

theorem outcome_bind_eq_ok {s : Script α} {f : α → Script β} {b : β} :
    (s.bind f).outcome o = .ok b ↔
      ∃ a, s.outcome o = .ok a ∧ (f a).outcome o = .ok b := by
  rw [outcome_bind]
  cases s.outcome o <;> simp [Except.bind]

theorem outcome_each_eq_ok {as : List α} {f : α → Script Unit} :
    (each as f).outcome o = .ok () ↔ ∀ a ∈ as, (f a).outcome o = .ok () := by
  induction as with
  | nil => simp [each, nothing]
  | cons a as ih =>
    rw [each, outcome_bind_eq_ok, ih, List.forall_mem_cons]
    constructor
    · rintro ⟨⟨⟩, ha, has⟩
      exact ⟨ha, has⟩
    · rintro ⟨ha, has⟩
      exact ⟨(), ha, has⟩

/-! ## Events -/

@[simp] theorem events_done (a : α) : (done a).events o = [] := rfl

@[simp] theorem events_fail (e : WalkError) : (fail e : Script α).events o = [] := rfl

@[simp] theorem events_report (e : Event) (next : Script α) :
    (report e next).events o = e :: next.events o := rfl

theorem events_ask {q : Query} {a : q.Answer} (next : q.Answer → Script α) (h : o q = .ok a) :
    (ask q next).events o = (next a).events o := by
  unfold events runWith
  rw [run]
  simp [h]

theorem events_bind {s : Script α} {f : α → Script β} {a : α} (h : s.outcome o = .ok a) :
    (s.bind f).events o = s.events o ++ (f a).events o := by
  induction s with
  | done b => cases h; rfl
  | fail e => simp at h
  | report e next ih => simp [Script.bind, ih h]
  | ask q next ih =>
    rw [outcome_ask] at h
    cases hq : o q with
    | ok b =>
      simp only [hq] at h
      rw [Script.bind, events_ask _ hq, events_ask _ hq]
      exact ih b h
    | error e => simp [hq] at h

@[simp] theorem not_finds_done (a : α) : ¬ (done a).Finds o path := by simp [Finds]

@[simp] theorem not_finds_nothing : ¬ nothing.Finds o path := by simp [Finds, nothing]

theorem finds_report {e : Event} {next : Script α} :
    (report e next).Finds o path ↔ .found path = e ∨ next.Finds o path := by
  simp [Finds]

theorem finds_bind {s : Script α} {f : α → Script β} {a : α} (h : s.outcome o = .ok a) :
    (s.bind f).Finds o path ↔ s.Finds o path ∨ (f a).Finds o path := by
  simp [Finds, events_bind h]

theorem finds_each {as : List α} {f : α → Script Unit} (h : (each as f).outcome o = .ok ()) :
    (each as f).Finds o path ↔ ∃ a ∈ as, (f a).Finds o path := by
  induction as with
  | nil => simp [each]
  | cons a as ih =>
    obtain ⟨u, ha, has⟩ := outcome_bind_eq_ok.mp h
    rw [each, finds_bind ha, ih has]
    simp

/-! ## Failures -/

theorem failsOnly_done (a : α) : (done a).FailsOnly o allowed := by
  intro e h
  cases h

theorem failsOnly_fail {e : WalkError} (h : allowed (.walk e)) :
    (fail e : Script α).FailsOnly o allowed := by
  intro e' h'
  cases h'
  exact h

theorem failsOnly_report {e : Event} {next : Script α} (h : next.FailsOnly o allowed) :
    (report e next).FailsOnly o allowed := h

theorem failsOnly_ask {q : Query} {next : q.Answer → Script α}
    (hnull : ∀ e, o q = .error e → allowed .null)
    (hnext : ∀ a, o q = .ok a → (next a).FailsOnly o allowed) :
    (ask q next).FailsOnly o allowed := by
  intro e h
  rw [outcome_ask] at h
  cases hq : o q with
  | ok a => exact hnext a hq e (by simpa [hq] using h)
  | error n =>
    simp only [hq, Except.error.injEq] at h
    exact h ▸ hnull n hq

theorem failsOnly_bind {s : Script α} {f : α → Script β} (hs : s.FailsOnly o allowed)
    (hf : ∀ a, s.outcome o = .ok a → (f a).FailsOnly o allowed) :
    (s.bind f).FailsOnly o allowed := by
  intro e h
  rw [outcome_bind] at h
  cases hr : s.outcome o with
  | ok a => exact hf a hr e (by simpa [hr, Except.bind] using h)
  | error e' =>
    simp only [hr, Except.bind, Except.error.injEq] at h
    exact h ▸ hs e' hr

theorem failsOnly_each {as : List α} {f : α → Script Unit}
    (h : ∀ a ∈ as, (f a).FailsOnly o allowed) : (each as f).FailsOnly o allowed := by
  induction as with
  | nil => exact failsOnly_done ()
  | cons a as ih =>
    apply failsOnly_bind (h a (by simp))
    intro _ _
    exact ih fun b hb => h b (by simp [hb])

theorem outcome_eq_ok {s : Script Unit} (h : s.FailsOnly o fun _ => False) :
    s.outcome o = .ok () := by
  cases hs : s.outcome o with
  | ok _ => rfl
  | error e => exact (h e hs).elim

end Script

end PathGlob
