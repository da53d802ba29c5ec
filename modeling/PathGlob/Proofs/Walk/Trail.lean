import PathGlob.Proofs.Lookup.Oracle
import PathGlob.Walk

/-!
# Trails

A trail is the way of a walk over the segments of an alternative, from spot to spot, told without
scripts, orders and depths. The main statement: a walk that ends well reports exactly what the ends
of its trails amount to.
-/
namespace PathGlob

structure Spot where
  path : String
  /-- The path as it is spelled. -/
  out : List String
  /-- Whether it is a directory, if a listing told. -/
  known : Option Bool
  /-- The directories in which globstars have chosen names so far, last first. -/
  entered : List Identity

namespace Spot

def slash (s : Spot) : Spot := { s with out := s.out ++ [""], known := none }

def child (s : Spot) (name : String) (known : Option Bool) : Spot :=
  { s with path := Path.child s.path name, out := s.out ++ [name], known := known }

def enter (o : Oracle) (s : Spot) : Spot :=
  { s with entered := (o.identity s.path).toList ++ s.entered }

def isDirectory (o : Oracle) (s : Spot) : Bool := s.known.getD (o.isDirectory s.path)

end Spot

namespace Walk

/-- Whether segments can be laid at a working directory itself: a bare one is no result. -/
def standsAlone : List Segment → Bool
  | [] => false
  | first :: _ => !first.isEmpty

def GoesOn (w : Walk) (o : Oracle) (rest : List Segment) (s : Spot) : Prop :=
  rest = [] ∨ s.isDirectory o = true ∧ w.ignored (spell s.out) true = false

structure Offers (w : Walk) (o : Oracle) (s : Spot) (e : Entry) : Prop where
  fresh : w.options.follow = true → ∃ id, o.identity s.path = some id ∧ id ∉ s.entered
  listed : e ∈ o.entries s.path
  visible : e.name.text.toList.head? = some '.' → w.options.dot = true

def descends (w : Walk) (e : Entry) : Bool := w.options.follow || !e.isLink

theorem isLink_of_descends {w : Walk} {e : Entry} (hf : w.options.follow = false)
    (hdown : w.descends e = true) : e.isLink = false := by
  simpa [descends, hf] using hdown

def chainBelow (w : Walk) (o : Oracle) (chain : Chain) (dir : String) : Option Chain :=
  if w.options.follow then
    (o.identity dir).bind fun id => if id ∈ chain then none else some (id :: chain)
  else some chain

/-- The names that a globstar stands for; `rest` is what is behind it. -/
inductive Sweeps (w : Walk) (o : Oracle) (rest : List Segment) : Spot → Spot → Prop
  | stay {s : Spot} (placed : s.out ≠ [] ∨ standsAlone rest = true) :
      Sweeps w o rest s { s with known := some true }
  | last {s : Spot} {e : Entry} (offered : w.Offers o s e)
      (final : (e.isDir && w.descends e) = false)
      (goes : w.GoesOn o rest ((s.enter o).child e.name.text (some e.isDir))) :
      Sweeps w o rest s ((s.enter o).child e.name.text (some e.isDir))
  | down {s t : Spot} {e : Entry} (offered : w.Offers o s e)
      (inner : (e.isDir && w.descends e) = true)
      (kept : w.ignored (spell (s.out ++ [e.name.text])) true = false)
      (more : Sweeps w o rest ((s.enter o).child e.name.text (some e.isDir)) t) :
      Sweeps w o rest s t

/-- The trails over segments, from one spot to another. -/
inductive Lays (w : Walk) (o : Oracle) : List Segment → Spot → Spot → Prop
  | nil (s : Spot) : Lays w o [] s s
  | empty {rest : List Segment} {s t : Spot} (dir : o.isDirectory s.path = true)
      (more : Lays w o rest s.slash t) : Lays w o (.empty :: rest) s t
  | literal {text name : String} {rest : List Segment} {s t : Spot}
      (there : o.isThere (Path.child s.path name) = true)
      (goes : w.GoesOn o rest (s.child name none))
      (more : Lays w o rest (s.child name none) t) : Lays w o (.literal text name :: rest) s t
  | magic {text : String} {mode : Wildcard.Mode} {tokens : List Wildcard.Token}
      {rest : List Segment} {s t : Spot} {e : Entry} (listed : e ∈ o.entries s.path)
      (accepted : Wildcard.accepts mode tokens e.name.text.toList = true)
      (goes : w.GoesOn o rest (s.child e.name.text (some e.isDir)))
      (more : Lays w o rest (s.child e.name.text (some e.isDir)) t) :
      Lays w o (.magic text mode tokens :: rest) s t
  | globstar {rest : List Segment} {s m t : Spot} (sweep : Sweeps w o rest s m)
      (more : Lays w o rest m t) : Lays w o (.globstar :: rest) s t

def shown (w : Walk) (o : Oracle) (path rel : String) (isDir : Bool) : Option String :=
  if w.options.realpath then
    match o (.realpath path) with
    | .ok r => r.map (w.marked isDir)
    | .error _ => none
  else if w.options.absolute && !w.alternative.isAbsolute then
    some (w.marked isDir (Path.absolute w.cwd rel))
  else some (w.marked isDir rel)

def emits (w : Walk) (o : Oracle) (s : Spot) : Option String :=
  if spell s.out = "" then none
  else if (w.options.nodir && s.isDirectory o) || w.ignored (spell s.out) (s.isDirectory o) then none
  else w.shown o s.path (spell s.out) (s.isDirectory o)

variable {w : Walk} {o : Oracle} {path r : String}

/-! ## Lookups -/

theorem outcome_isDirectory {b : Bool} (h : (isDirectory path).outcome o = .ok b) :
    o.isDirectory path = b := by
  rw [isDirectory, Script.outcome_ask] at h
  unfold Oracle.isDirectory
  cases hs : o (.stat path) <;> simp_all

theorem outcome_isThere {b : Bool} (h : (isThere path).outcome o = .ok b) :
    o.isThere path = b := by
  rw [isThere, Script.outcome_ask] at h
  unfold Oracle.isThere
  cases hs : o (.lstat path) <;> simp_all

theorem outcome_identity {i : Option Identity} (h : (identity path).outcome o = .ok i) :
    o.identity path = i := by
  rw [identity, Script.outcome_ask] at h
  unfold Oracle.identity
  cases hs : o (.stat path) <;> simp_all

theorem outcome_whetherDirectory {known : Option Bool} {b : Bool}
    (h : (whetherDirectory known path).outcome o = .ok b) :
    known.getD (o.isDirectory path) = b := by
  cases known with
  | some d => simpa [whetherDirectory, Script.pure_eq] using h
  | none => exact outcome_isDirectory h

theorem outcome_entries {es : List Entry} (h : (w.entries path).outcome o = .ok es) :
    o.entries path = es := by
  rw [entries, Script.outcome_ask] at h
  unfold Oracle.entries
  cases hs : o (.list path) with
  | error n => simp [hs] at h
  | ok a =>
    cases a with
    | ok es' => simpa [hs] using h
    | error e =>
      by_cases hr : path = w.root <;> simp [hs, hr] at h
      exact h.symm

theorem not_finds_lookup {α : Type} {q : Query} {f : q.Answer → α} :
    ¬ (Script.ask q fun a => .done (f a)).Finds o r := by
  intro h
  cases hq : o q with
  | ok a => simp [Script.Finds, Script.events_ask _ hq] at h
  | error e => simp [Script.Finds, Script.events, Script.runWith, Script.run, hq] at h

theorem not_finds_isDirectory : ¬ (isDirectory path).Finds o r := not_finds_lookup

theorem not_finds_isThere : ¬ (isThere path).Finds o r := not_finds_lookup

theorem not_finds_identity : ¬ (identity path).Finds o r := not_finds_lookup

theorem not_finds_whetherDirectory {known : Option Bool} :
    ¬ (whetherDirectory known path).Finds o r := by
  cases known with
  | some d => exact Script.not_finds_done d
  | none => exact not_finds_isDirectory

theorem not_finds_entries {es : List Entry} (h : (w.entries path).outcome o = .ok es) :
    ¬ (w.entries path).Finds o r := by
  rw [entries, Script.outcome_ask] at h
  cases hs : o (.list path) with
  | error n => simp [hs] at h
  | ok a =>
    unfold entries Script.Finds
    rw [Script.events_ask _ hs]
    cases a with
    | ok es' => simp
    | error e =>
      by_cases hr : path = w.root <;> simp [hr]

theorem outcome_display {rel : String} {d : Bool} {res : Option String}
    (h : (w.display path rel d).outcome o = .ok res) : w.shown o path rel d = res := by
  unfold display at h
  unfold shown
  split_ifs at h ⊢ with hr ha
  · rw [Script.outcome_ask] at h
    cases hq : o (.realpath path) <;> simp_all
  · simpa using h
  · simpa using h

theorem not_finds_display {rel : String} {d : Bool} : ¬ (w.display path rel d).Finds o r := by
  unfold display
  split_ifs
  · exact not_finds_lookup
  · exact Script.not_finds_done _
  · exact Script.not_finds_done _

/-! ## What a walk finds -/

theorem finds_found {s : Spot} (h : (w.found s.known s.path s.out).outcome o = .ok ()) :
    (w.found s.known s.path s.out).Finds o r ↔ w.emits o s = some r := by
  unfold found emits at *
  by_cases hrel : spell s.out = ""
  · simp [hrel]
  simp only [hrel, if_false, Script.bind_eq] at h ⊢
  obtain ⟨d, hd, h⟩ := Script.outcome_bind_eq_ok.mp h
  have hdir : s.isDirectory o = d := outcome_whetherDirectory hd
  rw [Script.finds_bind hd, or_iff_right not_finds_whetherDirectory, hdir]
  by_cases hskip : (w.options.nodir && d || w.ignored (spell s.out) d) = true
  · simp [hskip]
  simp only [hskip, Bool.false_eq_true, if_false] at h ⊢
  obtain ⟨res, hres, h⟩ := Script.outcome_bind_eq_ok.mp h
  rw [Script.finds_bind hres, or_iff_right not_finds_display, outcome_display hres]
  cases res <;> simp [Script.finds_report, eq_comm]

/-- What `next` finds at a spot is what the trails from there amount to. -/
def Exact (w : Walk) (o : Oracle) (rest : List Segment)
    (next : String → List String → Script Unit) (s : Spot) : Prop :=
  (next s.path s.out).outcome o = .ok () →
    ∀ r, (next s.path s.out).Finds o r ↔ ∃ t, w.Lays o rest s t ∧ w.emits o t = some r

theorem lays_nil_iff {s t : Spot} : w.Lays o [] s t ↔ t = s := by
  constructor
  · intro h
    cases h
    rfl
  · rintro rfl
    exact .nil t

theorem finds_descend {rest : List Segment} {next : String → List String → Script Unit}
    {s : Spot} (hnext : rest ≠ [] → w.Exact o rest next s)
    (h : (w.descend rest.isEmpty next s.known s.path s.out).outcome o = .ok ()) :
    (w.descend rest.isEmpty next s.known s.path s.out).Finds o r ↔
      w.GoesOn o rest s ∧ ∃ t, w.Lays o rest s t ∧ w.emits o t = some r := by
  unfold descend at *
  cases rest with
  | nil =>
    simp only [List.isEmpty_nil, if_true] at h ⊢
    simp [finds_found h, GoesOn, lays_nil_iff]
  | cons first rest =>
    simp only [List.isEmpty_cons, Bool.false_eq_true, if_false, Script.bind_eq] at h ⊢
    obtain ⟨d, hd, h⟩ := Script.outcome_bind_eq_ok.mp h
    have hdir : s.isDirectory o = d := outcome_whetherDirectory hd
    rw [Script.finds_bind hd, or_iff_right not_finds_whetherDirectory]
    by_cases hgo : (d && !w.ignored (spell s.out) true) = true
    · simp only [hgo, if_true] at h ⊢
      rw [hnext (by simp) h r]
      simp only [GoesOn, hdir]
      simp_all
    · simp only [hgo, Bool.false_eq_true, if_false]
      simp only [GoesOn, hdir]
      simp_all

/-- A globstar first stands for no name, and then for each entry that it may choose. -/
theorem lays_globstar_iff {rest : List Segment} {s t : Spot} :
    w.Lays o (.globstar :: rest) s t ↔
      (s.out ≠ [] ∨ standsAlone rest = true) ∧ w.Lays o rest { s with known := some true } t ∨
      ∃ e, w.Offers o s e ∧
        ((e.isDir && w.descends e) = true ∧
            w.ignored (spell (s.out ++ [e.name.text])) true = false ∧
            w.Lays o (.globstar :: rest) ((s.enter o).child e.name.text (some e.isDir)) t ∨
          (e.isDir && w.descends e) = false ∧
            w.GoesOn o rest ((s.enter o).child e.name.text (some e.isDir)) ∧
            w.Lays o rest ((s.enter o).child e.name.text (some e.isDir)) t) := by
  constructor
  · intro h
    cases h with
    | globstar sweep more =>
      cases sweep with
      | stay placed => exact .inl ⟨placed, more⟩
      | last offered final goes => exact .inr ⟨_, offered, .inr ⟨final, goes, more⟩⟩
      | down offered inner kept deeper =>
        exact .inr ⟨_, offered, .inl ⟨inner, kept, .globstar deeper more⟩⟩
  · rintro (⟨placed, more⟩ | ⟨e, offered, ⟨inner, kept, more⟩ | ⟨final, goes, more⟩⟩)
    · exact .globstar (.stay placed) more
    · cases more with
      | globstar deeper more => exact .globstar (.down offered inner kept deeper) more
    · exact .globstar (.last offered final goes) more

theorem finds_anchor {rest : List Segment} {next : String → List String → Script Unit} {s : Spot}
    (hnext : rest ≠ [] → w.Exact o rest next { s with known := some true })
    (h : (w.anchor rest next s.path s.out).outcome o = .ok ()) :
    (w.anchor rest next s.path s.out).Finds o r ↔
      (s.out ≠ [] ∨ standsAlone rest = true) ∧
        ∃ t, w.Lays o rest { s with known := some true } t ∧ w.emits o t = some r := by
  unfold anchor at *
  cases rest with
  | nil =>
    by_cases hout : s.out = []
    · simp [hout, standsAlone]
    · simp only [hout, if_false] at h ⊢
      rw [finds_found (s := { s with known := some true }) h]
      simp [lays_nil_iff, hout]
  | cons first rest =>
    by_cases hout : (s.out = [] && first.isEmpty) = true
    · simp only [hout, if_true]
      simp_all [standsAlone]
    · simp only [hout, Bool.false_eq_true, if_false] at h ⊢
      rw [hnext (by simp) h r]
      have hplaced : s.out ≠ [] ∨ standsAlone (first :: rest) = true := by
        by_cases ho : s.out = [] <;> simp_all [standsAlone]
      exact (and_iff_right hplaced).symm

/-! A globstar leaves out what is hidden, goes on inside what it goes down into, and else leaves it
to the rest whether to go on. -/

theorem pass_of_hidden {rest : List Segment} {deeper next : String → List String → Script Unit}
    {dir : String} {out : List String} {e : Entry}
    (hidden : ¬ (e.name.text.toList.head? = some '.' → w.options.dot = true)) :
    w.pass rest deeper next dir out e = .nothing := by
  have hdot : (decide (e.name.text.toList.head? = some '.') && !w.options.dot) = true := by
    simpa using hidden
  simp only [pass, hdot, if_true]

theorem pass_of_inner {rest : List Segment} {deeper next : String → List String → Script Unit}
    {dir : String} {out : List String} {e : Entry}
    (visible : e.name.text.toList.head? = some '.' → w.options.dot = true)
    (inner : (e.isDir && w.descends e) = true) :
    w.pass rest deeper next dir out e =
      if w.ignored (spell (out ++ [e.name.text])) true then .nothing
      else deeper (Path.child dir e.name.text) (out ++ [e.name.text]) := by
  have hdot : (decide (e.name.text.toList.head? = some '.') && !w.options.dot) = false := by
    simpa using visible
  obtain ⟨hdir, hdown⟩ := Bool.and_eq_true_iff.mp inner
  rw [descends] at hdown
  simp only [pass, hdot, hdir, hdown, Bool.false_eq_true, if_false, Bool.true_or, Bool.and_true,
    if_true]

theorem pass_of_final {rest : List Segment} {deeper next : String → List String → Script Unit}
    {dir : String} {out : List String} {e : Entry}
    (visible : e.name.text.toList.head? = some '.' → w.options.dot = true)
    (final : (e.isDir && w.descends e) = false) :
    w.pass rest deeper next dir out e =
      w.descend rest.isEmpty next (some e.isDir) (Path.child dir e.name.text)
        (out ++ [e.name.text]) := by
  have hdot : (decide (e.name.text.toList.head? = some '.') && !w.options.dot) = false := by
    simpa using visible
  simp only [pass, descend, hdot, Bool.false_eq_true, if_false]
  rw [descends] at final
  cases hdir : e.isDir with
  | false =>
    cases rest with
    | nil => rfl
    | cons first rest => rfl
  | true =>
    have hdown : (w.options.follow || !e.isLink) = false := by simpa [hdir] using final
    simp only [hdown, Bool.false_or, Bool.true_and]
    cases rest with
    | nil => rfl
    | cons first rest =>
      simp only [List.isEmpty_cons, Bool.not_false, if_true, Bool.false_eq_true, if_false,
        whetherDirectory, Script.bind_eq, Script.pure_eq, Script.bind, Bool.true_and]
      cases w.ignored (spell (out ++ [e.name.text])) true <;> rfl

theorem finds_pass {rest : List Segment} {deeper next : String → List String → Script Unit}
    {s s' : Spot} {e : Entry} (hs : s' = (s.enter o).child e.name.text (some e.isDir))
    (hdeeper : w.Exact o (.globstar :: rest) deeper s')
    (hnext : rest ≠ [] → w.Exact o rest next s')
    (h : (w.pass rest deeper next s.path s.out e).outcome o = .ok ()) :
    (w.pass rest deeper next s.path s.out e).Finds o r ↔
      (e.name.text.toList.head? = some '.' → w.options.dot = true) ∧
        ((e.isDir && w.descends e) = true ∧
            w.ignored (spell (s.out ++ [e.name.text])) true = false ∧
            (∃ t, w.Lays o (.globstar :: rest) s' t ∧ w.emits o t = some r) ∨
          (e.isDir && w.descends e) = false ∧ w.GoesOn o rest s' ∧
            ∃ t, w.Lays o rest s' t ∧ w.emits o t = some r) := by
  by_cases visible : e.name.text.toList.head? = some '.' → w.options.dot = true
  swap
  · simp [pass_of_hidden visible, visible]
  rw [and_iff_right visible]
  subst hs
  cases way : e.isDir && w.descends e with
  | true =>
    rw [pass_of_inner visible way] at h ⊢
    by_cases hig : w.ignored (spell (s.out ++ [e.name.text])) true = true
    · simp [hig]
    · simp only [hig, Bool.false_eq_true, if_false] at h ⊢
      refine (hdeeper h r).trans ?_
      simp
  | false =>
    rw [pass_of_final visible way] at h ⊢
    refine (finds_descend (s := (s.enter o).child e.name.text (some e.isDir)) hnext h).trans ?_
    simp

theorem outcome_enter {chain : Chain} {dir : String} {below : Option Chain}
    (h : (w.enter chain dir).outcome o = .ok below) : w.chainBelow o chain dir = below := by
  unfold enter at h
  unfold chainBelow
  by_cases hf : w.options.follow = true
  · simp only [hf, if_true, Script.bind_eq, Script.pure_eq] at h ⊢
    obtain ⟨i, hi, h⟩ := Script.outcome_bind_eq_ok.mp h
    rw [outcome_identity hi]
    simpa using h
  · simp only [hf, Bool.false_eq_true, if_false, Script.pure_eq] at h ⊢
    simpa using h

theorem not_finds_enter {chain : Chain} {dir : String} {below : Option Chain}
    (h : (w.enter chain dir).outcome o = .ok below) : ¬ (w.enter chain dir).Finds o r := by
  unfold enter at *
  by_cases hf : w.options.follow = true
  · simp only [hf, if_true, Script.bind_eq, Script.pure_eq] at h ⊢
    obtain ⟨i, hi, h⟩ := Script.outcome_bind_eq_ok.mp h
    rw [Script.finds_bind hi, or_iff_right not_finds_identity]
    exact Script.not_finds_done _
  · simp only [hf, Bool.false_eq_true, if_false, Script.pure_eq]
    exact Script.not_finds_done _

theorem fresh_of_chainBelow {chain below : Chain} {s : Spot}
    (hchain : w.options.follow = true → chain = s.entered)
    (h : w.chainBelow o chain s.path = some below) :
    (w.options.follow = true → ∃ id, o.identity s.path = some id ∧ id ∉ s.entered) ∧
      (w.options.follow = true → below = (s.enter o).entered) := by
  unfold chainBelow at h
  by_cases hf : w.options.follow = true
  · rw [if_pos hf, hchain hf] at h
    obtain ⟨id, hid, h⟩ := Option.bind_eq_some_iff.mp h
    by_cases hmem : id ∈ s.entered
    · simp [hmem] at h
    · rw [if_neg hmem, Option.some.injEq] at h
      refine ⟨fun _ => ⟨id, hid, hmem⟩, fun _ => ?_⟩
      simp [Spot.enter, hid, h]
  · exact ⟨fun hc => absurd hc hf, fun hc => absurd hc hf⟩

theorem not_offers_of_chainBelow {chain : Chain} {s : Spot} {e : Entry}
    (hchain : w.options.follow = true → chain = s.entered)
    (h : w.chainBelow o chain s.path = none) : ¬ w.Offers o s e := by
  intro offered
  unfold chainBelow at h
  by_cases hf : w.options.follow = true
  · obtain ⟨id, hid, hmem⟩ := offered.fresh hf
    simp [hf, hchain hf, hid, hmem] at h
  · simp [hf] at h

theorem finds_globstar {rest : List Segment}
    {next : Nat → Chain → String → List String → Script Unit}
    (hnext : ∀ depth chain s, rest ≠ [] → (w.options.follow = true → chain = s.entered) →
      w.Exact o rest (next depth chain) s)
    (depth : Nat) (chain : Chain) (s : Spot)
    (hchain : w.options.follow = true → chain = s.entered) :
    w.Exact o (.globstar :: rest) (w.globstar rest next depth chain) s := by
  induction depth generalizing chain s with
  | zero =>
    -- Too deep, so that it does not end well.
    intro h
    cases h
  | succ depth ih =>
    intro h r
    rw [globstar] at h ⊢
    simp only [Script.bind_eq] at h ⊢
    obtain ⟨⟨⟩, hanchor, h⟩ := Script.outcome_bind_eq_ok.mp h
    obtain ⟨below, henter, h⟩ := Script.outcome_bind_eq_ok.mp h
    have hbelow := outcome_enter henter
    rw [Script.finds_bind hanchor, Script.finds_bind henter, or_iff_right (not_finds_enter henter),
      finds_anchor (fun hne => hnext depth chain _ hne hchain) hanchor]
    rw [exists_congr fun t => and_congr_left' lays_globstar_iff]
    simp only [or_and_right, exists_or, and_assoc, exists_and_left]
    refine or_congr Iff.rfl ?_
    cases below with
    | none =>
      have hnone : ∀ e, ¬ w.Offers o s e := fun e => not_offers_of_chainBelow hchain hbelow
      simp [Script.finds_report, hnone]
    | some below =>
      obtain ⟨hfresh, hchain'⟩ := fresh_of_chainBelow hchain hbelow
      simp only at h ⊢
      obtain ⟨es, hes, h⟩ := Script.outcome_bind_eq_ok.mp h
      have hlisted : o.entries s.path = es := outcome_entries hes
      have hpass := Script.outcome_each_eq_ok.mp h
      rw [Script.finds_bind hes, or_iff_right (not_finds_entries hes), Script.finds_each h]
      have step : ∀ e ∈ es, _ ↔ _ := fun e he =>
        finds_pass (r := r) (s := s) rfl (ih below _ hchain')
          (fun hne => hnext depth below _ hne hchain') (hpass e he)
      constructor
      · rintro ⟨e, he, hfinds⟩
        obtain ⟨hvisible, hway⟩ := (step e he).mp hfinds
        have offered : w.Offers o s e := ⟨hfresh, hlisted ▸ he, hvisible⟩
        rcases hway with ⟨inner, kept, t, more, ht⟩ | ⟨final, goes, t, more, ht⟩
        · exact ⟨t, ⟨e, offered, .inl ⟨inner, kept, more⟩⟩, ht⟩
        · exact ⟨t, ⟨e, offered, .inr ⟨final, goes, more⟩⟩, ht⟩
      · rintro ⟨t, ⟨e, offered, hway⟩, ht⟩
        have he : e ∈ es := hlisted ▸ offered.listed
        refine ⟨e, he, (step e he).mpr ⟨offered.visible, ?_⟩⟩
        rcases hway with ⟨inner, kept, more⟩ | ⟨final, goes, more⟩
        · exact .inl ⟨inner, kept, t, more, ht⟩
        · exact .inr ⟨final, goes, t, more, ht⟩

/-! ## Segments -/

section

variable {rest : List Segment} {s t : Spot} {text name : String} {mode : Wildcard.Mode}
  {tokens : List Wildcard.Token} {depth : Nat} {chain : Chain}

theorem lays_empty_iff : w.Lays o (.empty :: rest) s t ↔
    o.isDirectory s.path = true ∧ w.Lays o rest s.slash t := by
  constructor
  · intro hlays
    cases hlays with
    | empty dir more => exact ⟨dir, more⟩
  · rintro ⟨dir, more⟩
    exact .empty dir more

theorem lays_literal_iff : w.Lays o (.literal text name :: rest) s t ↔
    o.isThere (Path.child s.path name) = true ∧ w.GoesOn o rest (s.child name none) ∧
      w.Lays o rest (s.child name none) t := by
  constructor
  · intro hlays
    cases hlays with
    | literal there goes more => exact ⟨there, goes, more⟩
  · rintro ⟨there, goes, more⟩
    exact .literal there goes more

theorem lays_magic_iff : w.Lays o (.magic text mode tokens :: rest) s t ↔
    ∃ e ∈ o.entries s.path, Wildcard.accepts mode tokens e.name.text.toList = true ∧
      w.GoesOn o rest (s.child e.name.text (some e.isDir)) ∧
      w.Lays o rest (s.child e.name.text (some e.isDir)) t := by
  constructor
  · intro hlays
    cases hlays with
    | magic listed accepted goes more => exact ⟨_, listed, accepted, goes, more⟩
  · rintro ⟨e, listed, accepted, goes, more⟩
    exact .magic listed accepted goes more

theorem exact_empty (hnext : w.Exact o rest (w.lay rest depth chain) s.slash) :
    w.Exact o (.empty :: rest) (w.lay (.empty :: rest) depth chain) s := by
  intro h r
  rw [lay] at h ⊢
  obtain ⟨d, hd, h⟩ := Script.outcome_bind_eq_ok.mp h
  rw [Script.bind_eq, Script.finds_bind hd, or_iff_right not_finds_isDirectory]
  simp only [lays_empty_iff, outcome_isDirectory hd]
  cases d with
  | false => simp
  | true =>
    rw [if_pos rfl] at h ⊢
    simp only [true_and]
    exact hnext h r

theorem exact_literal
    (hnext : rest ≠ [] → w.Exact o rest (w.lay rest depth chain) (s.child name none)) :
    w.Exact o (.literal text name :: rest) (w.lay (.literal text name :: rest) depth chain) s := by
  intro h r
  rw [lay] at h ⊢
  obtain ⟨d, hd, h⟩ := Script.outcome_bind_eq_ok.mp h
  rw [Script.bind_eq, Script.finds_bind hd, or_iff_right not_finds_isThere]
  simp only [lays_literal_iff, outcome_isThere hd]
  cases d with
  | false => simp
  | true =>
    rw [if_pos rfl] at h ⊢
    simp only [true_and, and_assoc, exists_and_left]
    exact finds_descend (s := s.child name none) hnext h

theorem exact_magic (hnext : ∀ e : Entry, rest ≠ [] →
      w.Exact o rest (w.lay rest depth chain) (s.child e.name.text (some e.isDir))) :
    w.Exact o (.magic text mode tokens :: rest)
      (w.lay (.magic text mode tokens :: rest) depth chain) s := by
  intro h r
  rw [lay] at h ⊢
  obtain ⟨es, hes, h⟩ := Script.outcome_bind_eq_ok.mp h
  have hnames := Script.outcome_each_eq_ok.mp h
  rw [Script.bind_eq, Script.finds_bind hes, or_iff_right (not_finds_entries hes),
    Script.finds_each h]
  simp only [lays_magic_iff, outcome_entries hes, ← exists_and_right, and_assoc]
  rw [exists_comm]
  simp only [exists_and_left]
  refine exists_congr fun e => and_congr_right fun he => ?_
  have hok := hnames e he
  by_cases hacc : Wildcard.accepts mode tokens e.name.text.toList = true
  · simp only [hacc, if_true, true_and] at hok ⊢
    exact finds_descend (s := s.child e.name.text (some e.isDir)) (hnext e) hok
  · simp [hacc]

end

/-- A walk over segments that ends well finds exactly what is at the ends of the trails. -/
theorem exact_lay (segs : List Segment) (depth : Nat) (chain : Chain) (s : Spot)
    (hknown : segs = [] → s.known = none)
    (hchain : w.options.follow = true → chain = s.entered) :
    w.Exact o segs (w.lay segs depth chain) s := by
  induction segs generalizing depth chain s with
  | nil =>
    intro h r
    rw [lay, ← hknown rfl] at h ⊢
    simp [finds_found h, lays_nil_iff]
  | cons first rest ih =>
    -- What is left goes on with the same chain, since only globstars enter directories.
    have hrest : ∀ name known, rest ≠ [] →
        w.Exact o rest (w.lay rest depth chain) (s.child name known) := fun name known hne =>
      ih depth chain _ (fun he => absurd he hne) hchain
    cases first with
    | empty => exact exact_empty (ih depth chain s.slash (fun _ => rfl) hchain)
    | literal text name => exact exact_literal (hrest name none)
    | magic text mode tokens => exact exact_magic fun e => hrest e.name.text (some e.isDir)
    | globstar =>
      intro h r
      rw [lay] at h ⊢
      exact finds_globstar (fun d c s' hne hc => ih d c s' (fun he => absurd he hne) hc)
        depth chain s hchain h r

/-! ## Components -/

section

variable {rest segs : List Segment} {s m t : Spot}

theorem out_of_sweeps (hsweep : w.Sweeps o rest s m) :
    s.out <+: m.out ∧ (m.out = s.out → m.known = some true) := by
  induction hsweep with
  | stay placed => exact ⟨List.prefix_refl _, fun _ => rfl⟩
  | last offered final goes =>
    exact ⟨List.prefix_append _ _, fun heq => by simp [Spot.child, Spot.enter] at heq⟩
  | @down s t e offered inner kept more ih =>
    have hlonger : s.out ++ [e.name.text] <+: t.out := ih.1
    refine ⟨(List.prefix_append _ _).trans hlonger, fun heq => ?_⟩
    have hlen := hlonger.length_le
    rw [heq, List.length_append, List.length_singleton] at hlen
    omega

/-- A trail goes on from the components before; if it adds none, it has told of a directory. -/
theorem out_of_lays (hlays : w.Lays o segs s t) :
    s.out <+: t.out ∧ (segs ≠ [] → t.out = s.out → t.isDirectory o = true) := by
  have hshort : ∀ {s : Spot} {c : String} {out : List String},
      s.out ++ [c] <+: out → out ≠ s.out := by
    rintro s c out hpre rfl
    have hlen := hpre.length_le
    rw [List.length_append, List.length_singleton] at hlen
    omega
  induction hlays with
  | nil => exact ⟨List.prefix_refl _, fun hne => absurd rfl hne⟩
  | empty dir more ih =>
    exact ⟨(List.prefix_append _ _).trans ih.1, fun _ heq => absurd heq (hshort ih.1)⟩
  | literal there goes more ih =>
    exact ⟨(List.prefix_append _ _).trans ih.1, fun _ heq => absurd heq (hshort ih.1)⟩
  | magic listed accepted goes more ih =>
    exact ⟨(List.prefix_append _ _).trans ih.1, fun _ heq => absurd heq (hshort ih.1)⟩
  | @globstar rest s m t sweep more ih =>
    obtain ⟨hpre, hknown⟩ := out_of_sweeps sweep
    refine ⟨hpre.trans ih.1, fun _ heq => ?_⟩
    have hm : m.out = s.out := (heq ▸ ih.1).eq_of_length_le hpre.length_le
    by_cases hrest : rest = []
    · subst hrest
      obtain rfl := lays_nil_iff.mp more
      simp [Spot.isDirectory, hknown hm]
    · exact ih.2 hrest (heq.trans hm.symm)

end

/-! ## Whole walks -/

def ahead (w : Walk) : List Segment :=
  if w.alternative.isAbsolute then w.alternative.segments.drop 1 else w.alternative.segments

def start (w : Walk) : Spot :=
  ⟨w.root, if w.alternative.isAbsolute then w.alternative.parts.take 1 else [], none, []⟩

theorem script_eq (w : Walk) (depth : Nat) :
    w.script depth = (isDirectory w.root).bind fun d =>
      if d then w.lay w.ahead depth [] w.start.path w.start.out else .fail (.notDirectory w.root) := by
  unfold script ahead start
  cases w.alternative.isAbsolute <;> rfl

theorem isDirectory_root_of_outcome {depth : Nat} (h : (w.script depth).outcome o = .ok ()) :
    o.isDirectory w.root = true := by
  rw [script_eq] at h
  obtain ⟨d, hd, h⟩ := Script.outcome_bind_eq_ok.mp h
  cases d with
  | true => exact outcome_isDirectory hd
  | false => simp at h

theorem isDirectory_root_of_finds {depth : Nat} (h : (w.script depth).Finds o r) :
    o.isDirectory w.root = true := by
  rw [script_eq] at h
  cases hq : o (.stat w.root) with
  | error e =>
    simp [Script.Finds, Script.events, Script.runWith, isDirectory, Script.bind, Script.run, hq] at h
  | ok s =>
    have hd : (isDirectory w.root).outcome o = .ok (s.any fun s => s.kind = .directory) := by
      rw [isDirectory, Script.outcome_ask, hq]
      rfl
    rw [Script.finds_bind hd, or_iff_right not_finds_isDirectory] at h
    rw [outcome_isDirectory hd]
    by_contra hno
    simp [hno, Script.Finds] at h

theorem finds_script {depth : Nat} (h : (w.script depth).outcome o = .ok ()) :
    (w.script depth).Finds o r ↔
      ∃ t, w.Lays o w.ahead w.start t ∧ w.emits o t = some r := by
  rw [script_eq] at h ⊢
  obtain ⟨d, hd, h⟩ := Script.outcome_bind_eq_ok.mp h
  rw [Script.finds_bind hd, or_iff_right not_finds_isDirectory]
  cases d with
  | true => exact exact_lay w.ahead depth [] w.start (fun _ => rfl) (fun _ => rfl) h r
  | false => simp at h

end Walk

end PathGlob
