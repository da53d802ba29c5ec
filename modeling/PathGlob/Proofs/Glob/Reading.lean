import PathGlob.Proofs.Glob.Interleaving

/-!
# Reading patterns

Each pattern is read by itself: the numbers that its alternatives get are the only trace of the
patterns before it, and a walk does not look at them.
-/
namespace PathGlob

def Alternative.unnumbered (a : Alternative) : Alternative :=
  { a with index := 0, patternIndex := 0 }

/-- The options that walks look at; the others are for reading patterns and for merging. -/
def Options.ofWalks (o : Options) : Options where
  follow := o.follow
  dot := o.dot
  mark := o.mark
  nodir := o.nodir
  realpath := o.realpath
  absolute := o.absolute

namespace Walk

def core (w : Walk) : Walk :=
  { w with alternative := w.alternative.unnumbered, options := w.options.ofWalks }

def unnumbered (w : Walk) : Walk := { w with alternative := w.alternative.unnumbered }

variable (w : Walk)

theorem globstar_core (rest : List Segment)
    (next : Nat → Chain → String → List String → Script Unit) (depth : Nat) :
    w.core.globstar rest next depth = w.globstar rest next depth := by
  induction depth with
  | zero => rfl
  | succ depth ih =>
    funext chain dir out
    rw [globstar, globstar, ih]
    rfl

theorem lay_core (segs : List Segment) : w.core.lay segs = w.lay segs := by
  induction segs with
  | nil => rfl
  | cons first rest ih =>
    funext depth chain dir out
    cases first with
    | empty => rw [lay, lay, ih]
    | literal text name => rw [lay, lay, ih]; rfl
    | magic text mode tokens => rw [lay, lay, ih]; rfl
    | globstar => rw [lay, lay, ih, globstar_core]

theorem run_core (h : Host) (c : Cache) : w.core.run h c = w.run h c := by
  have hscript : ∀ depth, w.core.script depth = w.script depth := by
    intro depth
    rw [script_eq, script_eq, lay_core]
    rfl
  rw [run, hscript]
  rfl

theorem run_congr {w w' : Walk} (hcore : w.core = w'.core) (h : Host) (c : Cache) :
    w.run h c = w'.run h c := by
  rw [← run_core, hcore, run_core]

theorem run_unnumbered (h : Host) (c : Cache) : w.unnumbered.run h c = w.run h c := by
  have hcore : w.unnumbered.core = w.core := rfl
  exact run_congr hcore h c

end Walk

namespace Glob

/-- The alternatives that something given for a pattern stands for; `none` if it is refused. -/
def readings (o : Options) (drives : Bool) : Given → Option (List Alternative)
  | .text p => (Pattern.compile o drives 0 0 p).toOption.map (List.map Alternative.unnumbered)
  | .other _ => none

variable (o : Options) (drives : Bool)

theorem map_unnumbered_mapIdx (i n : Nat) (texts : List (List Char)) :
    (texts.mapIdx fun k cs => Pattern.readAlternative o drives i (n + k) cs).map
        Alternative.unnumbered =
      texts.map (Pattern.readAlternative o drives 0 0) := by
  apply List.ext_getElem?
  intro k
  simp only [List.getElem?_map, List.getElem?_mapIdx, Option.map_map]
  rfl

theorem compile_eq_ok {o : Options} {drives : Bool} {i n : Nat} {pattern : String}
    {as : List Alternative} :
    Pattern.compile o drives i n pattern = .ok as ↔ pattern.length ≤ Pattern.maxLength ∧
      ∃ texts, Pattern.expand o pattern = .ok texts ∧
        as = texts.mapIdx fun k cs => Pattern.readAlternative o drives i (n + k) cs := by
  unfold Pattern.compile
  by_cases hlong : pattern.length > Pattern.maxLength
  · simp [hlong]
  · cases Pattern.expand o pattern with
    | error e => simp [hlong, bind, Except.bind]
    | ok texts => simp [hlong, not_lt.mp hlong, bind, Except.bind, pure, Except.pure, eq_comm]

theorem compile_cases (i n : Nat) (p : String) :
    (∃ as, Pattern.compile o drives i n p = .ok as ∧
        readings o drives (.text p) = some (as.map Alternative.unnumbered)) ∨
      ∃ e, Pattern.compile o drives i n p = .error e ∧ readings o drives (.text p) = none := by
  unfold readings Pattern.compile
  by_cases hlong : p.length > Pattern.maxLength
  · simp only [if_pos hlong]
    exact .inr ⟨_, rfl, rfl⟩
  · simp only [if_neg hlong]
    cases Pattern.expand o p with
    | error e => exact .inr ⟨e, rfl, rfl⟩
    | ok texts =>
      refine .inl ⟨_, rfl, ?_⟩
      simp only [bind, Except.bind, pure, Except.pure, Except.toOption, Option.map_some,
        map_unnumbered_mapIdx]

/-- What is given is read from left to right, up to the first that is refused. -/
theorem compileAll_cases (given : List Given) (i n : Nat) :
    (∃ texts as, compileAll o drives i n given = .ok (texts, as) ∧
        (∀ p ∈ given, readings o drives p ≠ none) ∧
        as.map Alternative.unnumbered = given.flatMap fun p => (readings o drives p).getD []) ∨
      ∃ e, compileAll o drives i n given = .error e ∧ ∃ p ∈ given, readings o drives p = none := by
  induction given generalizing i n with
  | nil => exact .inl ⟨[], [], rfl, by simp, rfl⟩
  | cons p given ih =>
    cases p with
    | other kind => exact .inr ⟨_, rfl, _, List.mem_cons_self, rfl⟩
    | text p =>
      rw [compileAll]
      rcases compile_cases o drives i n p with ⟨as, has, hread⟩ | ⟨e, he, hread⟩
      · rcases ih (i + 1) (n + as.length) with
          ⟨texts, more, hmore, hall, heq⟩ | ⟨e, he, q, hq, hnone⟩
        · refine .inl ⟨p :: texts, as ++ more, ?_, ?_, ?_⟩
          · simp [has, hmore, bind, Except.bind, pure, Except.pure]
          · simpa [hread] using hall
          · simp [hread, heq]
        · refine .inr ⟨e, ?_, q, List.mem_cons_of_mem _ hq, hnone⟩
          simp [has, he, bind, Except.bind]
      · refine .inr ⟨e, ?_, _, List.mem_cons_self, hread⟩
        simp [he, bind, Except.bind]

/-- Options that make a glob of patterns, if these can be read, with the filter of ignored paths. -/
def Fits (o : Options) (backslashes : Bool) (f : Ignore.Filter) : Prop :=
  (o.matchBase && o.noglobstar) = false ∧
    Ignore.Filter.ofLines (settle o backslashes).ignore.toList = .ok f

/-- Where nothing is given to be ignored, nothing is. -/
theorem fits_iff_eq_none {o : Options} {backslashes : Bool} {f : Ignore.Filter}
    (hbase : o.matchBase = false) (hignore : o.ignore.toList = []) :
    Fits o backslashes f ↔ f = .none := by
  have hfilter : Ignore.Filter.ofLines (settle o backslashes).ignore.toList = .ok .none := by
    rw [settle, hignore]
    rfl
  rw [Fits, hbase, hfilter, Except.ok.injEq, eq_comm (b := f)]
  simp

theorem toSlashes_eq_self {p : String} (hp : '\\' ∉ p.toList) : toSlashes p = p := by
  have hmap : (p.toList.map fun c => if c = '\\' then '/' else c) = p.toList := by
    refine (List.map_congr_left fun c hc => ?_).trans (List.map_id _)
    exact if_neg (ne_of_mem_of_not_mem hc hp)
  rw [toSlashes, hmap, String.ofList_toList]

theorem prepare_eq_self {o : Options} (hno : o.noEscape = false) (hbase : o.matchBase = false)
    (given : List Given) : prepare o given = given := by
  simp [prepare, hno, hbase]

def alternativesOf (o : Options) (backslashes : Bool) (given : List Given) : List Alternative :=
  (prepare o given).flatMap fun p => (readings (settle o backslashes) backslashes p).getD []

def Readable (o : Options) (backslashes : Bool) (given : List Given) : Prop :=
  ∀ p ∈ prepare o given, readings (settle o backslashes) backslashes p ≠ none

theorem make_eq_ok {o : Options} {backslashes : Bool} {given : List Given} {g : Glob} :
    make o backslashes given = .ok g ↔
      Fits o backslashes g.ignore ∧ g.options = settle o backslashes ∧
        compileAll (settle o backslashes) backslashes 0 0 (prepare o given) =
          .ok (g.patterns, g.alternatives) := by
  unfold make Fits
  cases hbase : o.matchBase && o.noglobstar with
  | true => simp [throw, throwThe, MonadExceptOf.throw, bind, Except.bind]
  | false =>
    cases hcompile : compileAll (settle o backslashes) backslashes 0 0 (prepare o given) with
    | error e => simp [hcompile, bind, Except.bind, Except.mapError]
    | ok read =>
      cases hignore : Ignore.Filter.ofLines (settle o backslashes).ignore.toList with
      | error e => simp [hcompile, hignore, bind, Except.bind, Except.mapError]
      | ok f =>
        simp only [hcompile, hignore, bind, Except.bind, pure, Except.pure, Except.mapError,
          Except.ok.injEq, Bool.false_eq_true, if_false, true_and]
        constructor
        · rintro rfl
          exact ⟨rfl, rfl, rfl⟩
        · rintro ⟨hf, hoptions, hread⟩
          rw [hf, hread, ← hoptions]

/-- A glob is made if all patterns are read and the options fit. -/
theorem make_cases (o : Options) (backslashes : Bool) (given : List Given) :
    (∃ g, make o backslashes given = .ok g ∧ Fits o backslashes g.ignore ∧
        Readable o backslashes given ∧ g.options = settle o backslashes ∧
        g.alternatives.map Alternative.unnumbered = alternativesOf o backslashes given) ∨
      ∃ e, make o backslashes given = .error e ∧
        ((∀ f, ¬ Fits o backslashes f) ∨ ¬ Readable o backslashes given) := by
  have hread := compileAll_cases (settle o backslashes) backslashes (prepare o given) 0 0
  cases hmake : make o backslashes given with
  | ok g =>
    obtain ⟨hfits, hoptions, hcompile⟩ := make_eq_ok.mp hmake
    rcases hread with ⟨texts, as, has, hall, heq⟩ | ⟨e, he, -⟩
    · rw [has] at hcompile
      cases hcompile
      exact .inl ⟨g, rfl, hfits, hall, hoptions, heq⟩
    · rw [he] at hcompile
      cases hcompile
  | error e =>
    refine .inr ⟨e, rfl, ?_⟩
    rcases hread with ⟨texts, as, has, -⟩ | ⟨-, -, p, hp, hnone⟩
    · refine .inl fun f hfits => ?_
      have hok : make o backslashes given = .ok ⟨texts, settle o backslashes, as, f⟩ :=
        make_eq_ok.mpr ⟨hfits, rfl, has⟩
      rw [hmake] at hok
      cases hok
    · exact .inr fun hall => hall p hp hnone

end Glob

end PathGlob
