import PathGlob.Proofs.Glob.Merge
import PathGlob.Proofs.Pattern.Reread

/-!
# Globs of expanded patterns

The texts of the alternatives of a glob make a glob of their own, with braces read as ordinary
characters: it has the same alternatives, in the same places, and is searched with the same results.
-/
namespace PathGlob

namespace Glob

variable {o : Options} {drives backslashes : Bool}

/-! ## What alternatives are read from -/

/-- A text that a pattern stands for, with the place of the pattern. -/
structure Origin where
  patternIndex : Nat
  text : List Char

def Origin.read (o : Options) (drives : Bool) (index : Nat) (p : Origin) : Alternative :=
  Pattern.readAlternative o drives p.patternIndex index p.text

def Origin.From (o : Options) (given : List Given) (p : Origin) : Prop :=
  ∃ pattern texts, .text pattern ∈ given ∧ Pattern.expand o pattern = .ok texts ∧ p.text ∈ texts

/-- Alternatives are numbered through from the first pattern to the last. -/
theorem exists_origins {given : List Given} {i n : Nat} {texts : List String}
    {as : List Alternative} (h : compileAll o drives i n given = .ok (texts, as)) :
    ∃ ps : List Origin, (as = ps.mapIdx fun k p => p.read o drives (n + k)) ∧
      ∀ p ∈ ps, p.From o given := by
  induction given generalizing i n texts as with
  | nil =>
    cases h
    exact ⟨[], rfl, by simp⟩
  | cons first given ih =>
    cases first with
    | other kind => cases h
    | text pattern =>
      rw [compileAll] at h
      cases hcompile : Pattern.compile o drives i n pattern with
      | error e => simp [hcompile, bind, Except.bind] at h
      | ok own =>
        obtain ⟨-, expanded, hexpand, rfl⟩ := compile_eq_ok.mp hcompile
        cases hmore : compileAll o drives (i + 1) (n + expanded.length) given with
        | error e => simp [hcompile, hmore, bind, Except.bind] at h
        | ok more =>
          obtain ⟨ps, hps, hfrom⟩ := ih hmore
          simp only [hcompile, List.length_mapIdx, hmore, bind, Except.bind, pure, Except.pure,
            Except.ok.injEq, Prod.mk.injEq] at h
          obtain ⟨-, rfl⟩ := h
          have hown : (expanded.map (Origin.mk i)).mapIdx (fun k p => p.read o drives (n + k)) =
              expanded.mapIdx fun k cs => Pattern.readAlternative o drives i (n + k) cs := by
            apply List.ext_getElem?
            intro k
            simp [Function.comp_def, Origin.read]
          refine ⟨expanded.map (Origin.mk i) ++ ps, ?_, fun p hp => ?_⟩
          · rw [hps, List.mapIdx_append, hown, List.length_map]
            simp only [Nat.add_assoc, Nat.add_comm expanded.length]
          · rcases List.mem_append.mp hp with hp | hp
            · obtain ⟨cs, hcs, rfl⟩ := List.mem_map.mp hp
              exact ⟨pattern, expanded, List.mem_cons_self, hexpand, hcs⟩
            · obtain ⟨pattern', texts', hmem, hrest⟩ := hfrom p hp
              exact ⟨pattern', texts', List.mem_cons_of_mem _ hmem, hrest⟩

/-- Texts that are short enough are read as they are, where braces are ordinary. -/
theorem compileAll_texts (hbrace : o.nobrace = true) {ts : List String}
    (hlen : ∀ t ∈ ts, t.length ≤ Pattern.maxLength) (i n : Nat) :
    compileAll o drives i n (ts.map .text) =
      .ok (ts, ts.mapIdx fun k t =>
        Pattern.readAlternative o drives (i + k) (n + k) t.toList) := by
  induction ts generalizing i n with
  | nil => rfl
  | cons t ts ih =>
    obtain ⟨ht, hts⟩ := List.forall_mem_cons.mp hlen
    have hcompile : Pattern.compile o drives i n t =
        .ok [Pattern.readAlternative o drives i n t.toList] :=
      compile_eq_ok.mpr ⟨ht, [t.toList], by simp [Pattern.expand, hbrace], rfl⟩
    rw [List.map_cons, compileAll, hcompile]
    simp only [bind, Except.bind, pure, Except.pure, List.length_singleton, ih hts,
      List.mapIdx_cons, Nat.add_zero, List.singleton_append]
    simp only [Nat.add_assoc, Nat.add_comm 1]

/-! ## Texts that are prepared -/

theorem backslash_not_mem_toSlashes (s : String) : '\\' ∉ (toSlashes s).toList := by
  rw [toSlashes, String.toList_ofList]
  intro hmem
  obtain ⟨c, -, hc⟩ := List.mem_map.mp hmem
  split at hc
  · cases hc
  · contradiction

/-- What alternatives are read from has no backslash, if it escapes nothing. -/
theorem Origin.From.backslash_not_mem {p : Origin} {o' : Options} {given : List Given}
    (hp : p.From o' (prepare o given)) (hno : o.noEscape = true) (hbase : o.matchBase = false) :
    '\\' ∉ p.text := by
  obtain ⟨pattern, texts, hmem, hexpand, htext⟩ := hp
  refine Pattern.not_mem_of_expand Brace.foreign_backslash ?_ hexpand _ htext
  rw [prepare, if_pos hno, hbase] at hmem
  obtain ⟨q, -, hq⟩ := List.mem_map.mp hmem
  cases q with
  | other kind => cases hq
  | text q =>
    cases hq
    exact backslash_not_mem_toSlashes q

/-! ## Made again -/

def globs (g : Glob) : List String := g.alternatives.map Alternative.glob

/-- A glob with braces read as ordinary characters, which only matters while it is made. -/
def unbraced (g : Glob) : Glob := { g with options := { g.options with nobrace := true } }

theorem walkAll_unbraced (g : Glob) (h : Host) (as : List Alternative) (c : Cache) :
    g.unbraced.walkAll h as c = g.walkAll h as c := by
  induction as generalizing c with
  | nil => rfl
  | cons a as ih =>
    have hcore : (g.unbraced.walk h a).core = (g.walk h a).core := rfl
    simp only [walkAll, Walk.run_congr hcore, ih]

theorem search_unbraced (g : Glob) (h : Host) (c : Cache) :
    g.unbraced.search h c = g.search h c := by
  have hmerge : g.unbraced.merge = g.merge := rfl
  simp only [search, walkAll_unbraced, hmerge]
  rfl

/-- A glob has alternatives that are read from origins, each at its place. -/
theorem exists_origins_of_make {given : List Given} {g : Glob}
    (hmake : make o backslashes given = .ok g) :
    ∃ ps : List Origin,
      (g.alternatives = ps.mapIdx fun k p => p.read (settle o backslashes) backslashes k) ∧
        ∀ p ∈ ps, p.From (settle o backslashes) (prepare o given) := by
  obtain ⟨-, -, hcompile⟩ := make_eq_ok.mp hmake
  obtain ⟨ps, hps, hfrom⟩ := exists_origins hcompile
  simp only [Nat.zero_add] at hps
  exact ⟨ps, hps, hfrom⟩

theorem backslash_not_mem_globs {given : List Given} {g : Glob}
    (hmake : make o backslashes given = .ok g) (hno : o.noEscape = true)
    (hbase : o.matchBase = false) : ∀ t ∈ g.globs, '\\' ∉ t.toList := by
  obtain ⟨ps, hps, hfrom⟩ := exists_origins_of_make hmake
  intro t ht hslash
  obtain ⟨a, ha, rfl⟩ := List.mem_map.mp ht
  rw [hps] at ha
  obtain ⟨k, hk, rfl⟩ := List.mem_mapIdx.mp ha
  have horigin := hfrom _ (List.getElem_mem hk)
  rcases Pattern.mem_of_mem_glob hslash with heq | hmem
  · cases heq
  · exact horigin.backslash_not_mem hno hbase hmem

theorem prepare_texts {ts : List String} (hbase : o.matchBase = false)
    (hts : o.noEscape = true → ∀ t ∈ ts, '\\' ∉ t.toList) :
    prepare o (ts.map .text) = ts.map .text := by
  rw [prepare, hbase]
  simp only [Bool.false_eq_true, if_false]
  split
  next hno =>
    rw [List.map_map]
    refine List.map_congr_left fun t ht => ?_
    simp [Given.map, toSlashes_eq_self (hts hno t ht)]
  · rfl

theorem map_unnumbered_patternIndex (as : List Alternative) :
    (as.mapIdx fun i a => { a with patternIndex := i }).map Alternative.unnumbered =
      as.map Alternative.unnumbered := by
  apply List.ext_getElem?
  intro k
  simp only [List.getElem?_map, List.getElem?_mapIdx, Option.map_map]
  rfl

/-- Read again, the texts of alternatives give the same alternatives. -/
theorem reread_origins (ps : List Origin) :
    ((ps.mapIdx fun k p => p.read o drives k).map Alternative.glob).mapIdx
        (fun k t => Pattern.readAlternative o drives k k t.toList) =
      (ps.mapIdx fun k p => p.read o drives k).mapIdx
        fun k a => { a with patternIndex := k } := by
  apply List.ext_getElem?
  intro k
  simp only [List.getElem?_mapIdx, List.getElem?_map, Option.map_map]
  refine congrArg (Option.map · ps[k]?) (funext fun p => ?_)
  exact Pattern.readAlternative_glob o drives p.patternIndex k k k p.text

/-- Where no base names are matched, the texts of the alternatives of a glob, if they are short
enough to be patterns, make a glob with the same alternatives, each read from a pattern of its own.
The indices are the places in both. And both are searched with the same results. -/
theorem exists_make_globs (o : Options) (backslashes : Bool) (patterns : List String) (g : Glob)
    (hmake : make o backslashes (patterns.map .text) = .ok g) (hbase : o.matchBase = false)
    (hlen : ∀ text ∈ g.globs, text.length ≤ Pattern.maxLength) :
    ∃ g', make { o with nobrace := true } backslashes (g.globs.map .text) = .ok g' ∧
      g'.alternatives = g.alternatives.mapIdx (fun i a => { a with patternIndex := i }) ∧
      (∀ (i : Nat) (a : Alternative), g.alternatives[i]? = some a → a.index = i) ∧
      ∀ h c, g'.search h c = g.search h c := by
  obtain ⟨hfits, hoptions, -⟩ := make_eq_ok.mp hmake
  obtain ⟨ps, hps, -⟩ := exists_origins_of_make hmake
  let o' : Options := { o with nobrace := true }
  -- Options for braces do not matter for a text that is not expanded.
  have hread : ∀ i n cs, Pattern.readAlternative (settle o' backslashes) backslashes i n cs =
      Pattern.readAlternative (settle o backslashes) backslashes i n cs := fun _ _ _ => rfl
  have hprepare : prepare o' (g.globs.map .text) = g.globs.map .text :=
    prepare_texts hbase fun hno => backslash_not_mem_globs hmake hno hbase
  let g' : Glob := ⟨g.globs, settle o' backslashes,
    g.alternatives.mapIdx fun i a => { a with patternIndex := i }, g.ignore⟩
  have hmake' : make o' backslashes (g.globs.map .text) = .ok g' := by
    refine make_eq_ok.mpr ⟨hfits, rfl, ?_⟩
    rw [hprepare, compileAll_texts rfl hlen]
    simp only [Nat.zero_add, hread, globs, hps, reread_origins, g']
  refine ⟨g', hmake', rfl, fun i a ha => ?_, fun h c => ?_⟩
  · rw [hps, List.getElem?_mapIdx] at ha
    obtain ⟨p, -, rfl⟩ := Option.map_eq_some_iff.mp ha
    rfl
  · have hsame : g'.unnumbered = g.unbraced.unnumbered := by
      simp only [unnumbered, Glob.unbraced, hoptions, g', map_unnumbered_patternIndex]
      rfl
    rw [← search_unnumbered, hsame, search_unnumbered, search_unbraced]

/-- Neighbouring globstars are one in the texts, and backslashes are slashes. -/
theorem exists_make_globs_backslashes :
    let o : Options := { windowsPathsNoEscape := true, nonull := true }
    let patterns := ["{a,d}\\**\\**", "//x"]
    let texts := ["a/**", "d/**", "//x"]
    ∃ g g', make o true (patterns.map .text) = .ok g ∧ g.globs = texts ∧
      make { o with nobrace := true } true (texts.map .text) = .ok g' ∧
      ∀ h c, g'.search h c = g.search h c := by
  intro o patterns texts
  have hglobs : (make o true (patterns.map .text)).toOption.map globs = some texts := by
    decide +kernel
  cases hmake : make o true (patterns.map .text) with
  | error e => simp [hmake, Except.toOption] at hglobs
  | ok g =>
    have hglobs : g.globs = texts := by simpa [hmake, Except.toOption] using hglobs
    obtain ⟨g', hmake', -, -, hsearch⟩ := exists_make_globs o true patterns g hmake rfl
      (by rw [hglobs]; decide)
    rw [hglobs] at hmake'
    exact ⟨g, g', rfl, hglobs, hmake', hsearch⟩

end Glob

end PathGlob
