import PathGlob.Proofs.Glob.Occurrences

/-!
# Patterns without magic

A pattern without magic has at most one alternative, and that consists of names. Its walk looks up
one name after the other, lists no directory and comes to one end at most. The pattern that counts
is the one that is searched for: with base names to be matched, or with backslashes that separate
directories, it is not always the pattern that was given.
-/
namespace PathGlob

/-! ## Scripts without listings -/

namespace Script

variable {α β : Type}

inductive Listless : Script α → Prop
  | done (a : α) : Listless (.done a)
  | fail (e : WalkError) : Listless (.fail e)
  | report {e : Event} {next : Script α} (hnext : Listless next) : Listless (.report e next)
  | ask {q : Query} {next : q.Answer → Script α} (hq : ∀ path, q ≠ .list path)
      (hnext : ∀ a, Listless (next a)) : Listless (.ask q next)

theorem Listless.bind {s : Script α} {f : α → Script β} (hs : s.Listless)
    (hf : ∀ a, (f a).Listless) : (s.bind f).Listless := by
  induction hs with
  | done a => exact hf a
  | fail e => exact .fail e
  | report hnext ih => exact .report ih
  | ask hq hnext ih => exact .ask hq ih

theorem Listless.not_mem_asked {σ : Type}
    {answer : (q : Query) → σ → Except NullInPath q.Answer × σ} {s : Script α} (hs : s.Listless)
    (path : String) (st : σ) : .list path ∉ s.asked answer st := by
  induction hs generalizing st with
  | done a => exact List.not_mem_nil
  | fail e => exact List.not_mem_nil
  | report hnext ih => exact ih st
  | @ask q next hq hnext ih =>
    rw [asked, List.mem_cons, not_or]
    refine ⟨fun heq => hq path heq.symm, ?_⟩
    split
    · exact ih _ _
    · exact List.not_mem_nil

end Script

namespace Walk

variable {w : Walk} {o : Oracle} {segs : List Segment} {depth : Nat} {chain : Chain}

theorem listless_isDirectory (path : String) : (isDirectory path).Listless :=
  .ask (by simp) fun _ => .done _

theorem listless_isThere (path : String) : (isThere path).Listless :=
  .ask (by simp) fun _ => .done _

theorem listless_whetherDirectory (known : Option Bool) (path : String) :
    (whetherDirectory known path).Listless := by
  cases known with
  | some d => exact .done d
  | none => exact listless_isDirectory path

theorem listless_display (w : Walk) (path rel : String) (isDir : Bool) :
    (w.display path rel isDir).Listless := by
  unfold display
  split_ifs
  · exact .ask (by simp) fun _ => .done _
  · exact .done _
  · exact .done _

theorem listless_found (w : Walk) (known : Option Bool) (path : String) (out : List String) :
    (w.found known path out).Listless := by
  unfold found
  simp only [Script.bind_eq]
  split_ifs
  · exact .done ()
  · refine (listless_whetherDirectory known path).bind fun isDir => ?_
    split_ifs
    · exact .done ()
    · refine (w.listless_display _ _ _).bind fun result => ?_
      cases result with
      | none => exact .done ()
      | some r => exact .report (.done ())

theorem listless_descend {next : String → List String → Script Unit}
    (hnext : ∀ path out, (next path out).Listless) (isLast : Bool) (known : Option Bool)
    (path : String) (out : List String) : (w.descend isLast next known path out).Listless := by
  unfold descend
  simp only [Script.bind_eq]
  split_ifs
  · exact w.listless_found known path out
  · refine (listless_whetherDirectory known path).bind fun isDir => ?_
    split_ifs
    · exact hnext path out
    · exact .done ()

/-- Over names and slashes, nothing is listed. -/
theorem listless_lay (hsegs : ∀ seg ∈ segs, seg.isMagic = false) (dir : String)
    (out : List String) : (w.lay segs depth chain dir out).Listless := by
  induction segs generalizing dir out with
  | nil => exact w.listless_found none dir out
  | cons first rest ih =>
    obtain ⟨hfirst, hrest⟩ := List.forall_mem_cons.mp hsegs
    cases first with
    | empty =>
      rw [lay]
      refine (listless_isDirectory dir).bind fun isDir => ?_
      split_ifs
      · exact ih hrest _ _
      · exact .done ()
    | literal text name =>
      rw [lay]
      refine (listless_isThere _).bind fun there => ?_
      split_ifs
      · exact listless_descend (ih hrest) _ _ _ _
      · exact .done ()
    | magic text mode tokens => cases hfirst
    | globstar => cases hfirst

theorem listless_script (hsegs : ∀ seg ∈ w.ahead, seg.isMagic = false) :
    (w.script depth).Listless := by
  rw [script_eq]
  refine (listless_isDirectory _).bind fun isDir => ?_
  split_ifs
  · exact listless_lay hsegs _ _
  · exact .fail _

/-! ## Walks with one end -/

theorem lays_unique {s t t' : Spot} (hsegs : ∀ seg ∈ segs, seg.isMagic = false)
    (hlays : w.Lays o segs s t) (hlays' : w.Lays o segs s t') : t = t' := by
  induction hlays with
  | nil s => exact (lays_nil_iff.mp hlays').symm
  | empty dir more ih =>
    exact ih (List.forall_mem_cons.mp hsegs).2 (lays_empty_iff.mp hlays').2
  | literal there goes more ih =>
    exact ih (List.forall_mem_cons.mp hsegs).2 (lays_literal_iff.mp hlays').2.2
  | magic listed accepted goes more ih => cases (List.forall_mem_cons.mp hsegs).1
  | globstar sweep more ih => cases (List.forall_mem_cons.mp hsegs).1

theorem eq_of_mem_paths {h : Host} {c : Cache} (hsegs : ∀ seg ∈ w.ahead, seg.isMagic = false)
    (hok : (w.run h c).result = .ok ()) {r r' : String}
    (hr : r ∈ Event.paths (w.run h c).events) (hr' : r' ∈ Event.paths (w.run h c).events) :
    r = r' := by
  rw [run, Script.runCached, Script.run_lookup] at hok hr hr'
  obtain ⟨t, hlays, ht⟩ := (finds_script hok).mp (Event.mem_paths.mp hr)
  obtain ⟨t', hlays', ht'⟩ := (finds_script hok).mp (Event.mem_paths.mp hr')
  rw [lays_unique hsegs hlays' hlays, ht] at ht'
  exact Option.some.inj ht'

end Walk

namespace Glob

variable {o : Options} {backslashes : Bool} {g : Glob} {h : Host} {c : Cache} {p q : String}

/-! ## Searches for names -/

theorem not_mem_askedAll {as : List Alternative}
    (has : ∀ a ∈ as, ∀ seg ∈ a.segments, seg.isMagic = false) (path : String) :
    .list path ∉ g.askedAll h as c := by
  induction as generalizing c with
  | nil => exact List.not_mem_nil
  | cons a as ih =>
    obtain ⟨ha, has⟩ := List.forall_mem_cons.mp has
    have hahead : ∀ seg ∈ (g.walk h a).ahead, seg.isMagic = false := fun seg hseg =>
      ha seg (Walk.mem_segments_of_mem_ahead hseg)
    rw [askedAll, List.mem_append, not_or]
    refine ⟨(Walk.listless_script hahead).not_mem_asked path c, ?_⟩
    split
    · exact List.not_mem_nil
    · exact ih has

/-- One alternative of names stands for one text at most, be it itself. -/
theorem eq_of_mem_search {xs : List String} (hone : g.alternatives.length ≤ 1)
    (hnames : ∀ a ∈ g.alternatives, ∀ seg ∈ a.segments, seg.isMagic = false)
    (hx : (g.search h c).result = .ok xs) : ∀ x ∈ xs, ∀ y ∈ xs, x = y := by
  obtain ⟨results, hyields, rfl⟩ := merge_of_search hx
  intro x hx y hy
  rw [mem_merge hyields.length_eq, mem_nulls] at hx hy
  rcases hg : g.alternatives with _ | ⟨a, _ | ⟨b, as⟩⟩
  · rw [hg] at hyields
    cases hyields
    simp at hx
  · rw [hg] at hyields hx hy
    obtain _ | ⟨hok, hrest⟩ := hyields
    cases hrest
    have hahead : ∀ seg ∈ (g.walk h a).ahead, seg.isMagic = false := fun seg hseg =>
      hnames a (by simp [hg]) seg (Walk.mem_segments_of_mem_ahead hseg)
    simp only [List.mem_singleton, exists_eq_left, List.zip_cons_cons, List.zip_nil_right,
      Prod.mk.injEq, exists_eq_left] at hx hy
    -- What stands for itself does so because nothing is found.
    rcases hx with hx | ⟨-, a', ⟨rfl, hnone⟩, rfl⟩
    · rcases hy with hy | ⟨-, a', ⟨rfl, hnone⟩, rfl⟩
      · exact Walk.eq_of_mem_paths hahead hok hx hy
      · rw [← hnone] at hx
        cases hx
    · rcases hy with hy | ⟨-, a', ⟨rfl, -⟩, rfl⟩
      · rw [← hnone] at hy
        cases hy
      · rfl
  · simp [hg] at hone

/-! ## The pattern that is searched for -/

/-- The pattern that a glob holds for a given one. -/
def rewritten (o : Options) (p : String) : String :=
  let slashed := if o.noEscape then toSlashes p else p
  if o.matchBase then atAnyDepth slashed else slashed

theorem prepare_text (o : Options) (p : String) :
    prepare o [.text p] = [.text (rewritten o p)] := by
  unfold prepare rewritten
  split_ifs <;> rfl

theorem atAnyDepth_eq_self (hp : '/' ∈ p.toList) : atAnyDepth p = p := by
  simp [atAnyDepth, hp]

theorem rewritten_eq_self (hescape : o.noEscape = true → '\\' ∉ p.toList)
    (hbase : o.matchBase = true → '/' ∈ p.toList) : rewritten o p = p := by
  have hslashed : (if o.noEscape then toSlashes p else p) = p := by
    split_ifs with hno
    · exact toSlashes_eq_self (hescape hno)
    · rfl
  unfold rewritten
  rw [hslashed]
  split_ifs with hb
  · exact atAnyDepth_eq_self (hbase hb)
  · rfl

theorem hasMagic_eq_false : Pattern.hasMagic o q = .ok false ↔
    ∃ as, Pattern.compile o false 0 0 q = .ok as ∧ as.length ≤ 1 ∧
      ∀ a ∈ as, ∀ seg ∈ a.segments, seg.isMagic = false := by
  unfold Pattern.hasMagic
  cases Pattern.compile o false 0 0 q with
  | error e => simp [bind, Except.bind]
  | ok as => simp [bind, Except.bind, pure, Except.pure]

theorem map_segments_mapIdx (o : Options) (drives : Bool) (i n : Nat) (texts : List (List Char)) :
    (texts.mapIdx fun k cs => Pattern.readAlternative o drives i (n + k) cs).map
        Alternative.segments =
      texts.map fun cs => (Pattern.splitParts o cs).map (Pattern.readSegment o) := by
  have hforget : Alternative.segments = Alternative.segments ∘ Alternative.unnumbered := rfl
  rw [hforget, ← List.map_map, map_unnumbered_mapIdx, List.map_map]
  rfl

/-- Drives make a difference to roots, but to no segment. -/
theorem segments_of_compile {as bs : List Alternative}
    (has : Pattern.compile o false 0 0 q = .ok as)
    (hbs : Pattern.compile (settle o backslashes) backslashes 0 0 q = .ok bs) :
    bs.map Alternative.segments = as.map Alternative.segments := by
  obtain ⟨-, texts, hexpand, rfl⟩ := compile_eq_ok.mp has
  obtain ⟨-, texts', hexpand', rfl⟩ := compile_eq_ok.mp hbs
  obtain rfl : texts = texts' := Except.ok.inj (hexpand.symm.trans hexpand')
  rw [map_segments_mapIdx, map_segments_mapIdx]
  rfl

/-- A glob of one pattern holds the pattern that is searched for; it is the given one unless that
has backslashes that separate or is a base name. If the pattern that it holds has no magic, a search
lists no directory and reports one text at most. -/
theorem search_without_magic (o : Options) (backslashes : Bool) (p : String) (g : Glob)
    (hmake : make o backslashes [.text p] = .ok g) :
    ∃ q, g.patterns = [q] ∧
      ((o.noEscape = true → '\\' ∉ p.toList) → (o.matchBase = true → '/' ∈ p.toList) → q = p) ∧
      (Pattern.hasMagic o q = .ok false → ∀ (h : Host) (c : Cache),
        (∀ path, .list path ∉ g.asked h c) ∧
          ∀ xs, (g.search h c).result = .ok xs → ∀ x ∈ xs, ∀ y ∈ xs, x = y) := by
  obtain ⟨-, -, hcompile⟩ := make_eq_ok.mp hmake
  rw [prepare_text, compileAll] at hcompile
  cases hread : Pattern.compile (settle o backslashes) backslashes 0 0 (rewritten o p) with
  | error e => simp [hread, bind, Except.bind] at hcompile
  | ok bs =>
    obtain ⟨hpatterns, halternatives⟩ :
        [rewritten o p] = g.patterns ∧ bs = g.alternatives := by
      simpa [hread, compileAll, bind, Except.bind, pure, Except.pure] using hcompile
    refine ⟨rewritten o p, hpatterns.symm, rewritten_eq_self, fun hmagic h c => ?_⟩
    obtain ⟨as, has, hone, hnames⟩ := hasMagic_eq_false.mp hmagic
    have hsegments := segments_of_compile has hread
    have hlength : bs.length = as.length := by simpa using congrArg List.length hsegments
    have hnames' : ∀ b ∈ g.alternatives, ∀ seg ∈ b.segments, seg.isMagic = false := by
      intro b hb
      rw [← halternatives] at hb
      have hmem : b.segments ∈ as.map Alternative.segments :=
        hsegments ▸ List.mem_map_of_mem hb
      obtain ⟨a, ha, heq⟩ := List.mem_map.mp hmem
      exact heq ▸ hnames a ha
    refine ⟨fun path => not_mem_askedAll hnames' path, fun xs hx => ?_⟩
    refine eq_of_mem_search ?_ hnames' hx
    rw [← halternatives, hlength]
    exact hone

/-- The file behind the link is found without a listing. -/
theorem search_without_magic_link :
    ∃ g, make {} false [.text "l/f"] = .ok g ∧
      (g.search Walk.linkedHost .empty).result = .ok ["l/f"] ∧
      ∀ path, .list path ∉ g.asked Walk.linkedHost .empty := by
  obtain ⟨q, hpatterns, hsame, hsafe⟩ := search_without_magic {} false "l/f" _ rfl
  obtain rfl := hsame (fun h => by cases h) (fun h => by cases h)
  obtain ⟨hlistless, -⟩ := hsafe (by decide +kernel) Walk.linkedHost .empty
  refine ⟨_, rfl, ?_, hlistless⟩
  rw [search_of_agrees (Cache.agrees_empty _)]
  decide +kernel

/-- A base name has no magic as it is given, and directories are listed to find it. -/
theorem exists_listed_without_magic :
    ¬ ∀ (o : Options) (p : String) (g : Glob), make o false [.text p] = .ok g →
      Pattern.hasMagic o p = .ok false → ∀ (h : Host) (c : Cache),
        (∀ path, .list path ∉ g.asked h c) ∧
          ∀ xs, (g.search h c).result = .ok xs → ∀ x ∈ xs, ∀ y ∈ xs, x = y := by
  intro hsafe
  obtain ⟨hlistless, -⟩ := hsafe { matchBase := true, nosort := true } "f" _ rfl
    (by decide +kernel) Walk.linkedHost .empty
  refine hlistless "/" ?_
  rw [asked, askedAll_of_agrees (Cache.agrees_empty _)]
  decide +kernel

end Glob

end PathGlob
