import PathGlob.Proofs.Collation
import PathGlob.Proofs.Glob.Reading
import PathGlob.Proofs.OrderedSet
import PathGlob.Proofs.Walk.Layout

/-!
# Merging results

What a search reports that drops repeats, told from what each alternative yields. A glob of two
lists of patterns therefore reports what the globs of the two lists report.
-/
namespace PathGlob

theorem eraseDups_append_eraseDups (xs ys : List String) :
    (xs.eraseDups ++ ys.eraseDups).eraseDups = (xs ++ ys).eraseDups := by
  have herase : ∀ zs : List String, zs.eraseDups = (OrderedSet.ofList zs).toList := fun zs =>
    (OrderedSet.toList_ofList zs).symm
  have hself : ∀ zs, OrderedSet.ofList (OrderedSet.ofList zs).toList = OrderedSet.ofList zs :=
    OrderedSet.addAll_ofList .empty
  simp only [herase]
  rw [OrderedSet.ofList, OrderedSet.addAll_append, ← OrderedSet.ofList, hself,
    OrderedSet.addAll_ofList, OrderedSet.ofList, OrderedSet.ofList, OrderedSet.addAll_append]

theorem nodup_eraseDups (xs : List String) : xs.eraseDups.Nodup := by
  rw [← OrderedSet.toList_ofList]
  exact (OrderedSet.ofList xs).distinct

namespace Glob

variable (g : Glob) (h : Host) {as bs : List Alternative} {xs ys : List String}

/-! ## Globs without numbers -/

def unnumbered : Glob :=
  { g with patterns := [], alternatives := g.alternatives.map Alternative.unnumbered }

theorem walkAll_unnumbered (as : List Alternative) (c : Cache) :
    g.unnumbered.walkAll h (as.map Alternative.unnumbered) c = g.walkAll h as c := by
  induction as generalizing c with
  | nil => rfl
  | cons a as ih =>
    have hwalk : g.unnumbered.walk h a.unnumbered = (g.walk h a).unnumbered := by
      simp only [walk, unnumbered, Walk.unnumbered]
    rw [List.map_cons, walkAll, walkAll, hwalk, Walk.run_unnumbered]
    simp only [ih]

theorem merge_unnumbered (results : List (List String)) :
    g.unnumbered.merge results = g.merge results := by
  have hnulls : g.unnumbered.nulls results = g.nulls results := by
    simp only [nulls, unnumbered, List.zip_map_left, List.filter_map, List.map_map]
    rfl
  rw [merge, hnulls]
  rfl

/-- A search takes no notice of numbers. -/
theorem search_unnumbered (c : Cache) : g.unnumbered.search h c = g.search h c := by
  have hmerge : g.unnumbered.merge = g.merge := funext g.merge_unnumbered
  rw [search, hmerge]
  simp only [unnumbered, search]
  rw [← g.walkAll_unnumbered]
  rfl

/-! ## What alternatives yield -/

def Succeeds (a : Alternative) : Prop := ((g.walk h a).run h .empty).result = .ok ()

def pathsOf (a : Alternative) : List String := Event.paths ((g.walk h a).run h .empty).events

/-- The paths that are found, and behind them the alternatives that stand for themselves. -/
def harvest (as : List Alternative) : List String :=
  as.flatMap (g.pathsOf h) ++
    (as.filter fun a => g.options.nonull && (g.pathsOf h a).isEmpty).map Alternative.glob

def arrange (o : Options) (xs : List String) : List String :=
  if o.nosort then xs.eraseDups else Collation.sort xs.eraseDups

theorem nulls_eq : g.nulls (g.alternatives.map (g.pathsOf h)) =
    (g.alternatives.filter fun a => g.options.nonull && (g.pathsOf h a).isEmpty).map
      Alternative.glob := by
  unfold nulls
  cases g.options.nonull with
  | false => simp
  | true =>
    simp only [← List.map_prod_left_eq_zip, List.filter_map, List.map_map, if_true, Bool.true_and]
    rfl

/-- Without repeats, what walks return is put together in the order of its first occurrences. -/
theorem gather_false {results : List (List String)} {nulls : List String}
    (h : results = [] → nulls = []) :
    gather false results nulls = (results.flatten ++ nulls).eraseDups := by
  cases results with
  | nil =>
    rw [h rfl]
    rfl
  | cons first rest => rfl

theorem merge_eq (hunique : g.options.nounique = false) :
    g.merge (g.alternatives.map (g.pathsOf h)) =
      arrange g.options (g.harvest h g.alternatives) := by
  have hnone : g.alternatives.map (g.pathsOf h) = [] →
      g.nulls (g.alternatives.map (g.pathsOf h)) = [] := by
    intro hnone
    rw [hnone]
    simp [nulls]
  rw [merge, hunique, gather_false hnone, nulls_eq]
  rfl

/-- A search ends well if all walks do, and then it reports what they yield. -/
theorem search_eq_ok (hunique : g.options.nounique = false) :
    (g.search h .empty).result = .ok xs ↔
      (∀ a ∈ g.alternatives, g.Succeeds h a) ∧
        xs = arrange g.options (g.harvest h g.alternatives) := by
  constructor
  · intro hx
    have hall := walks_of_search hx
    rw [search_of_walks hall] at hx
    exact ⟨hall, (Except.ok.inj hx).symm.trans (merge_eq g h hunique)⟩
  · rintro ⟨hall, rfl⟩
    rw [← merge_eq g h hunique]
    exact search_of_walks hall

theorem mem_harvest {x : String} :
    x ∈ g.harvest h as ↔ ∃ a ∈ as, x ∈ g.pathsOf h a ∨
      g.options.nonull = true ∧ g.pathsOf h a = [] ∧ x = a.glob := by
  simp only [harvest, List.mem_append, List.mem_flatMap, List.mem_map, List.mem_filter,
    Bool.and_eq_true, List.isEmpty_iff]
  constructor
  · rintro (⟨a, ha, hx⟩ | ⟨a, ⟨ha, hnull, hnone⟩, rfl⟩)
    · exact ⟨a, ha, .inl hx⟩
    · exact ⟨a, ha, .inr ⟨hnull, hnone, rfl⟩⟩
  · rintro ⟨a, ha, hx | ⟨hnull, hnone, rfl⟩⟩
    · exact .inl ⟨a, ha, hx⟩
    · exact .inr ⟨a, ⟨ha, hnull, hnone⟩, rfl⟩

theorem mem_arrange {o : Options} {x : String} : x ∈ arrange o xs ↔ x ∈ xs := by
  unfold arrange
  split <;> simp

/-- Sorted results depend only on which texts there are. -/
theorem arrange_congr {o : Options} (hsort : o.nosort = false) (hsame : ∀ x, x ∈ xs ↔ x ∈ ys) :
    arrange o xs = arrange o ys := by
  simp only [arrange, hsort, Bool.false_eq_true, if_false]
  exact Collation.sort_congr (nodup_eraseDups xs) (nodup_eraseDups ys) (by simpa using hsame)

/-! ## Searching for patterns -/

/-- What patterns match on a host, looked up with an empty cache; `none` if they make no glob or if
a walk fails. -/
def find (o : Options) (backslashes : Bool) (h : Host) (patterns : List String) :
    Option (List String) :=
  match make o backslashes (patterns.map .text) with
  | .ok g => (g.search h .empty).result.toOption
  | .error _ => none

theorem find_eq_searchOn (o : Options) (backslashes : Bool) (h : Host) (patterns : List String) :
    find o backslashes h patterns =
      match make o backslashes (patterns.map .text) with
      | .ok g => (g.searchOn h).result.toOption
      | .error _ => none := by
  unfold find
  cases make o backslashes (patterns.map .text) with
  | error e => rfl
  | ok g => simp only [search_of_agrees (Cache.agrees_empty h.answer)]

/-- What the walks find, sorted and without repeats, is found if nothing else is asked for. -/
theorem find_of_walks {o : Options} (hsort : o.nosort = false) (hunique : o.nounique = false)
    (hnull : o.nonull = false) {backslashes : Bool} {h : Host} {patterns : List String}
    {results : List (List String)}
    (hwalks : (match make o backslashes (patterns.map .text) with
      | .ok g => (g.walkAllOn h g.alternatives).result.toOption
      | .error _ => none) = some results) :
    find o backslashes h patterns = some (Collation.sort results.flatten.eraseDups) := by
  rw [find_eq_searchOn]
  rcases make_cases o backslashes (patterns.map .text) with ⟨g, hg, -, -, hoptions, -⟩ | ⟨e, he, -⟩
  · simp only [hg] at hwalks ⊢
    have hmerge : g.merge results = Collation.sort results.flatten.eraseDups := by
      rw [merge, nulls, hoptions]
      simp only [settle, hsort, hunique, hnull, Bool.false_eq_true, if_false]
      rw [gather_false fun _ => rfl, List.append_nil]
    rw [searchOn]
    cases hr : (g.walkAllOn h g.alternatives).result with
    | error e => simp [hr, Except.toOption] at hwalks
    | ok found =>
      rw [hr] at hwalks
      obtain rfl := Option.some.inj hwalks
      simp [Except.map, Except.toOption, hmerge]
  · simp [he] at hwalks

def common (o : Options) (backslashes : Bool) (f : Ignore.Filter) : Glob :=
  ⟨[], settle o backslashes, [], f⟩

variable {h} {o : Options} {backslashes : Bool} {ps qs : List String}

theorem fits_unique {f f' : Ignore.Filter} (hf : Fits o backslashes f)
    (hf' : Fits o backslashes f') : f = f' := Except.ok.inj (hf.2.symm.trans hf'.2)

/-- Patterns are found if they are read and all walks end well. -/
theorem find_eq_some (hunique : o.nounique = false) :
    find o backslashes h ps = some xs ↔ ∃ f, Fits o backslashes f ∧
      Readable o backslashes (ps.map .text) ∧
      (∀ a ∈ alternativesOf o backslashes (ps.map .text), (common o backslashes f).Succeeds h a) ∧
      xs = arrange o ((common o backslashes f).harvest h
        (alternativesOf o backslashes (ps.map .text))) := by
  unfold find
  rcases make_cases o backslashes (ps.map .text) with
    ⟨g, hg, hfits, hread, hoptions, hals⟩ | ⟨e, he, hno⟩
  · have hcommon : g.unnumbered = { common o backslashes g.ignore with
        alternatives := alternativesOf o backslashes (ps.map .text) } := by
      simp only [unnumbered, common, hoptions, hals]
    have hoption : (g.search h .empty).result.toOption = some xs ↔
        (g.search h .empty).result = .ok xs := by
      cases (g.search h .empty).result <;> simp [Except.toOption]
    simp only [hg]
    rw [hoption, ← search_unnumbered, hcommon, search_eq_ok _ h hunique]
    constructor
    · rintro ⟨hall, rfl⟩
      exact ⟨g.ignore, hfits, hread, hall, rfl⟩
    · rintro ⟨f, hf, -, hall, rfl⟩
      obtain rfl := fits_unique hf hfits
      exact ⟨hall, rfl⟩
  · simp only [he]
    constructor
    · intro hnone
      cases hnone
    · rintro ⟨f, hf, hread, -⟩
      rcases hno with hno | hno
      · exact absurd hf (hno f)
      · exact absurd hread hno

theorem find_ne_none (hunique : o.nounique = false) :
    find o backslashes h ps ≠ none ↔ ∃ f, Fits o backslashes f ∧
      Readable o backslashes (ps.map .text) ∧
      ∀ a ∈ alternativesOf o backslashes (ps.map .text),
        (common o backslashes f).Succeeds h a := by
  rw [Option.ne_none_iff_exists']
  simp only [find_eq_some hunique]
  constructor
  · rintro ⟨xs, f, hf, hread, hall, -⟩
    exact ⟨f, hf, hread, hall⟩
  · rintro ⟨f, hf, hread, hall⟩
    exact ⟨_, f, hf, hread, hall, rfl⟩

/-! ## Two lists of patterns -/

theorem prepare_append (o : Options) (ps qs : List Given) :
    prepare o (ps ++ qs) = prepare o ps ++ prepare o qs := by
  unfold prepare
  split_ifs <;> simp

theorem readable_append {ps qs : List Given} :
    Readable o backslashes (ps ++ qs) ↔ Readable o backslashes ps ∧ Readable o backslashes qs := by
  simp only [Readable, prepare_append, List.forall_mem_append]

theorem alternativesOf_append (ps qs : List Given) :
    alternativesOf o backslashes (ps ++ qs) =
      alternativesOf o backslashes ps ++ alternativesOf o backslashes qs := by
  simp only [alternativesOf, prepare_append, List.flatMap_append]

theorem harvest_of_nonull (hnull : g.options.nonull = false) :
    g.harvest h as = as.flatMap (g.pathsOf h) := by
  simp [harvest, hnull]

/-- Searching for two lists of patterns at once fails if searching for one of them does, and else
finds what is found for the first and then what is found for the second, without repeats; or the
same texts in order. -/
theorem find_append (o : Options) (hunique : o.nounique = false) (backslashes : Bool) (h : Host)
    (ps qs : List String) :
    (find o backslashes h (ps ++ qs) = none ↔
      find o backslashes h ps = none ∨ find o backslashes h qs = none) ∧
    ∀ xs ys, find o backslashes h ps = some xs → find o backslashes h qs = some ys →
      (o.nosort = true → o.nonull = false →
        find o backslashes h (ps ++ qs) = some (xs ++ ys).eraseDups) ∧
      (o.nosort = false →
        find o backslashes h (ps ++ qs) = some (Collation.sort (xs ++ ys).eraseDups)) := by
  constructor
  · rw [← not_iff_not, not_or]
    simp only [find_ne_none hunique, List.map_append, readable_append,
      alternativesOf_append, List.forall_mem_append]
    constructor
    · rintro ⟨f, hf, ⟨hps, hqs⟩, hall, hall'⟩
      exact ⟨⟨f, hf, hps, hall⟩, ⟨f, hf, hqs, hall'⟩⟩
    · rintro ⟨⟨f, hf, hps, hall⟩, ⟨f', hf', hqs, hall'⟩⟩
      obtain rfl := fits_unique hf hf'
      exact ⟨f, hf, ⟨hps, hqs⟩, hall, hall'⟩
  · intro xs ys hxs hys
    obtain ⟨f, hf, hps, hall, rfl⟩ := (find_eq_some hunique).mp hxs
    obtain ⟨f', hf', hqs, hall', rfl⟩ := (find_eq_some hunique).mp hys
    obtain rfl := fits_unique hf hf'
    have hboth : find o backslashes h (ps ++ qs) = some (arrange o
        ((common o backslashes f).harvest h (alternativesOf o backslashes (ps.map .text) ++
          alternativesOf o backslashes (qs.map .text)))) := by
      refine (find_eq_some hunique).mpr ⟨f, hf, ?_, ?_, ?_⟩
      · rw [List.map_append]
        exact readable_append.mpr ⟨hps, hqs⟩
      · rw [List.map_append, alternativesOf_append]
        exact List.forall_mem_append.mpr ⟨hall, hall'⟩
      · rw [List.map_append, alternativesOf_append]
    rw [hboth]
    constructor
    · intro hsort hnull
      simp only [arrange, hsort, if_true, harvest_of_nonull (common o backslashes f) hnull,
        List.flatMap_append, eraseDups_append_eraseDups]
    · intro hsort
      have harranged : ∀ zs : List String, Collation.sort zs.eraseDups = arrange o zs := by
        intro zs
        simp [arrange, hsort]
      rw [harranged]
      refine congrArg some (arrange_congr hsort fun x => ?_)
      simp only [List.mem_append, mem_arrange, mem_harvest, or_and_right, exists_or]

/-- Two lists that both find one path. -/
theorem find_append_overlap :
    find { nosort := true } false Walk.linkedHost ["l/*"] = some ["l/f"] ∧
      find { nosort := true } false Walk.linkedHost ["{d,l}/f"] = some ["d/f", "l/f"] ∧
      find { nosort := true } false Walk.linkedHost ["l/*", "{d,l}/f"] = some ["l/f", "d/f"] := by
  have hfirst : find { nosort := true } false Walk.linkedHost ["l/*"] = some ["l/f"] := by
    rw [find_eq_searchOn]
    decide +kernel
  have hsecond : find { nosort := true } false Walk.linkedHost ["{d,l}/f"] =
      some ["d/f", "l/f"] := by
    rw [find_eq_searchOn]
    decide +kernel
  have hboth := ((find_append { nosort := true } rfl false Walk.linkedHost ["l/*"]
    ["{d,l}/f"]).2 _ _ hfirst hsecond).1 rfl rfl
  exact ⟨hfirst, hsecond, hboth⟩

end Glob

end PathGlob
