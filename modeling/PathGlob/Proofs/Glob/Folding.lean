import PathGlob.Proofs.Glob.Expanded
import PathGlob.Proofs.Glob.Fatal
import PathGlob.Proofs.Walk.Folding

/-!
# Searching in any case

A search for names finds them also where case is ignored, among other spellings of theirs. Only a
name is lost whose text ends with a backslash that escapes nothing, since the wildcard for it passes
over the backslash. Names without letters still stand as they are in all that is found.
-/
namespace PathGlob

namespace Pattern

variable {o : Options} {cs : List Char}

/-- A segment without wildcards is read as one for the same name in any case. -/
theorem folds_readSegment (hplain : (readSegment o cs).isMagic = false) :
    (readSegment o cs).Folds (readSegment { o with nocase := true } cs) := by
  cases hread : readSegment o cs with
  | empty =>
    rw [readSegment_eq_empty.mp hread]
    exact .empty
  | literal text name =>
    obtain ⟨hcs, hwild, hname⟩ := of_readSegment_literal hread
    have htext : text = String.ofList cs := by
      rw [← text_readSegment o cs, hread, Segment.text]
    have hstar : ¬(cs = ['*', '*'] ∧ ({ o with nocase := true } : Options).globstar = true) := by
      rintro ⟨rfl, -⟩
      cases hwild
    have hwild' : hasWildcard ({ o with nocase := true } : Options).extended cs = false := hwild
    have hfolded : readSegment { o with nocase := true } cs =
        if name.toList.any Text.hasCase then
          .magic text (matchMode { o with nocase := true }) (Wildcard.read o.extended cs)
        else .literal text name := by
      rw [htext, hname, String.toList_ofList, readSegment, if_neg hcs, if_neg hstar]
      simp only [hwild', Bool.false_or, Bool.true_and]
      rfl
    rw [hfolded]
    split
    next hcased =>
      refine .magic hcased fun hends => ?_
      rw [htext, String.toList_ofList] at hends
      exact accepts_value hread hends _
    · exact .literal text name
  | magic text mode tokens =>
    rw [hread] at hplain
    cases hplain
  | globstar =>
    rw [hread] at hplain
    cases hplain

/-- The name of a drive is written as it is. -/
theorem text_eq_of_root {drives : Bool} {rest : List (List Char)} {text name : String}
    (hroot : rootOf drives (cs :: rest) ≠ "") (hread : readSegment o cs = .literal text name) :
    text = name := by
  obtain ⟨hne, -, rfl⟩ := of_readSegment_literal hread
  have htext : text = String.ofList cs := by
    rw [← text_readSegment o cs, hread, Segment.text]
  cases rest with
  | nil => exact absurd rfl hroot
  | cons second more =>
    rw [rootOf, if_neg hne] at hroot
    split at hroot
    next hdrive =>
      obtain ⟨c, rfl, hc⟩ := isAlpha_of_isDrive (Bool.and_eq_true_iff.mp hdrive).2
      have hescape : '\\' ≠ c := by
        rintro rfl
        cases hc
      rw [htext, dropBackslashes_eq_self (by simp [hescape])]
    · exact absurd rfl hroot

/-- Two readings of one text, the second with case ignored. -/
def ReadInAnyCase (o : Options) (drives : Bool) (a a' : Alternative) : Prop :=
  ∃ i n cs, a = readAlternative o drives i n cs ∧
    a' = readAlternative { o with nocase := true } drives i n cs

end Pattern

open Pattern (ReadInAnyCase)

namespace Glob

variable {o : Options} {drives backslashes : Bool} {h : Host} {g g' : Glob} {a a' : Alternative}

/-! ## Alternatives in any case -/

theorem forall₂_mapIdx {α β γ : Type} {R : β → γ → Prop} {f : Nat → α → β} {f' : Nat → α → γ}
    (hf : ∀ i x, R (f i x) (f' i x)) (xs : List α) :
    List.Forall₂ R (xs.mapIdx f) (xs.mapIdx f') := by
  rw [List.mapIdx_eq_zipIdx_map, List.mapIdx_eq_zipIdx_map, List.forall₂_map_left_iff,
    List.forall₂_map_right_iff, List.forall₂_same]
  exact fun x _ => hf x.2 x.1

/-- Case matters neither to whether patterns are read nor to which texts they stand for. -/
theorem compileAll_nocase {given : List Given} {i n : Nat} {texts : List String}
    {as : List Alternative} (hread : compileAll o drives i n given = .ok (texts, as)) :
    ∃ as', compileAll { o with nocase := true } drives i n given = .ok (texts, as') ∧
      List.Forall₂ (ReadInAnyCase o drives) as as' := by
  induction given generalizing i n texts as with
  | nil =>
    cases hread
    exact ⟨[], rfl, .nil⟩
  | cons first given ih =>
    cases first with
    | other kind => cases hread
    | text pattern =>
      rw [compileAll] at hread ⊢
      cases hown : Pattern.compile o drives i n pattern with
      | error e => simp [hown, bind, Except.bind] at hread
      | ok own =>
        obtain ⟨hlen, expanded, hexpand, rfl⟩ := compile_eq_ok.mp hown
        cases hmore : compileAll o drives (i + 1) (n + expanded.length) given with
        | error e => simp [hown, hmore, bind, Except.bind] at hread
        | ok more =>
          obtain ⟨as', has', hall⟩ := ih hmore
          have hfolded : Pattern.compile { o with nocase := true } drives i n pattern =
              .ok (expanded.mapIdx fun k cs =>
                Pattern.readAlternative { o with nocase := true } drives i (n + k) cs) :=
            compile_eq_ok.mpr ⟨hlen, expanded, hexpand, rfl⟩
          simp only [hown, List.length_mapIdx, hmore, bind, Except.bind, pure, Except.pure,
            Except.ok.injEq, Prod.mk.injEq] at hread
          obtain ⟨rfl, rfl⟩ := hread
          refine ⟨_, ?_, List.rel_append (forall₂_mapIdx (fun k cs => ⟨i, n + k, cs, rfl, rfl⟩)
            expanded) hall⟩
          simp [hfolded, has', bind, Except.bind, pure, Except.pure]

/-- The walks of two readings without wildcards are for the same names. -/
theorem folded_of_read (hignore : g'.ignore = g.ignore)
    (hoptions : g'.options = { g.options with nocase := true })
    (hread : ReadInAnyCase g.options drives a a')
    (hplain : ∀ seg ∈ a.segments, seg.isMagic = false) (h : Host) :
    (g.walk h a).Folded (g'.walk h a') := by
  obtain ⟨i, n, cs, rfl, rfl⟩ := hread
  refine ⟨hoptions, ?_, ?_, rfl, ?_⟩
  · simp only [walk, hignore]
  · simp only [walk, directory, hoptions]
  · have hparts : Pattern.splitParts { g.options with nocase := true } cs =
        Pattern.splitParts g.options cs := rfl
    simp only [walk, Pattern.readAlternative, hparts] at hplain ⊢
    rw [List.forall₂_map_left_iff, List.forall₂_map_right_iff, List.forall₂_same]
    exact fun part hpart => Pattern.folds_readSegment (hplain _ (List.mem_map_of_mem hpart))

structure InAnyCase (g g' : Glob) : Prop where
  options : g'.options = { g.options with nocase := true }
  walks : List.Forall₂ (fun a a' => ∀ h, (g.walk h a).Folded (g'.walk h a')) g.alternatives
    g'.alternatives

theorem exists_inAnyCase {given : List Given} (hmake : make o backslashes given = .ok g)
    (hplain : ∀ a ∈ g.alternatives, ∀ seg ∈ a.segments, seg.isMagic = false) :
    ∃ g', make { o with nocase := true } backslashes given = .ok g' ∧ g.InAnyCase g' := by
  obtain ⟨hfits, hoptions, hcompile⟩ := make_eq_ok.mp hmake
  obtain ⟨as', hcompile', hall⟩ := compileAll_nocase hcompile
  let g' : Glob := ⟨g.patterns, settle { o with nocase := true } backslashes, as', g.ignore⟩
  have hoptions' : g'.options = { g.options with nocase := true } := by
    rw [hoptions]
    rfl
  have hignore : g'.ignore = g.ignore := rfl
  refine ⟨g', make_eq_ok.mpr ⟨hfits, rfl, hcompile'⟩, hoptions', ?_⟩
  rw [← hoptions] at hall
  refine List.Forall₂.imp (fun a a' ha h => ?_) ((List.forall₂_and_left _ _).mpr ⟨hplain, hall⟩)
  exact folded_of_read hignore hoptions' ha.2 ha.1 h

theorem exists_of_mem_prepare {ps : List String} {pattern : String} (hbase : o.matchBase = false)
    (hmem : .text pattern ∈ prepare o (ps.map .text)) :
    ∃ p ∈ ps, ∀ c ∈ pattern.toList, c = '/' ∨ c ∈ p.toList := by
  rw [prepare, hbase, if_neg Bool.false_ne_true] at hmem
  split at hmem
  · rw [List.map_map] at hmem
    obtain ⟨p, hp, heq⟩ := List.mem_map.mp hmem
    cases heq
    refine ⟨p, hp, fun c hc => ?_⟩
    rw [toSlashes, String.toList_ofList] at hc
    obtain ⟨d, hd, rfl⟩ := List.mem_map.mp hc
    split
    · exact .inl rfl
    · exact .inr hd
  · obtain ⟨p, hp, heq⟩ := List.mem_map.mp hmem
    obtain rfl := Given.text.inj heq
    exact ⟨_, hp, fun c hc => .inr hc⟩

/-- Alternatives of patterns without null characters have none in their names. -/
theorem clean_of_make {ps : List String} (hmake : make o backslashes (ps.map .text) = .ok g)
    (hnull : ∀ p ∈ ps, hasNull p = false) (hbase : o.matchBase = false) :
    ∀ a ∈ g.alternatives, a.Clean := by
  obtain ⟨origins, horigins, hfrom⟩ := exists_origins_of_make hmake
  intro a ha
  rw [horigins] at ha
  obtain ⟨k, hk, rfl⟩ := List.mem_mapIdx.mp ha
  obtain ⟨pattern, texts, hmem, hexpand, htext⟩ := hfrom _ (List.getElem_mem hk)
  obtain ⟨p, hp, hchars⟩ := exists_of_mem_prepare hbase hmem
  refine Pattern.clean_readAlternative (Pattern.not_mem_of_expand Brace.foreign_null ?_ hexpand _
    htext) _ _ _
  intro hmem
  rcases hchars _ hmem with heq | hin
  · cases heq
  · simpa [hasNull, hin] using hnull p hp

/-- What an absolute alternative begins with is the text of its first segment. -/
theorem keeps_start {w : Walk} (ha : w.alternative.Compiled) :
    ∃ front, w.alternative.segments = front ++ w.ahead ∧
      List.Forall₂ Segment.Keeps front w.start.out ∧ ∀ c ∈ w.start.out, '/' ∉ c.toList := by
  obtain ⟨o, drives, i, n, cs, hread⟩ := ha.exists_read
  unfold Walk.start Walk.ahead
  cases habs : w.alternative.isAbsolute with
  | false => exact ⟨[], rfl, .nil, by simp⟩
  | true =>
    obtain ⟨first, rest, hsplit⟩ := List.exists_cons_of_ne_nil (Pattern.splitParts_ne_nil o cs)
    have hsegs : w.alternative.segments =
        Pattern.readSegment o first :: rest.map (Pattern.readSegment o) := by
      rw [hread, Pattern.readAlternative, hsplit, List.map_cons]
    have hroot : Pattern.rootOf drives (first :: rest) ≠ "" := by
      rw [Alternative.isAbsolute, bne_iff_ne, hread, Pattern.readAlternative, hsplit] at habs
      exact habs
    have hparts : w.alternative.parts.take 1 = [String.ofList first] := by
      rw [Alternative.parts, hsegs, List.map_cons, Pattern.text_readSegment]
      rfl
    rw [if_pos rfl, if_pos rfl, hsegs, hparts]
    refine ⟨[Pattern.readSegment o first], rfl, .cons (fun text name hname => ?_) .nil, ?_⟩
    · rw [← Pattern.text_eq_of_root hroot hname, ← Pattern.text_readSegment o first, hname,
        Segment.text]
    · intro c hc
      rw [List.mem_singleton.mp hc, String.toList_ofList]
      exact Pattern.slash_not_mem_of_mem_splitParts (hsplit ▸ List.mem_cons_self)

theorem succeeds_iff : g.Succeeds h a ↔ ((g.walk h a).runOn h).result = .ok () := by
  rw [Succeeds, Walk.run_of_agrees _ _ (Cache.agrees_empty h.answer)]

theorem mem_pathsOf {r : String} :
    r ∈ g.pathsOf h a ↔ r ∈ Event.paths ((g.walk h a).runOn h).events := by
  rw [pathsOf, Walk.run_of_agrees _ _ (Cache.agrees_empty h.answer)]

/-- What a search returns that drops repeats and reports only what is found. -/
theorem search_eq_ok_iff {c : Cache} (hc : c.Agrees h.answer) (hnull : g.options.nonull = false)
    (hunique : g.options.nounique = false) {xs : List String} :
    (g.search h c).result = .ok xs ↔ (∀ a ∈ g.alternatives, g.Succeeds h a) ∧
      xs = arrange g.options (g.alternatives.flatMap (g.pathsOf h)) := by
  have hsearch : (g.search h c).result = (g.search h .empty).result := by
    rw [search_of_agrees hc, search_of_agrees (Cache.agrees_empty h.answer)]
  rw [hsearch, search_eq_ok g h hunique, harvest_of_nonull g hnull]

section

variable (hg : g.InAnyCase g') (hcompiled : ∀ a ∈ g.alternatives, a.Compiled)
  (hclean : ∀ a ∈ g.alternatives, a.Clean) (hread : h.files.Readable)
  (hfree : g.options.realpath = true → h.files.NullFree)
  (hok : ∀ a ∈ g.alternatives, g.Succeeds h a)

include hg hcompiled hclean hread hfree hok

theorem InAnyCase.succeeds : ∀ a' ∈ g'.alternatives, g'.Succeeds h a' := by
  intro a' ha'
  obtain ⟨a, ha, hfolded⟩ := forall₂_exists_of_mem_right hg.walks ha'
  exact succeeds_iff.mpr ((hfolded h).result_runOn (hcompiled a ha) (hclean a ha) hread
    (Walk.canonizes_answer (w := g.walk h a) hfree) (succeeds_iff.mp (hok a ha)))

theorem InAnyCase.exists_of_mem_pathsOf (hsearch : h.files.Searchable) {x : String}
    (ha : a ∈ g.alternatives) (hkeep : ∀ seg ∈ a.segments, seg.losesName = false)
    (hx : x ∈ g.pathsOf h a) : ∃ a' ∈ g'.alternatives, x ∈ g'.pathsOf h a' := by
  obtain ⟨a', ha', hfolded⟩ := forall₂_exists_of_mem_right (List.Forall₂.flip hg.walks) ha
  refine ⟨a', ha', mem_pathsOf.mpr ?_⟩
  exact Walk.Folded.mem_paths (hfolded h) (hcompiled a ha) (hclean a ha) hread hsearch
    (Walk.canonizes_answer (w := g.walk h a) hfree) (succeeds_iff.mp (hok a ha)) hkeep
    (mem_pathsOf.mp hx)

end

theorem InAnyCase.keeps (hg : g.InAnyCase g') (ha' : a' ∈ g'.alternatives)
    (hcompiled : a'.Compiled) (hok : g'.Succeeds h a') (hreal : g'.options.realpath = false)
    (habs : g'.options.absolute = false) (hmark : g'.options.mark = false) {y : String}
    (hy : y ∈ g'.pathsOf h a') : List.Forall₂ Segment.Keeps a'.segments (Path.components y) := by
  obtain ⟨a, ha, hfolded⟩ := forall₂_exists_of_mem_right hg.walks ha'
  have hstars : ∀ seg ∈ a'.segments, seg ≠ .globstar := by
    intro seg hseg
    obtain ⟨_, _, hfolds⟩ := forall₂_exists_of_mem_right (hfolded h).segments hseg
    exact hfolds.ne_globstar
  obtain ⟨front, hfront, hstart, hslash⟩ := keeps_start (w := g'.walk h a') hcompiled
  exact Walk.keeps_of_mem_paths (w := g'.walk h a') hcompiled hstars hfront hstart hslash hreal
    habs hmark (succeeds_iff.mp hok) (mem_pathsOf.mp hy)

/-- Where all directories may be listed and searched and no pattern has wildcards, whatever a search
finds it also finds with case ignored, unless it comes from an alternative with a name of letters
whose text ends with a backslash that escapes nothing. And each component of what is found then
stands for a segment, and is its name if it still is a name. -/
theorem search_nocase (o : Options) (backslashes : Bool) (ps : List String) (g : Glob) (h : Host)
    (c c' : Cache) (hmake : make o backslashes (ps.map .text) = .ok g)
    (hplain : ∀ a ∈ g.alternatives, ∀ seg ∈ a.segments, seg.isMagic = false)
    (hclean : ∀ p ∈ ps, hasNull p = false) (hbase : o.matchBase = false)
    (hnull : o.nonull = false) (hunique : o.nounique = false) (hread : h.files.Readable)
    (hsearch : h.files.Searchable) (hfree : o.realpath = true → h.files.NullFree)
    (hc : c.Agrees h.answer) (hc' : c'.Agrees h.answer) :
    ∃ g', make { o with nocase := true } backslashes (ps.map .text) = .ok g' ∧
      (∀ xs, (g.search h c).result = .ok xs → ∃ ys, (g'.search h c').result = .ok ys ∧
        ∀ x ∈ xs, x ∈ ys ∨ ∃ a ∈ g.alternatives, x ∈ g.pathsOf h a ∧
          ∃ seg ∈ a.segments, seg.losesName = true) ∧
      (o.realpath = false → o.absolute = false → o.mark = false →
        ∀ ys, (g'.search h c').result = .ok ys → ∀ y ∈ ys, ∃ a ∈ g'.alternatives,
          y ∈ g'.pathsOf h a ∧ List.Forall₂ Segment.Keeps a.segments (Path.components y)) := by
  obtain ⟨g', hmake', hg⟩ := exists_inAnyCase hmake hplain
  obtain ⟨-, hoptions, -⟩ := make_eq_ok.mp hmake
  have hcompiled := compiled_of_make hmake
  have hnames := clean_of_make hmake hclean hbase
  have hnull' : g'.options.nonull = false := by
    rw [hg.options, hoptions]
    exact hnull
  have hunique' : g'.options.nounique = false := by
    rw [hg.options, hoptions]
    exact hunique
  refine ⟨g', hmake', fun xs hxs => ?_, fun hreal habs hmark ys hys y hy => ?_⟩
  · obtain ⟨hok, rfl⟩ := (search_eq_ok_iff hc (by rw [hoptions]; exact hnull)
      (by rw [hoptions]; exact hunique)).mp hxs
    have hfree' : g.options.realpath = true → h.files.NullFree := by
      rw [hoptions]
      exact hfree
    have hok' := hg.succeeds hcompiled hnames hread hfree' hok
    refine ⟨_, (search_eq_ok_iff hc' hnull' hunique').mpr ⟨hok', rfl⟩, fun x hx => ?_⟩
    obtain ⟨a, ha, hx⟩ := List.mem_flatMap.mp (mem_arrange.mp hx)
    by_cases hloses : ∃ seg ∈ a.segments, seg.losesName = true
    · exact .inr ⟨a, ha, hx, hloses⟩
    · have hkeep : ∀ seg ∈ a.segments, seg.losesName = false := by simpa using hloses
      have hx' := hg.exists_of_mem_pathsOf hcompiled hnames hread hfree' hok hsearch ha hkeep hx
      exact .inl (mem_arrange.mpr (List.mem_flatMap.mpr hx'))
  · obtain ⟨hok, rfl⟩ := (search_eq_ok_iff hc' hnull' hunique').mp hys
    obtain ⟨a', ha', hy⟩ := List.mem_flatMap.mp (mem_arrange.mp hy)
    refine ⟨a', ha', hy, hg.keeps ha' (compiled_of_make hmake' a' ha') (hok a' ha') ?_ ?_ ?_ hy⟩
    · rw [hg.options, hoptions]
      exact hreal
    · rw [hg.options, hoptions]
      exact habs
    · rw [hg.options, hoptions]
      exact hmark

def caseHost : Host :=
  ⟨(FileSystem.empty.apply (.file (.ofText "w/AB") [])).apply (.file (.ofText "w/ab") []), "/w"⟩

/-- The dot stays, and the name is found in its own case. -/
theorem search_nocase_dot :
    ∃ g', make { nocase := true } false [.text "./ab"] = .ok g' ∧
      ∃ ys, (g'.search caseHost .empty).result = .ok ys ∧ "./ab" ∈ ys ∧
        ∀ y ∈ ys, ∃ a ∈ g'.alternatives,
          List.Forall₂ Segment.Keeps a.segments (Path.components y) := by
  let a : Alternative := Pattern.readAlternative {} false 0 0 "./ab".toList
  let g : Glob := ⟨["./ab"], settle {} false, [a], .none⟩
  have hempty := Cache.agrees_empty caseHost.answer
  have hmake : make {} false (["./ab"].map .text) = .ok g :=
    make_eq_ok.mpr ⟨⟨rfl, rfl⟩, rfl, by rfl⟩
  have hfound : (g.search caseHost .empty).result = .ok ["./ab"] := by
    rw [search_of_agrees hempty]
    decide +kernel
  obtain ⟨hread, hsearch⟩ := FileSystem.open_of_isOpen caseHost.files (by decide +kernel)
  obtain ⟨g', hmake', hkept, hnames⟩ := search_nocase {} false ["./ab"] g caseHost .empty .empty
    hmake (by decide +kernel) (by decide) rfl rfl rfl hread hsearch (by simp) hempty hempty
  obtain ⟨ys, hys, hmem⟩ := hkept ["./ab"] hfound
  refine ⟨g', hmake', ys, hys, (hmem "./ab" List.mem_cons_self).resolve_right ?_, fun y hy => ?_⟩
  · rintro ⟨b, hb, -, hloses⟩
    obtain rfl := List.mem_singleton.mp hb
    revert hloses
    decide +kernel
  · obtain ⟨a', ha', -, hkeeps⟩ := hnames rfl rfl rfl ys hys y hy
    exact ⟨a', ha', hkeeps⟩

def backslashHost : Host := ⟨FileSystem.empty.apply (.file (.ofText "w/a\\") []), "/w"⟩

/-- With case ignored the file is not found any more. -/
theorem exists_lost_in_any_case :
    ¬ ∀ (ps : List String) (h : Host) (xs ys : List String), h.files.Readable →
      h.files.Searchable → (∀ p ∈ ps, hasNull p = false) →
      (∀ g, make {} false (ps.map .text) = .ok g →
        ∀ a ∈ g.alternatives, ∀ seg ∈ a.segments, seg.isMagic = false) →
      find {} false h ps = some xs → find { nocase := true } false h ps = some ys →
        ∀ x ∈ xs, x ∈ ys := by
  intro hall
  let a : Alternative := Pattern.readAlternative {} false 0 0 "a\\".toList
  have hmake : make {} false (["a\\"].map .text) = .ok ⟨["a\\"], settle {} false, [a], .none⟩ :=
    make_eq_ok.mpr ⟨⟨rfl, rfl⟩, rfl, by rfl⟩
  have hplain : ∀ g, make {} false (["a\\"].map .text) = .ok g →
      ∀ a ∈ g.alternatives, ∀ seg ∈ a.segments, seg.isMagic = false := by
    intro g hg
    obtain rfl := Except.ok.inj (hmake.symm.trans hg)
    decide +kernel
  have hfound : find {} false backslashHost ["a\\"] = some ["a\\"] := by
    rw [find_eq_searchOn]
    decide +kernel
  have hlost : find { nocase := true } false backslashHost ["a\\"] = some [] := by
    rw [find_eq_searchOn]
    decide +kernel
  obtain ⟨hread, hsearch⟩ := FileSystem.open_of_isOpen backslashHost.files (by decide +kernel)
  have hmem := hall ["a\\"] backslashHost _ _ hread hsearch (by decide) hplain hfound hlost "a\\"
    List.mem_cons_self
  cases hmem

end Glob

end PathGlob
