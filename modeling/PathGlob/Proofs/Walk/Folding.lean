import PathGlob.Proofs.Pattern.Literal
import PathGlob.Proofs.Walk.Ignoring
import PathGlob.Proofs.Walk.Listed

/-!
# Names in any case

Where case is ignored, a name with letters is not looked up any more but found in a listing, among
its other spellings. So the trails for the names remain, but for a name whose text ends with a
backslash that escapes nothing. And of the names that are still looked up, each stands at its place
in what is found.
-/
namespace PathGlob

/-! ## Segments -/

namespace Segment

/-- What becomes of a segment without wildcards where case is ignored. A name with letters is a
wildcard then. -/
inductive Folds : Segment → Segment → Prop
  | empty : Folds .empty .empty
  | literal (text name : String) : Folds (.literal text name) (.literal text name)
  | magic {text name : String} {mode : Wildcard.Mode} {tokens : List Wildcard.Token}
      (cased : name.toList.any Text.hasCase = true)
      (accepted : Pattern.endsInBackslash text.toList = false →
        Wildcard.accepts mode tokens name.toList = true) :
      Folds (.literal text name) (.magic text mode tokens)

/-- Whether the wildcard that a segment becomes where case is ignored does not accept its name. -/
def losesName : Segment → Bool
  | .literal text name => name.toList.any Text.hasCase && Pattern.endsInBackslash text.toList
  | _ => false

def Keeps (seg : Segment) (c : String) : Prop := ∀ text name, seg = .literal text name → c = name

variable {seg seg' : Segment}

theorem Folds.text_eq (hfolds : seg.Folds seg') : seg'.text = seg.text := by
  cases hfolds <;> rfl

theorem Folds.isEmpty_eq (hfolds : seg.Folds seg') : seg'.isEmpty = seg.isEmpty := by
  cases hfolds <;> rfl

theorem Folds.ne_globstar (hfolds : seg.Folds seg') : seg' ≠ .globstar := by
  rintro rfl
  cases hfolds

theorem Folds.eq_of_literal {text name : String} (hfolds : seg.Folds (.literal text name)) :
    seg = .literal text name := by
  cases hfolds
  rfl

theorem forall₂_folds_map {β : Type} {f : Segment → β} {segs segs' : List Segment}
    (hf : ∀ {seg seg' : Segment}, seg.Folds seg' → f seg' = f seg)
    (hfolds : List.Forall₂ Folds segs segs') : segs'.map f = segs.map f := by
  induction hfolds with
  | nil => rfl
  | cons hfirst hrest ih => rw [List.map_cons, List.map_cons, hf hfirst, ih]

end Segment

theorem forall₂_exists_of_mem_right {α β : Type} {R : α → β → Prop} {xs : List α} {ys : List β}
    (hall : List.Forall₂ R xs ys) {y : β} (hy : y ∈ ys) : ∃ x ∈ xs, R x y := by
  induction hall with
  | nil => cases hy
  | cons hfirst hrest ih =>
    rcases List.mem_cons.mp hy with rfl | hy
    · exact ⟨_, List.mem_cons_self, hfirst⟩
    · obtain ⟨x, hx, hR⟩ := ih hy
      exact ⟨x, List.mem_cons_of_mem _ hx, hR⟩

namespace Walk

structure Folded (w w' : Walk) : Prop where
  options : w'.options = { w.options with nocase := true }
  ignored : w'.ignored = w.ignored
  cwd : w'.cwd = w.cwd
  root : w'.alternative.root = w.alternative.root
  segments : List.Forall₂ Segment.Folds w.alternative.segments w'.alternative.segments

variable {w w' : Walk} {o : Oracle} {h : Host} {rest rest' segs segs' : List Segment}
  {s s' t : Spot}

/-! ## Trails -/

/-- Two spots at one place, though they may know from different sources what is there. -/
structure Beside (o : Oracle) (s s' : Spot) : Prop where
  path : s'.path = s.path
  out : s'.out = s.out
  isDirectory : s'.isDirectory o = s.isDirectory o

theorem Beside.goesOn (hs : Beside o s s') (hign : w'.ignored = w.ignored)
    (hfolds : List.Forall₂ Segment.Folds rest rest') (goes : w.GoesOn o rest s) :
    w'.GoesOn o rest' s' := by
  rcases goes with rfl | ⟨hdir, hkept⟩
  · exact .inl (List.forall₂_nil_left_iff.mp hfolds)
  · exact .inr ⟨hs.isDirectory.trans hdir, by rw [hign, hs.out, hkept]⟩

theorem Beside.slash (hs : Beside o s s') : Beside o s.slash s'.slash where
  path := hs.path
  out := by rw [Spot.slash, Spot.slash, hs.out]
  isDirectory := congrArg o.isDirectory hs.path

theorem Beside.child (hs : Beside o s s') (name : String) {known known' : Option Bool}
    (hknown : (s'.child name known').isDirectory o = (s.child name known).isDirectory o) :
    Beside o (s.child name known) (s'.child name known') where
  path := by rw [Spot.child, Spot.child, hs.path]
  out := by rw [Spot.child, Spot.child, hs.out]
  isDirectory := hknown

/-- What a name leads to, the wildcard for it finds, too. -/
theorem lays_folded (hread : h.files.Readable) (hsearch : h.files.Searchable)
    (hign : w'.ignored = w.ignored) (hlays : w.Lays h.answer segs s t)
    (hnames : ∀ text name, .literal text name ∈ segs → name.toList.any Text.hasCase = true →
      ∃ n : Name, n.text = name)
    (hkeep : ∀ seg ∈ segs, seg.losesName = false) (hfolds : List.Forall₂ Segment.Folds segs segs')
    (hs : Beside h.answer s s')
    (hdir : segs ≠ [] → Oracle.isDirectory h.answer s.path = true) :
    ∃ t', w'.Lays h.answer segs' s' t' ∧ Beside h.answer t t' := by
  induction hlays generalizing segs' s' with
  | nil =>
    cases hfolds
    exact ⟨s', .nil s', hs⟩
  | empty dir more ih =>
    obtain ⟨-, hkeep⟩ := List.forall_mem_cons.mp hkeep
    cases hfolds with
    | cons hfirst hfolds =>
      cases hfirst
      obtain ⟨t', hlays, ht⟩ := ih (names_of_cons hnames) hkeep hfolds hs.slash fun _ => dir
      exact ⟨t', .empty (by rwa [hs.path]) hlays, ht⟩
  | @literal text name rest s t there goes more ih =>
    obtain ⟨hfirstKeeps, hrestKeeps⟩ := List.forall_mem_cons.mp hkeep
    have hdirRest : rest ≠ [] → Oracle.isDirectory h.answer (s.child name none).path = true :=
      fun hne => (goes.resolve_left hne).1
    cases hfolds with
    | cons hfirst hfolds =>
      cases hfirst with
      | literal =>
        have hchild : Beside h.answer (s.child name none) (s'.child name none) :=
          hs.child name
            (congrArg (fun p => Oracle.isDirectory h.answer (Path.child p name)) hs.path)
        obtain ⟨t', hlays, ht⟩ := ih (names_of_cons hnames) hrestKeeps hfolds hchild hdirRest
        exact ⟨t', .literal (by rwa [hs.path]) (hchild.goesOn hign hfolds goes) hlays, ht⟩
      | magic cased accepted =>
        obtain ⟨n, rfl⟩ := hnames text name List.mem_cons_self cased
        obtain ⟨e, he, rfl⟩ := mem_entries_of_isThere hread (hdir (by simp)) there
        have hends : Pattern.endsInBackslash text.toList = false := by
          simpa [Segment.losesName, cased] using hfirstKeeps
        have hchild : Beside h.answer (s.child e.name.text none)
            (s'.child e.name.text (some e.isDir)) :=
          hs.child e.name.text (Host.entry_isDir hsearch he)
        obtain ⟨t', hlays, ht⟩ := ih (names_of_cons hnames) hrestKeeps hfolds hchild hdirRest
        exact ⟨t', .magic (by rwa [hs.path]) (accepted hends) (hchild.goesOn hign hfolds goes)
          hlays, ht⟩
  | magic listed accepted goes more ih =>
    cases hfolds with
    | cons hfirst hfolds => cases hfirst
  | globstar sweep more ih =>
    cases hfolds with
    | cons hfirst hfolds => cases hfirst

/-- The components behind a spot stand side by side with the segments. -/
theorem keeps_of_lays (hlays : w.Lays o segs s t)
    (hnames : ∀ text name, .literal text name ∈ segs → name ≠ "" ∧ '/' ∉ name.toList)
    (hstars : ∀ seg ∈ segs, seg ≠ .globstar) :
    ∃ cs, t.out = s.out ++ cs ∧ List.Forall₂ Segment.Keeps segs cs ∧ ∀ c ∈ cs, '/' ∉ c.toList := by
  induction hlays with
  | nil s => exact ⟨[], by simp, .nil, by simp⟩
  | @empty rest s t dir more ih =>
    obtain ⟨-, hstars⟩ := List.forall_mem_cons.mp hstars
    obtain ⟨cs, hout, hkeeps, hslash⟩ := ih (names_of_cons hnames) hstars
    refine ⟨"" :: cs, ?_, .cons (fun _ _ heq => by cases heq) hkeeps, ?_⟩
    · rw [hout, Spot.slash, List.append_assoc, List.singleton_append]
    · exact List.forall_mem_cons.mpr ⟨by simp, hslash⟩
  | @literal text name rest s t there goes more ih =>
    obtain ⟨-, hstars⟩ := List.forall_mem_cons.mp hstars
    obtain ⟨cs, hout, hkeeps, hslash⟩ := ih (names_of_cons hnames) hstars
    refine ⟨name :: cs, ?_, .cons (fun _ _ heq => ?_) hkeeps, ?_⟩
    · rw [hout, Spot.child, List.append_assoc, List.singleton_append]
    · exact (Segment.literal.inj heq).2
    · exact List.forall_mem_cons.mpr ⟨(hnames text name List.mem_cons_self).2, hslash⟩
  | @magic text mode tokens rest s t e listed accepted goes more ih =>
    obtain ⟨-, hstars⟩ := List.forall_mem_cons.mp hstars
    obtain ⟨cs, hout, hkeeps, hslash⟩ := ih (names_of_cons hnames) hstars
    refine ⟨e.name.text :: cs, ?_, .cons (fun _ _ heq => by cases heq) hkeeps, ?_⟩
    · rw [hout, Spot.child, List.append_assoc, List.singleton_append]
    · exact List.forall_mem_cons.mpr ⟨e.name.slash_not_mem, hslash⟩
  | globstar sweep more ih => exact absurd rfl (hstars _ List.mem_cons_self)

/-! ## Walks -/

namespace Folded

variable (hw : w.Folded w')

include hw

theorem isAbsolute : w'.alternative.isAbsolute = w.alternative.isAbsolute := by
  rw [Alternative.isAbsolute, Alternative.isAbsolute, hw.root]

theorem root_eq : w'.root = w.root := by
  rw [Walk.root, Walk.root, hw.isAbsolute, hw.root, hw.cwd]

theorem parts : w'.alternative.parts = w.alternative.parts :=
  Segment.forall₂_folds_map Segment.Folds.text_eq hw.segments

theorem start : w'.start = w.start := by
  rw [Walk.start, Walk.start, hw.root_eq, hw.isAbsolute, hw.parts]

theorem ahead : List.Forall₂ Segment.Folds w.ahead w'.ahead := by
  unfold Walk.ahead
  rw [hw.isAbsolute]
  split
  · exact List.forall₂_drop 1 hw.segments
  · exact hw.segments

theorem dirOnly : w'.alternative.dirOnly = w.alternative.dirOnly := by
  have hempty := Segment.forall₂_folds_map Segment.Folds.isEmpty_eq hw.segments
  rw [Alternative.dirOnly, Alternative.dirOnly, ← hw.segments.length_eq, ← List.getLast?_map,
    hempty, List.getLast?_map]

theorem emits (ht : Beside o t s) : w'.emits o s = w.emits o t := by
  have hmarked : w'.marked = w.marked := by
    funext isDir path
    rw [marked, marked, hw.dirOnly, hw.options]
  unfold Walk.emits shown
  rw [ht.path, ht.out, ht.isDirectory, hmarked, hw.ignored, hw.options, hw.isAbsolute, hw.cwd]

theorem literal_ahead {text name : String} (hmem : .literal text name ∈ w'.ahead) :
    .literal text name ∈ w.ahead := by
  obtain ⟨seg, hseg, hfolds⟩ := forall₂_exists_of_mem_right hw.ahead hmem
  rwa [← hfolds.eq_of_literal]

/-- Where the walk of the names ends well, the other does. -/
theorem result_runOn (ha : w.alternative.Compiled) (hclean : w.alternative.Clean)
    (hread : h.files.Readable) (hcanon : w.Canonizes h.answer)
    (hok : (w.runOn h).result = .ok ()) : (w'.runOn h).result = .ok () := by
  have hempty := Cache.agrees_empty h.answer
  have hnames := names_of_clean ha hclean
  have hcanon' : w'.Canonizes h.answer := by
    rw [Canonizes, hw.options]
    exact hcanon
  have hdir : Oracle.isDirectory h.answer w.root = true := isDirectory_root_of_outcome hok
  refine (outcome_script_iff hempty (fun text name hmem => hnames text name (hw.literal_ahead hmem))
    hcanon' le_rfl).mpr ?_
  rw [hw.root_eq]
  exact ⟨hdir, fun _ => ⟨_, answer_list_of_isDirectory hread hdir⟩⟩

/-- What is found by the names is found in any case, too. -/
theorem mem_paths (ha : w.alternative.Compiled) (hclean : w.alternative.Clean)
    (hread : h.files.Readable) (hsearch : h.files.Searchable) (hcanon : w.Canonizes h.answer)
    (hok : (w.runOn h).result = .ok ())
    (hkeep : ∀ seg ∈ w.alternative.segments, seg.losesName = false) {r : String}
    (hr : r ∈ Event.paths (w.runOn h).events) : r ∈ Event.paths (w'.runOn h).events := by
  have hdir : Oracle.isDirectory h.answer w.root = true := isDirectory_root_of_outcome hok
  obtain ⟨t, hlays, ht⟩ := (finds_script hok).mp (Event.mem_paths.mp hr)
  have hnames : ∀ text name, .literal text name ∈ w.ahead →
      name.toList.any Text.hasCase = true → ∃ n : Name, n.text = name := by
    intro text name hmem hcased
    apply ha.exists_name hclean (mem_segments_of_mem_ahead hmem)
    · rintro rfl
      revert hcased
      decide
    · rintro rfl
      revert hcased
      decide
  obtain ⟨t', hlays', hbeside⟩ := lays_folded hread hsearch hw.ignored hlays hnames
    (fun seg hseg => hkeep seg (mem_segments_of_mem_ahead hseg)) hw.ahead ⟨rfl, rfl, rfl⟩
    fun _ => hdir
  refine Event.mem_paths.mpr ((finds_script (hw.result_runOn ha hclean hread hcanon hok)).mpr
    ⟨t', ?_, (hw.emits hbeside).trans ht⟩)
  rwa [hw.start]

end Folded

/-- Nothing but names and slashes: each component of a result stands beside a segment. -/
theorem keeps_of_mem_paths (ha : w.alternative.Compiled)
    (hstars : ∀ seg ∈ w.alternative.segments, seg ≠ .globstar)
    {front : List Segment} (hfront : w.alternative.segments = front ++ w.ahead)
    (hstart : List.Forall₂ Segment.Keeps front w.start.out)
    (hslash : ∀ c ∈ w.start.out, '/' ∉ c.toList) (hreal : w.options.realpath = false)
    (habs : w.options.absolute = false) (hmark : w.options.mark = false)
    (hok : (w.runOn h).result = .ok ()) {r : String} (hr : r ∈ Event.paths (w.runOn h).events) :
    List.Forall₂ Segment.Keeps w.alternative.segments (Path.components r) := by
  obtain ⟨t, hlays, ht⟩ := (finds_script hok).mp (Event.mem_paths.mp hr)
  obtain ⟨hne, rfl⟩ := eq_spell_of_emits hreal habs hmark hlays ht
  obtain ⟨cs, hout, hkeeps, hslash'⟩ := keeps_of_lays hlays (names_ahead ha)
    fun seg hseg => hstars seg (mem_segments_of_mem_ahead hseg)
  have hwhole : t.out ≠ [] := by
    intro hnil
    rw [hnil] at hne
    exact hne rfl
  have hcomponents : Path.components (spell t.out) = t.out := by
    refine Path.components_intercalate hwhole fun c hc => ?_
    rw [hout, List.mem_append] at hc
    exact hc.elim (hslash c) (hslash' c)
  rw [hcomponents, hout, hfront]
  exact List.rel_append hstart hkeeps

end Walk

end PathGlob
