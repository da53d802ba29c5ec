import PathGlob.Proofs.Walk.Layout

/-!
# Segments of patterns that are read

What stands between slashes has no slash, so that each literal name is one component of a path.
-/
namespace PathGlob

namespace Pattern

variable {o : Options} {cs part : List Char} {parts : List (List Char)}

/-! ## Splitting -/

theorem mem_of_mem_mergeGlobstars (h : part ∈ mergeGlobstars parts) : part ∈ parts := by
  fun_induction mergeGlobstars parts with
  | case1 a b rest hboth ih => exact List.mem_cons_of_mem _ (ih h)
  | case2 a b rest hdiff ih =>
    rcases List.mem_cons.mp h with rfl | h
    · exact List.mem_cons_self
    · exact List.mem_cons_of_mem _ (ih h)
  | case3 => exact h

theorem mergeGlobstars_ne_nil (h : parts ≠ []) : mergeGlobstars parts ≠ [] := by
  fun_induction mergeGlobstars parts with
  | case1 a b rest hboth ih => exact ih (by simp)
  | case2 a b rest hdiff ih => simp
  | case3 => exact h

theorem slash_not_mem_of_mem_splitParts (h : part ∈ splitParts o cs) : '/' ∉ part := by
  unfold splitParts at h
  split at h
  · exact Path.slash_not_mem_of_mem_splitOn (mem_of_mem_mergeGlobstars h)
  · exact Path.slash_not_mem_of_mem_splitOn h

theorem splitParts_ne_nil (o : Options) (cs : List Char) : splitParts o cs ≠ [] := by
  unfold splitParts
  split
  · exact mergeGlobstars_ne_nil (List.splitOn_ne_nil _ _)
  · exact List.splitOn_ne_nil _ _

/-! ## Reading a segment -/

theorem mem_of_mem_dropBackslashes {c : Char} (h : c ∈ dropBackslashes cs) : c ∈ cs := by
  fun_induction dropBackslashes cs with
  | case1 d cs ih =>
    rcases List.mem_cons.mp h with rfl | h
    · simp
    · simp [ih h]
  | case2 d cs hno ih =>
    rcases List.mem_cons.mp h with rfl | h
    · simp
    · simp [ih h]
  | case3 => exact h

theorem dropBackslashes_ne_nil (h : cs ≠ []) : dropBackslashes cs ≠ [] := by
  fun_cases dropBackslashes cs with
  | case1 d cs => simp
  | case2 d cs hno => simp
  | case3 => exact h

theorem dropBackslashes_eq_self (h : '\\' ∉ cs) : dropBackslashes cs = cs := by
  induction cs with
  | nil => rfl
  | cons c cs ih =>
    rw [List.mem_cons, not_or] at h
    rw [dropBackslashes, ih h.2]
    exact fun _ _ heq => absurd heq.symm h.1

theorem readSegment_eq_empty : readSegment o cs = .empty ↔ cs = [] := by
  unfold readSegment
  by_cases hcs : cs = []
  · simp [hcs]
  · simp only [hcs, if_false]
    split_ifs <;> simp

theorem eq_of_readSegment_globstar (h : readSegment o cs = .globstar) :
    cs = ['*', '*'] ∧ o.globstar = true := by
  unfold readSegment at h
  by_cases hcs : cs = []
  · simp [hcs] at h
  · by_cases hstar : cs = ['*', '*'] ∧ o.globstar = true
    · exact hstar
    · simp only [hcs, hstar, if_false] at h
      split_ifs at h

/-- A literal name is not empty, and its characters are among those of its segment. -/
theorem name_of_readSegment {text name : String} (h : readSegment o cs = .literal text name) :
    name ≠ "" ∧ ∀ c ∈ name.toList, c ∈ cs := by
  unfold readSegment at h
  by_cases hcs : cs = []
  · simp [hcs] at h
  simp only [hcs, if_false] at h
  split_ifs at h
  obtain ⟨-, rfl⟩ := Segment.literal.inj h
  refine ⟨?_, fun c hc => ?_⟩
  · have hne := dropBackslashes_ne_nil hcs
    simpa [unescapeChars] using hne
  · rw [String.toList_ofList] at hc
    exact mem_of_mem_dropBackslashes hc

end Pattern

namespace Alternative

variable {a : Alternative}

theorem Compiled.name_of_literal (ha : a.Compiled) {text name : String}
    (hmem : .literal text name ∈ a.segments) : name ≠ "" ∧ '/' ∉ name.toList := by
  obtain ⟨o, drives, i, n, cs, rfl⟩ := ha.exists_read
  obtain ⟨part, hpart, hread⟩ := List.mem_map.mp hmem
  obtain ⟨hne, hchars⟩ := Pattern.name_of_readSegment hread
  refine ⟨hne, fun hslash => ?_⟩
  exact Pattern.slash_not_mem_of_mem_splitParts hpart (hchars _ hslash)

/-- A literal name may stand in a directory, unless it is one or two dots. -/
theorem Compiled.exists_name (ha : a.Compiled) (hclean : a.Clean) {text name : String}
    (hmem : .literal text name ∈ a.segments) (hdot : name ≠ ".") (hdots : name ≠ "..") :
    ∃ n : Name, n.text = name := by
  obtain ⟨hne, hslash⟩ := ha.name_of_literal hmem
  have hnull : '\x00' ∉ name.toList := by simpa [hasNull] using hclean text name hmem
  refine ⟨⟨name, ?_⟩, rfl⟩
  simp only [isName, Bool.and_eq_true, bne_iff_ne, List.all_eq_true]
  exact ⟨⟨⟨hne, hdot⟩, hdots⟩, fun c hc =>
    ⟨ne_of_mem_of_not_mem hc hslash, ne_of_mem_of_not_mem hc hnull⟩⟩

theorem Compiled.segments_ne_nil (ha : a.Compiled) : a.segments ≠ [] := by
  obtain ⟨o, drives, i, n, cs, rfl⟩ := ha.exists_read
  simpa [Pattern.readAlternative] using Pattern.splitParts_ne_nil o cs

/-- A relative alternative begins with a slash only if it is empty altogether. -/
theorem Compiled.head_of_relative (ha : a.Compiled) (hroot : a.root = "") :
    a.segments = [.empty] ∨ ∀ rest, a.segments ≠ .empty :: rest := by
  obtain ⟨o, drives, i, n, cs, rfl⟩ := ha.exists_read
  simp only [Pattern.readAlternative] at hroot ⊢
  obtain ⟨first, more, hparts⟩ := List.exists_cons_of_ne_nil (Pattern.splitParts_ne_nil o cs)
  rw [hparts] at hroot ⊢
  rw [List.map_cons]
  by_cases hfirst : first = []
  · left
    cases more with
    | nil => simp [hfirst, Pattern.readSegment]
    | cons second more => simp [hfirst, Pattern.rootOf] at hroot
  · right
    intro rest hsegs
    exact hfirst (Pattern.readSegment_eq_empty.mp (List.cons.inj hsegs).1)

end Alternative

end PathGlob
