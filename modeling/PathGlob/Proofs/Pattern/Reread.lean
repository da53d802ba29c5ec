import PathGlob.Proofs.Brace
import PathGlob.Proofs.Pattern.Segments

/-!
# Reading alternatives again

The text of an alternative is what its segments were read from, with neighbouring globstars made
one. Read again it splits into the same parts, and so it is read as the same alternative.
-/
namespace PathGlob

namespace Pattern

variable {o : Options} {cs : List Char} {parts : List (List Char)}

/-! ## Neighbouring globstars -/

def Apart (a b : List Char) : Prop := ¬ (a = ['*', '*'] ∧ b = ['*', '*'])

theorem head?_mergeGlobstars (parts : List (List Char)) :
    (mergeGlobstars parts).head? = parts.head? := by
  fun_induction mergeGlobstars parts with
  | case1 a b rest hboth ih =>
    rw [ih, List.head?_cons, List.head?_cons, hboth.1, hboth.2]
  | case2 a b rest hdiff ih => rfl
  | case3 => rfl

theorem isChain_mergeGlobstars (parts : List (List Char)) :
    (mergeGlobstars parts).IsChain Apart := by
  fun_induction mergeGlobstars parts with
  | case1 a b rest hboth ih => exact ih
  | case2 a b rest hdiff ih =>
    refine List.isChain_cons.mpr ⟨fun c hc => ?_, ih⟩
    rw [head?_mergeGlobstars, List.head?_cons, Option.mem_some] at hc
    rwa [← hc]
  | case3 parts hshort =>
    rcases parts with _ | ⟨a, _ | ⟨b, rest⟩⟩
    · exact .nil
    · exact .singleton a
    · exact absurd rfl (hshort a b rest)

theorem mergeGlobstars_of_isChain (h : parts.IsChain Apart) : mergeGlobstars parts = parts := by
  fun_induction mergeGlobstars parts with
  | case1 a b rest hboth ih => exact absurd hboth (List.isChain_cons_cons.mp h).1
  | case2 a b rest hdiff ih => rw [ih (List.isChain_cons_cons.mp h).2]
  | case3 => rfl

theorem mergeGlobstars_splitParts (ho : o.globstar = true) :
    mergeGlobstars (splitParts o cs) = splitParts o cs := by
  rw [splitParts, if_pos ho]
  exact mergeGlobstars_of_isChain (isChain_mergeGlobstars _)

/-- Only an empty text has nothing but an empty part. -/
theorem eq_nil_of_splitParts (h : splitParts o cs = [[]]) : cs = [] := by
  have hjoin : ['/'].intercalate (cs.splitOn '/') = cs := List.intercalate_splitOn '/'
  suffices hsplit : cs.splitOn '/' = [[]] by
    rw [← hjoin, hsplit]
    rfl
  unfold splitParts at h
  split at h
  · have hhead := head?_mergeGlobstars (cs.splitOn '/')
    rw [h] at hhead
    rcases hsplit : cs.splitOn '/' with _ | ⟨first, _ | ⟨second, rest⟩⟩
    · exact absurd hsplit (List.splitOn_ne_nil _ _)
    · rw [hsplit] at hhead
      obtain rfl : [] = first := by simpa using hhead
      rfl
    · rw [hsplit] at hhead h
      obtain rfl : [] = first := by simpa using hhead
      rw [mergeGlobstars, if_neg (by simp)] at h
      exact absurd (List.cons.inj h).2 (mergeGlobstars_ne_nil (by simp))
  · exact h

/-! ## The text of an alternative -/

theorem text_readSegment (o : Options) (part : List Char) :
    (readSegment o part).text = String.ofList part := by
  unfold readSegment
  split_ifs with hempty hglobstar
  · simp [hempty, Segment.text]
  · simp [hglobstar.1, Segment.text, globstarText]
  · simp only
    split <;> rfl

theorem parts_readAlternative (o : Options) (drives : Bool) (i n : Nat) (cs : List Char) :
    (readAlternative o drives i n cs).parts = (splitParts o cs).map String.ofList := by
  simp only [Alternative.parts, readAlternative, List.map_map]
  exact List.map_congr_left fun part _ => text_readSegment o part

/-- The segments are read from the parts, each from its own. -/
theorem segments_readAlternative (o : Options) (drives : Bool) (i n : Nat) (cs : List Char) :
    (readAlternative o drives i n cs).segments =
      (readAlternative o drives i n cs).parts.map fun part => readSegment o part.toList := by
  rw [parts_readAlternative, List.map_map]
  exact List.map_congr_left fun part _ => by rw [Function.comp, String.toList_ofList]

/-- A globstar has no globstar beside it. -/
theorem segments_ne_globstars (o : Options) (drives : Bool) (i n : Nat) (cs : List Char)
    (rest : List Segment) :
    (readAlternative o drives i n cs).segments ≠ .globstar :: .globstar :: rest := by
  intro hsegs
  rw [readAlternative] at hsegs
  obtain ⟨first, parts, hsplit, hfirst, hparts⟩ := List.map_eq_cons_iff.mp hsegs
  obtain ⟨second, parts, rfl, hsecond, -⟩ := List.map_eq_cons_iff.mp hparts
  obtain ⟨rfl, hstar⟩ := eq_of_readSegment_globstar hfirst
  obtain ⟨rfl, -⟩ := eq_of_readSegment_globstar hsecond
  have hchain := isChain_mergeGlobstars (cs.splitOn '/')
  rw [splitParts, if_pos hstar] at hsplit
  rw [hsplit] at hchain
  exact (List.isChain_cons_cons.mp hchain).1 ⟨rfl, rfl⟩

theorem toList_glob (o : Options) (drives : Bool) (i n : Nat) (cs : List Char) :
    (readAlternative o drives i n cs).glob.toList = ['/'].intercalate (splitParts o cs) := by
  rw [Alternative.glob, parts_readAlternative, String.toList_intercalate, List.map_map]
  simp [Function.comp_def]

theorem splitParts_glob (o : Options) (drives : Bool) (i n : Nat) (cs : List Char) :
    splitParts o (readAlternative o drives i n cs).glob.toList = splitParts o cs := by
  have hsplit : (['/'].intercalate (splitParts o cs)).splitOn '/' = splitParts o cs :=
    List.splitOn_intercalate '/' (fun part hpart => slash_not_mem_of_mem_splitParts hpart)
      (splitParts_ne_nil o cs)
  rw [toList_glob]
  conv_lhs => rw [splitParts, hsplit]
  split
  next ho => exact mergeGlobstars_splitParts ho
  · rfl

/-- The text of an alternative is read as the same alternative, with other numbers. -/
theorem readAlternative_glob (o : Options) (drives : Bool) (i n i' n' : Nat) (cs : List Char) :
    readAlternative o drives i' n' (readAlternative o drives i n cs).glob.toList =
      { readAlternative o drives i n cs with index := n', patternIndex := i' } := by
  conv_lhs => rw [readAlternative]
  simp only [splitParts_glob]
  rfl

/-! ## Characters of alternatives -/

theorem mem_of_mem_intercalate {sep c : Char} (h : c ∈ [sep].intercalate parts) :
    c = sep ∨ ∃ part ∈ parts, c ∈ part := by
  induction parts with
  | nil => simp at h
  | cons part parts ih =>
    by_cases hne : parts = []
    · subst hne
      rw [List.intercalate_singleton] at h
      exact .inr ⟨part, List.mem_cons_self, h⟩
    · rw [List.intercalate_cons_of_ne_nil hne, List.mem_append, List.mem_append,
        List.mem_singleton] at h
      rcases h with (h | rfl) | h
      · exact .inr ⟨part, List.mem_cons_self, h⟩
      · exact .inl rfl
      · exact (ih h).imp_right fun ⟨p, hp, hc⟩ => ⟨p, List.mem_cons_of_mem _ hp, hc⟩

theorem mem_of_mem_splitParts {c : Char} {part : List Char} (hpart : part ∈ splitParts o cs)
    (hc : c ∈ part) : c ∈ cs := by
  unfold splitParts at hpart
  split at hpart
  · exact Path.mem_of_mem_splitOn (mem_of_mem_mergeGlobstars hpart) hc
  · exact Path.mem_of_mem_splitOn hpart hc

theorem mem_of_mem_glob {drives : Bool} {i n : Nat} {c : Char}
    (h : c ∈ (readAlternative o drives i n cs).glob.toList) : c = '/' ∨ c ∈ cs := by
  rw [toList_glob] at h
  refine (mem_of_mem_intercalate h).imp_right ?_
  rintro ⟨part, hpart, hc⟩
  exact mem_of_mem_splitParts hpart hc

theorem clean_readAlternative (h : '\x00' ∉ cs) (drives : Bool) (i n : Nat) :
    (readAlternative o drives i n cs).Clean := by
  intro text name hmem
  obtain ⟨part, hpart, hread⟩ := List.mem_map.mp hmem
  have hname : '\x00' ∉ name.toList := fun hnull =>
    h (mem_of_mem_splitParts hpart ((name_of_readSegment hread).2 _ hnull))
  simpa [hasNull] using hname

/-- What is not in a pattern is not in its alternatives, unless braces write it. -/
theorem not_mem_of_expand {d : Char} (hd : Brace.Foreign d) {pattern : String}
    {texts : List (List Char)} (h : d ∉ pattern.toList)
    (hexpand : expand o pattern = .ok texts) : ∀ text ∈ texts, d ∉ text := by
  unfold expand at hexpand
  split at hexpand
  · cases hexpand
    simpa using h
  · split at hexpand
    next texts hbrace =>
      cases hexpand
      exact Brace.not_mem_of_expand hd h hbrace
    · cases hexpand

end Pattern

end PathGlob
