import PathGlob.Proofs.Pattern.Reread

/-!
# Reading escaped texts

Unescaping gives back the text that was escaped. Read as a pattern, a text that is escaped with
backslashes is one alternative without wildcards and globstars, whose literal names are the
components of the text.
-/
namespace PathGlob

def Segment.ofName (c : String) : Segment :=
  if c = "" then .empty else .literal (Pattern.escape .backslash c) c

def Alternative.ofPath (patternIndex index : Nat) (p : String) : Alternative where
  segments := (Path.components p).map Segment.ofName
  index := index
  patternIndex := patternIndex
  root := if Path.isAbsolute p then "/" else ""

namespace Pattern

variable {o : Options} {style : EscapeStyle} {c d : Char} {cs : List Char}

/-! ## Escaped characters -/

/-- The characters that a style writes around those that it protects. -/
def EscapeStyle.marks : EscapeStyle → List Char
  | .backslash => ['\\']
  | .brackets => ['[', ']']

theorem escapeChars_cons (c : Char) (cs : List Char) :
    escapeChars style (c :: cs) = style.protect c ++ escapeChars style cs := rfl

theorem protect_backslash (hc : EscapeStyle.backslash.protects c = true) :
    EscapeStyle.backslash.protect c = ['\\', c] := by
  rw [EscapeStyle.protect, if_pos hc]

theorem protect_brackets (hc : EscapeStyle.brackets.protects c = true) :
    EscapeStyle.brackets.protect c = ['[', c, ']'] := by
  rw [EscapeStyle.protect, if_pos hc]

theorem protect_of_not_protects (hc : ¬style.protects c = true) : style.protect c = [c] := by
  unfold EscapeStyle.protect
  rw [if_neg hc]

theorem ne_of_not_protects (hc : ¬style.protects c = true)
    (hd : style.protects d = true) : c ≠ d := by
  intro heq
  rw [heq] at hc
  exact hc hd

theorem protect_head (style : EscapeStyle) (c : Char) :
    ∃ d, (style.protect c).head? = some d ∧
      (d ∈ style.marks ∨ d = c ∧ ¬style.protects c = true) := by
  by_cases hc : style.protects c = true
  · cases style with
    | backslash => exact ⟨'\\', by rw [protect_backslash hc]; rfl, .inl List.mem_cons_self⟩
    | brackets => exact ⟨'[', by rw [protect_brackets hc]; rfl, .inl List.mem_cons_self⟩
  · exact ⟨c, by rw [protect_of_not_protects hc]; rfl, .inr ⟨rfl, hc⟩⟩

theorem mem_protect (h : d ∈ style.protect c) : d ∈ style.marks ∨ d = c := by
  by_cases hc : style.protects c = true
  · cases style with
    | backslash =>
      rw [protect_backslash hc] at h
      simpa [EscapeStyle.marks] using h
    | brackets =>
      rw [protect_brackets hc] at h
      simpa [EscapeStyle.marks, or_assoc, or_left_comm, or_comm] using h
  · rw [protect_of_not_protects hc] at h
    exact .inr (List.mem_singleton.mp h)

/-- Escaping brings in no characters but the marks. -/
theorem mem_of_mem_escapeChars (h : d ∈ escapeChars style cs) (hmarks : d ∉ style.marks) :
    d ∈ cs := by
  obtain ⟨c, hc, hmem⟩ := List.mem_flatMap.mp h
  rcases mem_protect hmem with hmark | heq
  · exact absurd hmark hmarks
  · exact heq ▸ hc

theorem protect_ne_nil (style : EscapeStyle) (c : Char) : style.protect c ≠ [] := by
  intro hnil
  obtain ⟨d, hhead, -⟩ := protect_head style c
  rw [hnil] at hhead
  cases hhead

/-- No text begins like a globstar or a group once it is escaped. -/
theorem head?_escapeChars_ne (style : EscapeStyle) (hd : style.protects d = true)
    (hmarks : d ∉ style.marks) (cs : List Char) : (escapeChars style cs).head? ≠ some d := by
  cases cs with
  | nil => simp [escapeChars]
  | cons c cs =>
    obtain ⟨e, hhead, he⟩ := protect_head style c
    rw [escapeChars_cons, List.head?_append, hhead, Option.some_or, ne_eq, Option.some_inj]
    rcases he with hmark | ⟨rfl, hc⟩
    · exact ne_of_mem_of_not_mem hmark hmarks
    · exact ne_of_not_protects hc hd

theorem escapeChars_eq_nil : escapeChars style cs = [] ↔ cs = [] := by
  cases cs with
  | nil => simp [escapeChars]
  | cons c cs => simp [escapeChars_cons, protect_ne_nil]

theorem length_protect (style : EscapeStyle) (c : Char) :
    (style.protect c).length = 1 + if style.protects c then style.marks.length else 0 := by
  by_cases hc : style.protects c = true
  · rw [if_pos hc]
    cases style with
    | backslash => rw [protect_backslash hc]; rfl
    | brackets => rw [protect_brackets hc]; rfl
  · rw [if_neg hc, protect_of_not_protects hc]
    rfl

theorem length_escapeChars (style : EscapeStyle) (cs : List Char) :
    (escapeChars style cs).length = cs.length + style.marks.length * cs.countP style.protects := by
  induction cs with
  | nil => rfl
  | cons c cs ih =>
    rw [escapeChars_cons, List.length_append, length_protect, ih, List.length_cons,
      List.countP_cons, Nat.mul_add]
    split <;> omega

/-- Escaping changes nothing only where there is nothing to protect. -/
theorem escapeChars_eq_self_iff :
    escapeChars style cs = cs ↔ cs.any style.protects = false := by
  constructor
  · intro heq
    have hlength := length_escapeChars style cs
    have hmarks : 0 < style.marks.length := by cases style <;> decide
    rw [heq, Nat.left_eq_add, Nat.mul_eq_zero] at hlength
    have hnone := List.countP_eq_zero.mp (hlength.resolve_left hmarks.ne')
    simpa using hnone
  · intro h
    induction cs with
    | nil => rfl
    | cons c cs ih =>
      rw [List.any_cons, Bool.or_eq_false_iff] at h
      rw [escapeChars_cons, ih h.2, protect_of_not_protects (by simp [h.1]), List.singleton_append]

theorem hasWildcard_escapeChars (extended : Bool) (cs : List Char) :
    hasWildcard extended (escapeChars .backslash cs) = false := by
  induction cs with
  | nil => rfl
  | cons c cs ih =>
    rw [escapeChars_cons]
    by_cases hc : EscapeStyle.backslash.protects c = true
    · rw [protect_backslash hc, List.cons_append, List.cons_append, List.nil_append,
        hasWildcard, ih]
    · have hslash : c ≠ '\\' := ne_of_not_protects hc (by decide)
      have hstar : c ≠ '*' := ne_of_not_protects hc (by decide)
      have hquestion : c ≠ '?' := ne_of_not_protects hc (by decide)
      have hbracket : c ≠ '[' := ne_of_not_protects hc (by decide)
      have hgroup := head?_escapeChars_ne .backslash (d := '(') rfl (by decide) cs
      rw [protect_of_not_protects hc, List.singleton_append, hasWildcard, ih]
      · simp [hstar, hquestion, hbracket, hgroup]
      · simp [hslash]
      · simp [hslash]

/-! ## Unescaping -/

/-- An escaped character is read back as that character, whatever stands behind it. -/
theorem unescapeChars_protect (style : EscapeStyle) (c : Char) (rest : List Char) :
    unescapeChars style (style.protect c ++ rest) = c :: unescapeChars style rest := by
  by_cases hc : style.protects c = true
  · cases style with
    | backslash =>
      rw [protect_backslash hc]
      rfl
    | brackets =>
      have hslash : c ≠ '/' := fun heq => by simp [heq, EscapeStyle.protects] at hc
      rw [protect_brackets hc, unescapeChars, List.cons_append, List.cons_append, List.cons_append,
        dropBrackets, if_neg hslash, List.nil_append]
  · -- A character that is not protected begins no escape.
    rw [protect_of_not_protects hc, List.singleton_append]
    cases style with
    | backslash =>
      have hescape : c ≠ '\\' := ne_of_not_protects hc rfl
      rw [unescapeChars, dropBackslashes]
      exact fun _ _ heq => absurd heq hescape
    | brackets =>
      have hopening : c ≠ '[' := ne_of_not_protects hc rfl
      rw [unescapeChars, dropBrackets]
      exact fun _ _ heq => absurd heq hopening

/-- The scan is at the end of the escaped text when it has read the text back. -/
theorem unescapeChars_escapeChars_append (style : EscapeStyle) (cs rest : List Char) :
    unescapeChars style (escapeChars style cs ++ rest) = cs ++ unescapeChars style rest := by
  induction cs with
  | nil => rfl
  | cons c cs ih =>
    rw [escapeChars_cons, List.append_assoc, unescapeChars_protect, ih, List.cons_append]

theorem unescapeChars_escapeChars (style : EscapeStyle) (cs : List Char) :
    unescapeChars style (escapeChars style cs) = cs := by
  have hscan := unescapeChars_escapeChars_append style cs []
  have hnil : unescapeChars style [] = [] := by cases style <;> rfl
  rwa [hnil, List.append_nil, List.append_nil] at hscan

/-- In both styles, unescaping gives back the text that was escaped; and escaping has changed the
text unless it has no character to protect. -/
theorem unescape_escape (style : EscapeStyle) (t : String) :
    unescape style (escape style t) = t ∧
      (escape style t = t ↔ t.toList.any style.protects = false) := by
  constructor
  · rw [unescape, escape, String.toList_ofList, unescapeChars_escapeChars, String.ofList_toList]
  · rw [← escapeChars_eq_self_iff, ← String.toList_inj, escape, String.toList_ofList]

/-! ## Splitting -/

theorem slash_not_mem_escapeChars (h : '/' ∉ cs) : '/' ∉ escapeChars style cs := by
  intro hmem
  exact h (mem_of_mem_escapeChars hmem (by cases style <;> decide))

theorem escapeChars_append (xs ys : List Char) :
    escapeChars style (xs ++ ys) = escapeChars style xs ++ escapeChars style ys :=
  List.flatMap_append

theorem escapeChars_slash (style : EscapeStyle) : escapeChars style ['/'] = ['/'] := by
  cases style <;> rfl

theorem escapeChars_intercalate (parts : List (List Char)) :
    escapeChars style (['/'].intercalate parts) =
      ['/'].intercalate (parts.map (escapeChars style)) := by
  induction parts with
  | nil => rfl
  | cons part parts ih =>
    by_cases hne : parts = []
    · simp [hne]
    · rw [List.map_cons, List.intercalate_cons_of_ne_nil hne,
        List.intercalate_cons_of_ne_nil (by simpa using hne), escapeChars_append,
        escapeChars_append, escapeChars_slash, ih]

/-- Slashes stay where they are. -/
theorem splitOn_escapeChars (cs : List Char) :
    (escapeChars style cs).splitOn '/' = (cs.splitOn '/').map (escapeChars style) := by
  have hjoin : ['/'].intercalate (cs.splitOn '/') = cs := List.intercalate_splitOn '/'
  conv_lhs => rw [← hjoin, escapeChars_intercalate]
  refine List.splitOn_intercalate '/' (fun part hpart => ?_) (by simp [List.splitOn_ne_nil])
  obtain ⟨own, hown, rfl⟩ := List.mem_map.mp hpart
  exact slash_not_mem_escapeChars (Path.slash_not_mem_of_mem_splitOn hown)

theorem escapeChars_ne_globstar (cs : List Char) : escapeChars style cs ≠ ['*', '*'] := by
  intro heq
  have hhead := head?_escapeChars_ne style (d := '*') (by cases style <;> rfl)
    (by cases style <;> decide) cs
  rw [heq] at hhead
  exact hhead rfl

theorem splitParts_escapeChars (o : Options) (cs : List Char) :
    splitParts o (escapeChars style cs) = (cs.splitOn '/').map (escapeChars style) := by
  rw [splitParts, splitOn_escapeChars]
  split
  · refine mergeGlobstars_of_isChain (List.isChain_map _ |>.mpr ?_)
    exact (List.pairwise_of_forall fun a b => fun hboth =>
      escapeChars_ne_globstar a hboth.1).isChain
  · rfl

/-! ## Reading -/

theorem readSegment_escapeChars (hcase : o.nocase = false) (cs : List Char) :
    readSegment o (escapeChars .backslash cs) = .ofName (String.ofList cs) := by
  by_cases hcs : cs = []
  · simp [hcs, escapeChars, readSegment, Segment.ofName]
  · have hne : escapeChars .backslash cs ≠ [] := fun h => hcs (escapeChars_eq_nil.mp h)
    have hread := unescapeChars_escapeChars .backslash cs
    simp [readSegment, Segment.ofName, escape, hne, hcs, hcase,
      escapeChars_ne_globstar, hasWildcard_escapeChars, hread]

theorem rootOf_escapeChars (cs : List Char) :
    rootOf false ((cs.splitOn '/').map (escapeChars style)) =
      if cs.head? = some '/' then "/" else "" := by
  cases cs with
  | nil => rfl
  | cons c cs =>
    obtain ⟨first, rest, hsplit⟩ := List.exists_cons_of_ne_nil (List.splitOn_ne_nil '/' cs)
    rw [List.splitOn_cons_eq_if_modifyHead, hsplit]
    by_cases hc : c = '/'
    · simp [hc, rootOf, escapeChars]
    · have hne : escapeChars style (c :: first) ≠ [] := fun h => by
        simpa using escapeChars_eq_nil.mp h
      cases rest <;> simp [hc, rootOf, hne]

/-- An escaped text is read as the names between its slashes. -/
theorem readAlternative_escape (hcase : o.nocase = false) (i n : Nat) (t : String) :
    readAlternative o false i n (escape .backslash t).toList = .ofPath i n t := by
  have hsegments : ((t.toList.splitOn '/').map (escapeChars .backslash)).map (readSegment o) =
      (Path.components t).map Segment.ofName := by
    rw [Path.components, List.map_map, List.map_map]
    exact List.map_congr_left fun part _ => readSegment_escapeChars hcase part
  simp only [readAlternative, escape, String.toList_ofList, splitParts_escapeChars, hsegments,
    rootOf_escapeChars, Alternative.ofPath, Path.isAbsolute, beq_iff_eq]

theorem expand_escape {t : String} (ht : t ≠ "") :
    expand o (escape .backslash t) = .ok [(escape .backslash t).toList] := by
  have hne : escapeChars .backslash t.toList ≠ [] := by simpa [escapeChars_eq_nil] using ht
  unfold expand
  split
  · rfl
  · rw [escape, String.toList_ofList, Brace.expand_of_isPlain hne (Brace.isPlain_escape _)]

end Pattern

end PathGlob
