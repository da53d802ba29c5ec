import PathGlob.Proofs.Pattern.Segments
import PathGlob.Proofs.Wildcard.Spelled

/-!
# Names instead of wildcards

A segment without wildcards is read as a name, and no wildcard is made of it. The wildcard of its
text would describe the same name, unless the text ends with a backslash that escapes nothing: the
name keeps that backslash, and the wildcard passes it over.
-/
namespace PathGlob.Pattern

/-- Whether the last character of a text is a backslash that escapes nothing. -/
def endsInBackslash : List Char → Bool
  | '\\' :: _ :: cs => endsInBackslash cs
  | ['\\'] => true
  | _ :: cs => endsInBackslash cs
  | [] => false

variable {o : Options} {extended : Bool} {cs : List Char} {text value : String}

/-- No group begins at a character in a text without wildcards. -/
theorem readOpening_of_not_hasWildcard {c : Char} (hrun : c ≠ '*') (hany : c ≠ '?')
    (hplain : ¬ ((c = '@' ∨ c = '!' ∨ c = '+') ∧ cs.head? = some '(')) :
    Wildcard.readOpening (c :: cs) = none := by
  by_cases hhead : cs.head? = some '('
  · apply Wildcard.readOpening_of_times
    have hkinds : c ≠ '@' ∧ c ≠ '!' ∧ c ≠ '+' := by simpa [hhead, not_or] using hplain
    unfold Wildcard.times?
    split <;> simp_all
  · exact Wildcard.readOpening_of_head hhead

/-- A text without wildcards is read as the characters of its name, but for a last backslash. -/
theorem exists_spelled {fuel : Nat} (hfuel : cs.length ≤ fuel)
    (h : hasWildcard extended cs = false) :
    ∃ spelled, dropBackslashes cs = spelled ++ (if endsInBackslash cs then ['\\'] else []) ∧
      Wildcard.readTokens extended fuel cs = spelled.map .char := by
  fun_induction hasWildcard extended cs generalizing fuel with
  | case1 c cs ih =>
    obtain ⟨fuel, rfl⟩ := Nat.exists_eq_add_of_le' (show 1 ≤ fuel by simp at hfuel; omega)
    have hshort : cs.length ≤ fuel := by simp at hfuel; omega
    obtain ⟨spelled, hname, hread⟩ := ih hshort h
    refine ⟨c :: spelled, ?_, ?_⟩
    · rw [dropBackslashes, endsInBackslash, hname, List.cons_append]
    · rw [Wildcard.readTokens, hread, List.map_cons]
  | case2 =>
    refine ⟨[], rfl, ?_⟩
    cases fuel <;> rfl
  | case3 c cs hpair hlast ih =>
    simp only [Bool.or_eq_false_iff, beq_eq_false_iff_ne] at h
    obtain ⟨⟨⟨⟨hrun, hany⟩, hset⟩, hgroup⟩, hrest⟩ := h
    have hescape : c ≠ '\\' := by
      rintro rfl
      cases cs with
      | nil => exact hlast rfl rfl
      | cons d ds => exact hpair d ds rfl rfl
    obtain ⟨fuel, rfl⟩ := Nat.exists_eq_add_of_le' (show 1 ≤ fuel by simp at hfuel; omega)
    have hshort : cs.length ≤ fuel := by simpa using hfuel
    obtain ⟨spelled, hname, hread⟩ := ih hshort hrest
    refine ⟨c :: spelled, ?_, ?_⟩
    · rw [dropBackslashes, endsInBackslash, hname, List.cons_append]
      all_goals simp [hescape]
    · rw [Wildcard.readTokens_char hescape hrun hany hset, hread, List.map_cons]
      intro hext
      refine readOpening_of_not_hasWildcard hrun hany ?_
      simpa [hext, or_assoc] using hgroup
  | case4 =>
    refine ⟨[], rfl, ?_⟩
    cases fuel <;> rfl

theorem of_readSegment_literal (h : readSegment o cs = .literal text value) :
    cs ≠ [] ∧ hasWildcard o.extended cs = false ∧ value = String.ofList (dropBackslashes cs) := by
  unfold readSegment at h
  by_cases hcs : cs = []
  · simp [hcs] at h
  simp only [hcs, if_false] at h
  split_ifs at h with hglobstar hmagic
  obtain ⟨-, rfl⟩ := Segment.literal.inj h
  rw [Bool.or_eq_true, not_or, Bool.not_eq_true] at hmagic
  exact ⟨hcs, hmagic.1, rfl⟩

/-- What is read of a segment that is a name, as a name and as a wildcard. -/
theorem exists_spelled_of_literal (h : readSegment o cs = .literal text value) :
    ∃ spelled, value.toList = spelled ++ (if endsInBackslash cs then ['\\'] else []) ∧
      Wildcard.read o.extended cs = spelled.map .char := by
  obtain ⟨-, hplain, rfl⟩ := of_readSegment_literal h
  rw [String.toList_ofList]
  exact exists_spelled le_rfl hplain

/-- Whether case is ignored or not, the wildcard of the text describes the name. -/
theorem accepts_value (h : readSegment o cs = .literal text value)
    (hends : endsInBackslash cs = false) (m : Wildcard.Mode) :
    Wildcard.accepts m (Wildcard.read o.extended cs) value.toList = true := by
  obtain ⟨spelled, hvalue, hread⟩ := exists_spelled_of_literal h
  rw [hends, if_neg Bool.false_ne_true, List.append_nil] at hvalue
  have hne : value.toList ≠ [] := by simpa using (name_of_readSegment h).1
  rw [hread, ← hvalue]
  exact Wildcard.accepts_chars m hne

/-- A segment that is read as a name matches what the wildcard of its text describes, and that
wildcard describes the name also if case is ignored. If the text ends with a backslash that escapes
nothing, the name has that backslash at its end and the wildcard describes it without. -/
theorem literal_iff_wildcard (o : Options) (cs : List Char) (text value : String)
    (hcase : o.nocase = false) (h : readSegment o cs = .literal text value) :
    (endsInBackslash cs = false →
      (∀ name : String, name ≠ "" →
        ((Segment.literal text value).accepts name = true ↔
          Wildcard.accepts (matchMode o) (Wildcard.read o.extended cs) name.toList = true)) ∧
      Wildcard.accepts { matchMode o with ignoreCase := true } (Wildcard.read o.extended cs)
        value.toList = true) ∧
    (endsInBackslash cs = true → ∃ shorter, value = shorter ++ "\\" ∧
      ∀ name : String, name ≠ "" →
        (Wildcard.accepts (matchMode o) (Wildcard.read o.extended cs) name.toList = true ↔
          name = shorter)) := by
  obtain ⟨spelled, hvalue, hread⟩ := exists_spelled_of_literal h
  have haccepts : ∀ name : String, name ≠ "" →
      (Wildcard.accepts (matchMode o) (Wildcard.read o.extended cs) name.toList = true ↔
        name = String.ofList spelled) := by
    intro name hne
    have hchars : name.toList ≠ [] := by simpa using hne
    rw [hread, Wildcard.accepts_iff_of_spells (Wildcard.spells_chars spelled) hcase,
      and_iff_right hchars, ← String.toList_inj, String.toList_ofList]
  constructor
  · intro hends
    refine ⟨fun name hne => ?_, accepts_value h hends _⟩
    rw [hends, if_neg Bool.false_ne_true, List.append_nil] at hvalue
    have hname : value = String.ofList spelled := by
      rw [← hvalue, String.ofList_toList]
    rw [haccepts name hne, ← hname]
    exact beq_iff_eq
  · intro hends
    rw [hends, if_pos rfl] at hvalue
    refine ⟨String.ofList spelled, ?_, haccepts⟩
    apply String.toList_inj.mp
    rw [hvalue, String.toList_append, String.toList_ofList]
    rfl

/-- The name of an escaped star. -/
theorem literal_iff_wildcard_star :
    readSegment {} "a\\*".toList = .literal "a\\*" "a*" ∧
      ∀ name : String, name ≠ "" →
        (name = "a*" ↔ Wildcard.accepts (matchMode {}) (Wildcard.read true "a\\*".toList)
          name.toList = true) := by
  have hread : readSegment {} "a\\*".toList = .literal "a\\*" "a*" := rfl
  obtain ⟨hsame, -⟩ := (literal_iff_wildcard {} "a\\*".toList "a\\*" "a*" rfl hread).1 (by decide)
  exact ⟨hread, fun name hne => beq_iff_eq.symm.trans (hsame name hne)⟩

/-- With a backslash at the end, a name is not what the wildcard of its text describes. -/
theorem exists_literal_unlike_wildcard :
    ¬ ∀ (o : Options) (cs : List Char) (text value : String), o.nocase = false →
      readSegment o cs = .literal text value → ∀ name : String, name ≠ "" → '/' ∉ name.toList →
        ((Segment.literal text value).accepts name = true ↔
          Wildcard.accepts (matchMode o) (Wildcard.read o.extended cs) name.toList = true) := by
  intro hsame
  have hname := hsame {} "a\\".toList "a\\" "a\\" rfl rfl "a" (by decide) (by decide)
  revert hname
  decide

end PathGlob.Pattern
