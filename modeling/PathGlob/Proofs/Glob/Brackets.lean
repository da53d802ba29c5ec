import PathGlob.Proofs.Glob.Expanded
import PathGlob.Proofs.Pattern.Escape
import PathGlob.Proofs.Wildcard.Spelled

/-!
# Escaping with brackets

Where the backslash separates directories, a text is escaped by brackets around its characters. Each
component is then read as a wildcard that spells the component, or as the component itself. Brackets
do not keep braces from being read, so that a text with braces may be escaped to a pattern for other
texts.
-/
namespace PathGlob

open Pattern (EscapeStyle escapeChars)

/-- A segment is what a component asks for: nothing for an empty one, else the one name. -/
def Segment.StandsFor (seg : Segment) (c : String) : Prop :=
  if c = "" then seg = .empty else ∀ name, name ≠ "" → (seg.accepts name = true ↔ name = c)

namespace Pattern

variable {o : Options} {extended : Bool} {c : Char} {cs rest : List Char}

/-! ## Escaped characters -/

/-- The token that an escaped character is read as. -/
def bracketed (c : Char) : Wildcard.Token :=
  if EscapeStyle.brackets.protects c then .set ⟨false, [.range c c]⟩ else .char c

theorem spells_bracketed (c : Char) : (bracketed c).Spells c := by
  unfold bracketed
  split
  next hc =>
    refine .set ?_
    intro hdot
    rw [hdot] at hc
    cases hc
  · exact .char c

theorem readSet_of_protects (hc : EscapeStyle.brackets.protects c = true) :
    Wildcard.readSet (c :: ']' :: rest) = some (⟨false, [.range c c]⟩, rest) := by
  simp only [EscapeStyle.protects, List.mem_cons, List.not_mem_nil, or_false,
    decide_eq_true_eq] at hc
  rcases hc with rfl | rfl | rfl | rfl | rfl | rfl <;> rfl

/-- Where it is not protected, a character of a bracketed text begins no group. -/
theorem readOpening_escapeChars (c : Char) (cs : List Char) :
    Wildcard.readOpening (c :: escapeChars .brackets cs) = none := by
  apply Wildcard.readOpening_of_head
  exact head?_escapeChars_ne .brackets rfl (by decide) cs

theorem hasWildcard_brackets (h : '\\' ∉ cs) :
    hasWildcard extended (escapeChars .brackets cs) =
      cs.any EscapeStyle.brackets.protects := by
  induction cs with
  | nil => rfl
  | cons c cs ih =>
    rw [List.mem_cons, not_or] at h
    have hescape : c ≠ '\\' := fun heq => h.1 heq.symm
    rw [escapeChars_cons, List.any_cons]
    by_cases hc : EscapeStyle.brackets.protects c = true
    · rw [protect_brackets hc, hc, List.cons_append, hasWildcard]
      · rfl
      · exact fun _ _ heq => absurd heq (by decide)
      · exact fun heq => absurd heq (by decide)
    · have hrun : c ≠ '*' := ne_of_not_protects hc rfl
      have hany : c ≠ '?' := ne_of_not_protects hc rfl
      have hset : c ≠ '[' := ne_of_not_protects hc rfl
      have hgroup := head?_escapeChars_ne .brackets (d := '(') rfl (by decide) cs
      rw [protect_of_not_protects hc, List.singleton_append, hasWildcard, ih h.2]
      · simp [hrun, hany, hset, hgroup, hc]
      · exact fun _ _ heq => absurd heq hescape
      · exact fun heq => absurd heq hescape

theorem readTokens_brackets (h : '\\' ∉ cs) {fuel : Nat}
    (hfuel : (escapeChars .brackets cs).length ≤ fuel) :
    Wildcard.readTokens extended fuel (escapeChars .brackets cs) = cs.map bracketed := by
  induction cs generalizing fuel with
  | nil => cases fuel <;> rfl
  | cons c cs ih =>
    rw [List.mem_cons, not_or] at h
    rw [escapeChars_cons, List.length_append] at hfuel
    rw [escapeChars_cons, List.map_cons, bracketed]
    by_cases hc : EscapeStyle.brackets.protects c = true
    · rw [protect_brackets hc] at hfuel
      obtain ⟨fuel, rfl⟩ := Nat.exists_eq_add_of_le' (show 1 ≤ fuel by simp at hfuel; omega)
      rw [protect_brackets hc, if_pos hc, List.cons_append, List.cons_append, List.cons_append,
        List.nil_append, Wildcard.readTokens_set (readSet_of_protects hc),
        ih h.2 (by simp at hfuel; omega)]
    · rw [protect_of_not_protects hc] at hfuel
      obtain ⟨fuel, rfl⟩ := Nat.exists_eq_add_of_le' (show 1 ≤ fuel by simp at hfuel; omega)
      rw [protect_of_not_protects hc, if_neg hc, List.singleton_append,
        Wildcard.readTokens_char (fun heq => h.1 heq.symm) (ne_of_not_protects hc rfl)
          (ne_of_not_protects hc rfl) (ne_of_not_protects hc rfl)
          (fun _ => readOpening_escapeChars c cs),
        ih h.2 (by simp at hfuel; omega)]

/-! ## Escaped components -/

theorem spells_brackets (cs : List Char) :
    List.Forall₂ Wildcard.Token.Spells (cs.map bracketed) cs := by
  induction cs with
  | nil => exact .nil
  | cons c cs ih => exact .cons (spells_bracketed c) ih

/-- A bracketed component is read as a segment for the component. -/
theorem standsFor_readSegment (hcase : o.nocase = false) (h : '\\' ∉ cs) :
    (readSegment o (escapeChars .brackets cs)).StandsFor (String.ofList cs) := by
  unfold Segment.StandsFor readSegment
  by_cases hcs : cs = []
  · simp [hcs, escapeChars]
  have hne : String.ofList cs ≠ "" := by simpa using hcs
  rw [if_neg hne, if_neg (fun hnil => hcs (escapeChars_eq_nil.mp hnil)),
    if_neg (fun hglobstar => escapeChars_ne_globstar cs hglobstar.1)]
  simp only [hcase, Bool.false_and, Bool.or_false, hasWildcard_brackets h]
  intro name hname
  split
  · have haccepts : Wildcard.accepts (matchMode o) (cs.map bracketed) name.toList = true ↔
        name.toList ≠ [] ∧ name.toList = cs :=
      Wildcard.accepts_iff_of_spells (spells_brackets cs) hcase
    have hchars : name.toList ≠ [] := by simpa using hname
    rw [Segment.accepts, Wildcard.read, readTokens_brackets h le_rfl, haccepts,
      and_iff_right hchars, ← String.toList_inj, String.toList_ofList]
  next hplain =>
    rw [Bool.not_eq_true] at hplain
    rw [Segment.accepts, escapeChars_eq_self_iff.mpr hplain, unescapeChars, dropBackslashes_eq_self h]
    exact beq_iff_eq

theorem standsFor_readAlternative (hcase : o.nocase = false) (drives : Bool) (i n : Nat)
    {t : String} (h : '\\' ∉ t.toList) :
    List.Forall₂ Segment.StandsFor
      (readAlternative o drives i n (escape .brackets t).toList).segments (Path.components t) := by
  rw [readAlternative, escape, String.toList_ofList, splitParts_escapeChars, List.map_map,
    Path.components, List.forall₂_map_left_iff, List.forall₂_map_right_iff, List.forall₂_same]
  intro part hpart
  refine standsFor_readSegment hcase fun hmem => h ?_
  exact Path.mem_of_mem_splitOn hpart hmem

theorem expand_brackets {t : String} (ht : t ≠ "") (hbrace : '\x7b' ∉ t.toList) :
    expand o (escape .brackets t) = .ok [(escape .brackets t).toList] := by
  have hne : escapeChars .brackets t.toList ≠ [] := by simpa [escapeChars_eq_nil] using ht
  have hplain : '\x7b' ∉ escapeChars .brackets t.toList := fun hmem =>
    hbrace (mem_of_mem_escapeChars hmem (by decide))
  unfold expand
  split
  · rfl
  · rw [escape, String.toList_ofList,
      Brace.expand_of_isPlain hne (Brace.isPlain_of_not_mem hplain)]

end Pattern

namespace Glob

/-! ## Globs of escaped texts -/

/-- A text without braces stands for itself alone when it is escaped with brackets. And where it
does, the glob of the escaped text has one alternative, with a segment for each component. -/
theorem exists_make_brackets (o : Options) (backslashes : Bool) (t : String)
    (hcase : o.nocase = false) (hbase : o.matchBase = false) (hignore : o.ignore.toList = [])
    (ht : t ≠ "") (hslash : '\\' ∉ t.toList)
    (hlen : (Pattern.escape .brackets t).length ≤ Pattern.maxLength) :
    let p := Pattern.escape .brackets t
    ('\x7b' ∉ t.toList → Pattern.expand o p = .ok [p.toList]) ∧
      (Pattern.expand o p = .ok [p.toList] →
        ∃ g a, make o backslashes [.text p] = .ok g ∧ g.alternatives = [a] ∧
          List.Forall₂ Segment.StandsFor a.segments (Path.components t)) := by
  intro p
  refine ⟨Pattern.expand_brackets ht, fun hexpand => ?_⟩
  let a := Pattern.readAlternative (settle o backslashes) backslashes 0 0 p.toList
  have hchars : p.toList = escapeChars .brackets t.toList := String.toList_ofList
  have hescaped : '\\' ∉ p.toList := fun hmem =>
    hslash (Pattern.mem_of_mem_escapeChars (hchars ▸ hmem) (by decide))
  have hprepare : prepare o ([p].map .text) = [p].map .text :=
    prepare_texts hbase fun _ => by simpa using hescaped
  have hcompile : Pattern.compile (settle o backslashes) backslashes 0 0 p = .ok [a] :=
    compile_eq_ok.mpr ⟨hlen, [p.toList], hexpand, rfl⟩
  let g : Glob := ⟨[p], settle o backslashes, [a], .none⟩
  refine ⟨g, a, make_eq_ok.mpr ⟨?_, rfl, ?_⟩, rfl, ?_⟩
  · exact (fits_iff_eq_none hbase hignore).mpr rfl
  · rw [List.map_singleton] at hprepare
    rw [hprepare, compileAll, hcompile]
    rfl
  · exact Pattern.standsFor_readAlternative hcase backslashes 0 0 hslash

/-- Brackets around a bracket, and around a star behind the slash. -/
theorem exists_make_brackets_star :
    ∃ g a, make { windowsPathsNoEscape := true } false [.text "[[]a[]]/[*]"] = .ok g ∧
      g.alternatives = [a] ∧ List.Forall₂ Segment.StandsFor a.segments ["[a]", "*"] := by
  have hescape : Pattern.escape .brackets "[a]/*" = "[[]a[]]/[*]" := by decide
  obtain ⟨hself, hmake⟩ := exists_make_brackets { windowsPathsNoEscape := true } false "[a]/*"
    rfl rfl rfl (by decide) (by decide) (by decide)
  rw [hescape] at hself hmake
  exact hmake (hself (by decide))

/-- A text with braces is escaped to a pattern that stands for two other texts. -/
theorem exists_brackets_split :
    ¬ ∀ t : String, t ≠ "" → '\\' ∉ t.toList → hasNull t = false →
      (Pattern.escape .brackets t).length ≤ Pattern.maxLength →
        ∃ g a, make { windowsPathsNoEscape := true } false
            [.text (Pattern.escape .brackets t)] = .ok g ∧ g.alternatives = [a] ∧
          List.Forall₂ Segment.StandsFor a.segments (Path.components t) := by
  intro hall
  obtain ⟨g, a, hmake, hone, -⟩ :=
    hall "\x7ba,b\x7d" (by decide) (by decide) (by decide) (by decide)
  have htwo : (make { windowsPathsNoEscape := true } false
      [.text (Pattern.escape .brackets "\x7ba,b\x7d")]).toOption.map
        (fun g => g.alternatives.length) = some 2 := by
    decide +kernel
  rw [hmake, Except.toOption, Option.map_some, hone] at htwo
  cases htwo

end Glob

end PathGlob
