import Mathlib
import PathGlob.Wildcard.Match

/-!
# Wildcards that spell a name

A wildcard describes one name alone if each of its tokens stands for one character. Brackets around
a character do so as well, except that they match no dot at the start of a name. If case is ignored,
a wildcard of characters still describes the name that it spells.
-/
namespace PathGlob.Wildcard

inductive Token.Spells : Token → Char → Prop
  | char (c : Char) : Token.Spells (.char c) c
  | set {c : Char} (visible : c ≠ '.') : Token.Spells (.set ⟨false, [.range c c]⟩) c

variable {m : Mode} {s : Subject} {t : Token} {ts : List Token} {c x : Char}
  {cs name rest more : List Char}

/-! ## Reading one token -/

variable {extended : Bool} {fuel : Nat}

theorem readOpening_of_head (hhead : cs.head? ≠ some '(') : readOpening (c :: cs) = none := by
  unfold readOpening
  split
  next heq =>
    cases heq
    exact absurd rfl hhead
  · rfl

theorem readOpening_of_times (htimes : times? c = none) : readOpening (c :: cs) = none := by
  unfold readOpening
  split
  next heq =>
    cases heq
    rw [htimes]
    rfl
  · rfl

/-- A character that begins no escape, bracket or group and is no wildcard stands for itself. -/
theorem readTokens_char (hescape : c ≠ '\\') (hrun : c ≠ '*') (hany : c ≠ '?') (hset : c ≠ '[')
    (hgroup : extended = true → readOpening (c :: cs) = none) :
    readTokens extended (fuel + 1) (c :: cs) = .char c :: readTokens extended fuel cs := by
  have hopening : (if extended then readOpening (c :: cs) else none) = none := by
    split
    next hext => exact hgroup hext
    · rfl
  have hplain : plainToken c = .char c := by
    unfold plainToken
    split
    · exact absurd rfl hrun
    · exact absurd rfl hany
    · rfl
  rw [readTokens, hopening, Option.bind_none, if_neg hset, hplain]
  · exact fun heq => absurd heq hescape
  · exact fun _ _ heq => absurd heq hescape

theorem readTokens_set {s : CharSet} (hset : readSet cs = some (s, rest)) :
    readTokens extended (fuel + 1) ('[' :: cs) = .set s :: readTokens extended fuel rest := by
  have hopening : (if extended then readOpening ('[' :: cs) else none) = none := by
    split
    · exact readOpening_of_times rfl
    · rfl
  rw [readTokens, hopening, Option.bind_none, if_pos rfl, hset]
  · exact fun heq => absurd heq (by decide)
  · exact fun _ _ heq => absurd heq (by decide)

/-! ## One character -/

theorem contains_single : (CharSet.mk false [.range c c]).contains x = true ↔ x = c := by
  have hrange : (CharSet.mk false [.range c c]).contains x = true ↔ c ≤ x ∧ x ≤ c := by
    simp [CharSet.contains, SetItem.contains]
  rw [hrange, and_comm]
  exact le_antisymm_iff.symm

/-- Only at a leading dot a wildcard may not apply. -/
theorem admits_of_ne_dot (hrest : x :: more <:+ s.name) (hx : x ≠ '.') :
    s.admits (x :: more) = true := by
  rcases hrest.length_le.lt_or_eq with hlt | heq
  · rw [Subject.admits, decide_eq_true hlt, Bool.or_true]
  · have hname : s.name = x :: more := (hrest.eq_of_length heq).symm
    simp [Subject.admits, hname, hx]

theorem Token.Spells.rests_nil (ht : t.Spells c) : tokenRests s t [] = [] := by
  cases ht <;> rfl

theorem Token.Spells.rests_cons (ht : t.Spells c) (hcase : s.mode.ignoreCase = false)
    (hrest : x :: more <:+ s.name) :
    tokenRests s t (x :: more) = if x = c then [more] else [] := by
  cases ht with
  | char c =>
    have hsame : s.mode.same c x = true ↔ x = c := by
      rw [Mode.same, hcase]
      exact beq_iff_eq.trans eq_comm
    simp only [tokenRests, hsame]
  | set visible =>
    have hset : s.mode.inSet ⟨false, [.range c c]⟩ x = true ↔ x = c := by
      rw [Mode.inSet, hcase]
      exact contains_single
    by_cases hx : x = c
    · have hadmits := admits_of_ne_dot hrest (hx ▸ visible)
      simp only [tokenRests, hadmits, hset.mpr hx, Bool.and_true, if_true, if_pos hx]
    · have hno : s.mode.inSet ⟨false, [.range c c]⟩ x = false := by simpa [hx] using hset
      simp [tokenRests, hno, hx]

/-! ## Whole names -/

theorem seqRests_cons_of_spells (ht : t.Spells c) (rests : List (List Char)) :
    seqRests s (t :: ts) rests = seqRests s ts (rests.flatMap (tokenRests s t)).eraseDups := by
  cases ht <;> simp only [seqRests]

theorem seqRests_nil (hts : List.Forall₂ Token.Spells ts cs) : seqRests s ts [] = [] := by
  induction hts with
  | nil => simp only [seqRests]
  | cons ht hts ih =>
    rw [seqRests_cons_of_spells ht]
    exact ih

theorem nil_mem_seqRests (hts : List.Forall₂ Token.Spells ts cs)
    (hcase : s.mode.ignoreCase = false) (hrest : rest <:+ s.name) :
    [] ∈ seqRests s ts [rest] ↔ rest = cs := by
  induction hts generalizing rest with
  | nil => simp [seqRests, eq_comm]
  | @cons t c ts cs ht hts ih =>
    rw [seqRests_cons_of_spells ht, List.flatMap_singleton]
    cases rest with
    | nil => simp [ht.rests_nil, seqRests_nil hts]
    | cons x more =>
      rw [ht.rests_cons hcase hrest]
      split_ifs with hx
      · have hmore : more <:+ s.name := (List.suffix_cons x more).trans hrest
        have hone : [more].eraseDups = [more] := by simp [List.eraseDups_cons]
        rw [hone, ih hmore, hx, List.cons.injEq, and_iff_right rfl]
      · simp [seqRests_nil hts, hx]

/-- A wildcard that spells a name accepts it and no other. -/
theorem accepts_iff_of_spells (hts : List.Forall₂ Token.Spells ts cs)
    (hcase : m.ignoreCase = false) : accepts m ts name = true ↔ name ≠ [] ∧ name = cs := by
  have hmem := nil_mem_seqRests (s := ⟨m, name⟩) hts hcase (List.suffix_refl name)
  simp [accepts, hmem]

theorem spells_chars (cs : List Char) : List.Forall₂ Token.Spells (cs.map .char) cs := by
  induction cs with
  | nil => exact .nil
  | cons c cs ih => exact .cons (.char c) ih

theorem same_self (m : Mode) (c : Char) : m.same c c = true := by
  unfold Mode.same
  split <;> simp

theorem seqRests_chars (s : Subject) (cs : List Char) :
    seqRests s (cs.map .char) [cs] = [[]] := by
  induction cs with
  | nil => simp only [List.map_nil, seqRests]
  | cons c cs ih =>
    have hone : tokenRests s (.char c) (c :: cs) = [cs] := by simp [tokenRests, same_self]
    rw [List.map_cons, seqRests_cons_of_spells (.char c), List.flatMap_singleton, hone]
    simpa [List.eraseDups_cons] using ih

/-- A wildcard of characters accepts the name that they spell, whether case is ignored or not. -/
theorem accepts_chars (m : Mode) (hcs : cs ≠ []) : accepts m (cs.map .char) cs = true := by
  simp [accepts, seqRests_chars, hcs]

end PathGlob.Wildcard
