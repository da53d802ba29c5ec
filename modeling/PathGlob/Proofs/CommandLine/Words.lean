import Mathlib
import PathGlob.CommandLine.Arguments

/-!
# Reading words

A command line is read in steps, each of which takes one word, or an option with the value behind
it. What every step keeps holds at the end of the reading.
-/
namespace PathGlob.CommandLine

variable {w value : String} {words : List (String × Word)} {r r' : Reading} {c d : Choice}
  {cs : List Choice} {more : List Char} {left : Option String}

/-- A step of a reading, from the words that are left and what has been read to what both are
then. -/
inductive Step : List (String × Word) → Reading → List (String × Word) → Reading → Prop
  | plain (w : String) (rest : List (String × Word)) (r : Reading) :
      Step ((w, .plain) :: rest) r rest (r.plain w)
  | separator (w : String) (rest : List (String × Word)) (r : Reading) :
      Step ((w, .separator) :: rest) r rest r.separator
  | unknown (w : String) (rest : List (String × Word)) (r : Reading) :
      Step ((w, .unknown) :: rest) r rest (r.close.extra w)
  | attached (w : String) (rest : List (String × Word)) (r : Reading) {c : Choice} {value : String}
      (hc : c.takesValue = true) :
      Step ((w, .withValue c value) :: rest) r rest (r.close.take c value)
  | behind (w : String) (rest : List (String × Word)) (r : Reading) {c : Choice} {value : String}
      (hc : c.takesValue = true) :
      Step ((w, .option c) :: (value, .plain) :: rest) r rest (r.close.take c value)
  | alone (w : String) (rest : List (String × Word)) (r : Reading) {c : Choice}
      (hc : c.takesValue = false) : Step ((w, .option c) :: rest) r rest (r.close.take c "")
  | cluster (w : String) (rest : List (String × Word)) (r : Reading) {c : Choice}
      {more : List Char} {cs : List Choice} {left : Option String}
      (hcluster : clusterOf c more = .ok (cs, left)) :
      Step ((w, .cluster c more) :: rest) r rest
        (left.elim (r.close.takeAll cs) (r.close.takeAll cs).extra)

theorem Reading.finish_eq_ok : r.finish cs = .ok r' ↔ .help ∉ cs ∧ r' = r.takeAll cs := by
  unfold finish
  split_ifs with hhelp
  · simp [hhelp]
  · simp [hhelp, eq_comm]

/-- What every step keeps holds at the end of a reading. -/
theorem invariant_of_readWords {P : List (String × Word) → Reading → Prop}
    (hstep : ∀ {ws r ws' r'}, Step ws r ws' r' → P ws r → P ws' r')
    (hread : readWords words r = .ok r') (hstart : P words r) : P [] r' := by
  fun_induction readWords words r with
  | case1 r => exact Except.ok.inj hread ▸ hstart
  | case2 w rest r ih => exact ih hread (hstep (.plain w rest r) hstart)
  | case3 w rest r ih => exact ih hread (hstep (.separator w rest r) hstart)
  | case4 w rest r ih => exact ih hread (hstep (.unknown w rest r) hstart)
  | case5 w c value rest r hc ih => exact ih hread (hstep (.attached w rest r hc) hstart)
  | case9 w c more rest r cs left hcluster r₁ hfinish ih =>
    obtain ⟨-, rfl⟩ := Reading.finish_eq_ok.mp hfinish
    have hgoes := hstep (.cluster w rest r hcluster) hstart
    cases left <;> exact ih hread hgoes
  | case10 w c r hc value rest ih => exact ih hread (hstep (.behind w rest r hc) hstart)
  | case13 w c rest r hc r₁ hfinish ih =>
    obtain ⟨-, rfl⟩ := Reading.finish_eq_ok.mp hfinish
    exact ih hread (hstep (.alone w rest r (by simpa using hc)) hstart)
  | _ => cases hread

/-! ## What words are -/

def Choice.isLetter : Choice → Bool
  | help => true
  | print0 => true
  | verbose => true
  | _ => false

namespace Word

variable {chars : List Char} {letter : Char}

theorem isLetter_of_choice? (h : choice? ['-', letter] = some c) : c.isLetter = true := by
  have hlisted : ∀ x ∈ spellings, x.1.length = 2 → x.2.isLetter = true := by decide +kernel
  obtain ⟨before, after, hsplit, -⟩ := List.lookup_eq_some_iff.mp h
  exact hlisted (_, c) (hsplit ▸ List.mem_append_right _ List.mem_cons_self) String.length_ofList

theorem suffix_of_splitValue {name value : List Char}
    (h : splitValue chars = (name, some value)) : value <:+ chars := by
  unfold splitValue at h
  split at h
  · cases h
  · next sign behind hdrop =>
    obtain ⟨-, rfl⟩ : _ ∧ behind = value := by simpa using h
    exact (List.suffix_cons sign behind).trans (hdrop ▸ List.dropWhile_suffix _)

/-- What a word may be: an option of one letter with more behind it, or an option with the end of
the word as its value, or nothing that is taken apart. -/
inductive Shape (chars : List Char) : Word → Prop
  | plain : Shape chars .plain
  | unknown : Shape chars .unknown
  | option (c : Choice) : Shape chars (.option c)
  | cluster {c : Choice} (more : List Char) (hc : c.isLetter = true) : Shape chars (.cluster c more)
  | withValue (c : Choice) {value : List Char} (hvalue : value <:+ chars) :
      Shape chars (.withValue c (String.ofList value))

theorem shape_other : Shape chars (other chars) := by
  unfold other
  split_ifs
  · exact .plain
  · exact .unknown

theorem shape_ofLong {word : Word} (h : ofLong chars = .ok word) : Shape chars word := by
  unfold ofLong at h
  cases hsplit : splitValue chars with
  | mk name rest =>
    simp only [hsplit] at h
    split at h
    · cases h
      exact shape_other
    · cases h
      cases rest with
      | none => exact .option _
      | some value => exact .withValue _ (suffix_of_splitValue hsplit)
    · cases h

theorem shape_ofShort {second : Char} {rest : List Char} :
    Shape ('-' :: second :: rest) (ofShort ('-' :: second :: rest)) := by
  unfold ofShort
  split
  · exact .cluster _ (isLetter_of_choice? ‹_›)
  · exact shape_other

theorem shape_ofChars {word : Word} (h : ofChars chars = .ok word) : Shape chars word := by
  unfold ofChars at h
  split at h
  · split at h
    · cases h
      exact .option _
    · next hvalue =>
      split at h
      · next c v hbound =>
        cases h
        obtain ⟨value, rfl, hmade⟩ := Option.bind_eq_some_iff.mp hbound
        obtain ⟨d, -, hpair⟩ := Option.map_eq_some_iff.mp hmade
        cases hpair
        exact .withValue c (suffix_of_splitValue hvalue)
      · split_ifs at h
        · exact shape_ofLong h
        · cases h
          exact shape_ofShort
  · cases h
    exact .plain

end Word

/-- The words of a command line are told one by one, up to the separator. -/
theorem shape_of_wordsOf {args : List String} (h : wordsOf args = .ok words) :
    ∀ x ∈ words, x.1 ∈ args ∧ (x.2 = .separator ∨ Word.Shape x.1.toList x.2) := by
  induction args generalizing words with
  | nil =>
    cases h
    simp
  | cons w rest ih =>
    rw [wordsOf] at h
    split_ifs at h with hw
    · cases h
      refine List.forall_mem_cons.mpr ⟨⟨List.mem_cons_self, .inl rfl⟩, ?_⟩
      exact List.forall_mem_map.mpr fun v hv => ⟨List.mem_cons_of_mem _ hv, .inr .plain⟩
    · cases hword : Word.ofChars w.toList with
      | error e => simp [hword, bind, Except.bind] at h
      | ok word =>
        cases hrest : wordsOf rest with
        | error e => simp [hword, hrest, bind, Except.bind] at h
        | ok more =>
          simp only [hword, hrest, bind, Except.bind, pure, Except.pure, Except.ok.injEq] at h
          subst h
          refine List.forall_mem_cons.mpr ⟨⟨List.mem_cons_self, .inr (Word.shape_ofChars hword)⟩,
            fun x hx => ?_⟩
          obtain ⟨hmem, hshape⟩ := ih hrest x hx
          exact ⟨List.mem_cons_of_mem _ hmem, hshape⟩

/-- All choices of a cluster are made by options of one letter. -/
theorem isLetter_of_clusterOf (hc : c.isLetter = true) (h : clusterOf c more = .ok (cs, left)) :
    ∀ d ∈ cs, d.isLetter = true := by
  fun_induction clusterOf c more generalizing cs left with
  | case1 c =>
    cases h
    simpa using hc
  | case3 c letter more hletter hnone =>
    cases h
    simpa using hc
  | case5 c letter more hletter d hd hvalue ih =>
    cases hrest : clusterOf d more with
    | error e => simp [hrest, Except.map] at h
    | ok inner =>
      rw [hrest] at h
      cases h
      exact List.forall_mem_cons.mpr ⟨hc, ih (Word.isLetter_of_choice? hd) hrest⟩
  | _ => cases h

/-! ## Readings -/

theorem Reading.close_occurrences (r : Reading) : r.close.occurrences = r.occurrences := by
  unfold close
  split <;> rfl

theorem Reading.plain_occurrences (r : Reading) (w : String) :
    (r.plain w).occurrences = r.occurrences := by
  unfold plain
  split <;> rfl

theorem Reading.separator_occurrences (r : Reading) :
    r.separator.occurrences = r.occurrences := by
  unfold separator
  split <;> rfl

theorem Reading.takeAll_occurrences (r : Reading) (cs : List Choice) :
    (r.takeAll cs).occurrences = r.occurrences ++ cs.map (⟨·, ""⟩) := by
  induction cs generalizing r with
  | nil => simp [takeAll]
  | cons c cs ih =>
    change ((r.take c "").takeAll cs).occurrences = _
    rw [ih, take, List.append_assoc, List.map_cons]
    rfl

theorem parse_eq_ok {args : List String} {a : Arguments} (h : Arguments.parse args = .ok a) :
    ∃ words r, wordsOf args = .ok words ∧ readWords words .start = .ok r ∧
      a = .ofOccurrences r.run.words r.occurrences := by
  unfold Arguments.parse Arguments.readingOf at h
  cases hwords : wordsOf args with
  | error e => simp [hwords, Except.map] at h
  | ok words =>
    cases hread : readWords words .start with
    | error stop => simp [hwords, hread, Except.map] at h
    | ok r =>
      simp only [hwords, hread] at h
      split_ifs at h
      · exact ⟨words, r, rfl, hread, (Except.ok.inj h).symm⟩
      · cases h

end PathGlob.CommandLine
