import Mathlib
import PathGlob.Brace
import PathGlob.Pattern.Escape

/-!
# What braces stand for

A text without groups, an escaped one among them, stands for itself alone. Some characters are never
made, among them backslashes: a text without any stands for texts without any. And no text stands
for the empty text alone.
-/
namespace PathGlob.Brace

open Pattern (EscapeStyle escapeChars)

/-! ## Texts without groups -/

/-- Whether each opening brace of a text has a backslash before it. -/
def isPlain : List Char → Bool
  | '\\' :: _ :: cs => isPlain cs
  | c :: cs => c != '\x7b' && isPlain cs
  | [] => true

theorem isPlain_of_not_mem {cs : List Char} (h : '\x7b' ∉ cs) : isPlain cs = true := by
  fun_induction isPlain cs with
  | case1 c cs ih => exact ih fun hmem => h (List.mem_cons_of_mem _ (List.mem_cons_of_mem _ hmem))
  | case2 c cs hpair ih =>
    rw [List.mem_cons, not_or] at h
    rw [ih h.2, Bool.and_true, bne_iff_ne]
    exact fun heq => h.1 heq.symm
  | case3 => rfl

theorem isPlain_escape (cs : List Char) : isPlain (escapeChars .backslash cs) = true := by
  induction cs with
  | nil => rfl
  | cons c cs ih =>
    have hcons : escapeChars .backslash (c :: cs) =
        EscapeStyle.backslash.protect c ++ escapeChars .backslash cs := rfl
    rw [hcons, EscapeStyle.protect]
    split
    · exact ih
    next hno =>
      have hslash : c ≠ '\\' := by
        rintro rfl
        exact hno rfl
      have hbrace : c ≠ '\x7b' := by
        rintro rfl
        exact hno rfl
      rw [List.singleton_append, isPlain, ih, Bool.and_true, bne_iff_ne]
      · exact hbrace
      · exact fun _ _ heq => absurd heq hslash

/-- Without groups the pieces of a text are texts, and together they are the whole. -/
theorem readPieces_of_isPlain {cs : List Char} (h : isPlain cs = true) (fuel : Nat)
    (atStart afterDollar : Bool) :
    ∃ ps : List (List Char),
      readPieces fuel atStart afterDollar cs = ps.map .text ∧ ps.flatten = cs := by
  induction fuel generalizing cs atStart afterDollar with
  | zero =>
    cases cs with
    | nil => exact ⟨[], rfl, rfl⟩
    | cons c cs => exact ⟨[c :: cs], rfl, List.append_nil _⟩
  | succ fuel ih =>
    fun_cases isPlain cs with
    | case1 c rest =>
      rw [isPlain] at h
      obtain ⟨ps, hread, hwhole⟩ := ih h false false
      refine ⟨['\\', c] :: ps, ?_, ?_⟩
      · rw [readPieces, hread, List.map_cons]
      · rw [List.flatten_cons, hwhole]
        rfl
    | case2 c rest hpair =>
      rw [isPlain, Bool.and_eq_true, bne_iff_ne] at h
      · obtain ⟨ps, hread, hwhole⟩ := ih h.2 false (c = '$')
        refine ⟨[c] :: ps, ?_, ?_⟩
        · rw [readPieces, hread, List.map_cons]
          · exact hpair
          · exact h.1
        · rw [List.flatten_cons, hwhole]
          rfl
      · exact hpair
    | case3 => exact ⟨[], rfl, rfl⟩

theorem pieceTexts_text (p : List Char) (ps : List (List Char)) :
    pieceTexts ((p :: ps).map .text) = [some (p :: ps).flatten] := by
  induction ps generalizing p with
  | nil => simp [pieceTexts, Piece.texts, join]
  | cons q ps ih =>
    have hrest := ih q
    rw [List.map_cons, pieceTexts, hrest]
    simp [Piece.texts, join]

theorem countPieces_text (ps : List (List Char)) : countPieces (ps.map .text) = 1 := by
  induction ps with
  | nil => rfl
  | cons p ps ih => rw [List.map_cons, countPieces, ih, Piece.count]

/-- A text without groups stands for itself alone. -/
theorem expand_of_isPlain {cs : List Char} (hne : cs ≠ []) (h : isPlain cs = true) :
    expand? cs = some [cs] := by
  obtain ⟨ps, hread, rfl⟩ := readPieces_of_isPlain h cs.length true false
  rw [← read] at hread
  rw [expand?, hread, countPieces_text, if_pos (by decide)]
  cases ps with
  | nil => exact absurd rfl hne
  | cons p ps =>
    rw [pieceTexts_text]
    rfl

/-! ## What is read -/

theorem suffix_of_readInteger {cs digits rest : List Char}
    (h : readInteger cs = some (digits, rest)) : rest <:+ cs := by
  unfold readInteger at h
  split at h
  next sign unsigned hsign =>
    have hunsigned : unsigned <:+ cs := by
      split at hsign
      · obtain ⟨-, rfl⟩ := Prod.mk.inj hsign
        exact List.suffix_cons _ _
      · obtain ⟨-, rfl⟩ := Prod.mk.inj hsign
        exact List.suffix_refl _
    simp only [Option.ite_none_left_eq_some, Option.some.injEq, Prod.mk.injEq] at h
    obtain ⟨-, -, rfl⟩ := h
    exact (List.dropWhile_suffix _).trans hunsigned

theorem suffix_of_readStep {cs rest : List Char} {n : Nat} (h : readStep cs = some (n, rest)) :
    rest <:+ cs := by
  unfold readStep at h
  split at h
  · obtain ⟨-, rfl⟩ := Prod.mk.inj (Option.some.inj h)
    exact List.suffix_cons _ _
  next more =>
    split at h
    next digits left hread =>
      obtain ⟨-, rfl⟩ := Prod.mk.inj (Option.some.inj h)
      have hclosed := (List.suffix_cons '\x7d' _).trans (suffix_of_readInteger hread)
      exact hclosed.trans (List.suffix_append ['.', '.'] more)
    · cases h
  · cases h

/-- What a range is read as; its letters are letters. -/
theorem readRange_eq_some {cs rest : List Char} {p : Piece} (h : readRange cs = some (p, rest)) :
    rest <:+ cs ∧ ((∃ r, p = .numbers r) ∨ ∃ first last : Char, ∃ step, first.isAlpha = true ∧
      last.isAlpha = true ∧ p = .letters ⟨first.toNat, last.toNat, step⟩) := by
  unfold readRange at h
  split at h
  next first more hfirst =>
    have hdots : more <:+ cs :=
      (List.suffix_append ['.', '.'] more).trans (suffix_of_readInteger hfirst)
    split at h
    next last left hlast =>
      obtain ⟨⟨step, rest'⟩, hstep, h⟩ := Option.bind_eq_some_iff.mp h
      obtain ⟨rfl, rfl⟩ := Prod.mk.inj (Option.some.inj h)
      exact ⟨(suffix_of_readStep hstep).trans ((suffix_of_readInteger hlast).trans hdots),
        .inl ⟨_, rfl⟩⟩
    · cases h
  · split at h
    next first last more _ =>
      split at h
      next halpha =>
        obtain ⟨hfirst, hlast⟩ := Bool.and_eq_true_iff.mp halpha
        obtain ⟨⟨step, rest'⟩, hstep, h⟩ := Option.bind_eq_some_iff.mp h
        obtain ⟨rfl, rfl⟩ := Prod.mk.inj (Option.some.inj h)
        exact ⟨(suffix_of_readStep hstep).trans (List.suffix_append [first, '.', '.', last] more),
          .inr ⟨first, last, step, hfirst, hlast, rfl⟩⟩
      · cases h
    · cases h

/-- What may be told of the pieces that are read from a text, by what the text is like. -/
structure Told (input : List Char → Prop) (good : Piece → Prop) : Prop where
  suffix {cs rest : List Char} (hrest : rest <:+ cs) (h : input cs) : input rest
  text {cs rest : List Char} (hne : cs ≠ []) (h : input (cs ++ rest)) : good (.text cs)
  opening : good (.text ['\x7b'])
  closing : good (.text ['\x7d'])
  braces : good (.text ['\x7b', '\x7d'])
  numbers (r : Numbers) : good (.numbers r)
  letters {first last : Char} (hfirst : first.isAlpha = true) (hlast : last.isAlpha = true)
    (step : Nat) : good (.letters ⟨first.toNat, last.toNat, step⟩)
  choice {slots : List (List Piece)} (h : ∀ slot ∈ slots, ∀ p ∈ slot, good p) :
    good (.choice slots)

section Told

variable {input : List Char → Prop} {good : Piece → Prop} {fuel : Nat} {cs : List Char}

theorem Told.tail (ht : Told input good) {c : Char} {rest : List Char} (h : input (c :: rest)) :
    input rest := ht.suffix (List.suffix_cons c rest) h

theorem Told.whole (ht : Told input good) (hne : cs ≠ []) (h : input cs) : good (.text cs) := by
  rw [← List.append_nil cs] at h
  exact ht.text hne h

theorem Told.char (ht : Told input good) {c : Char} {rest : List Char} (h : input (c :: rest)) :
    good (.text [c]) := ht.text (List.cons_ne_nil c []) h

theorem Told.pair (ht : Told input good) {c e : Char} {rest : List Char}
    (h : input (c :: e :: rest)) : good (.text [c, e]) ∧ input rest :=
  ⟨ht.text (List.cons_ne_nil c [e]) h, ht.tail (ht.tail h)⟩

theorem Told.of_readRange (ht : Told input good) {rest : List Char} {p : Piece} (h : input cs)
    (hrange : readRange cs = some (p, rest)) : good p ∧ input rest := by
  obtain ⟨hrest, hp⟩ := readRange_eq_some hrange
  refine ⟨?_, ht.suffix hrest h⟩
  rcases hp with ⟨r, rfl⟩ | ⟨first, last, step, hfirst, hlast, rfl⟩
  · exact ht.numbers r
  · exact ht.letters hfirst hlast step

/-- What a reader makes of a text is good, and what it leaves of it is like the text. -/
def Holds {α : Type} (input : List Char → Prop) (made : α → Prop)
    (r : Option (α × List Char)) : Prop :=
  ∀ a rest, r = some (a, rest) → made a ∧ input rest

section Holds

variable {α β : Type} {P : α → Prop} {Q : β → Prop} {r : Option (α × List Char)}

theorem holds_none : Holds input P none := by simp [Holds]

theorem holds_some {a : α} {rest : List Char} (ha : P a) (hrest : input rest) :
    Holds input P (some (a, rest)) := by
  rintro b left ⟨⟩
  exact ⟨ha, hrest⟩

theorem Holds.bind {f : α × List Char → Option (β × List Char)} (hr : Holds input P r)
    (hf : ∀ a rest, P a → input rest → Holds input Q (f (a, rest))) :
    Holds input Q (r.bind f) := by
  intro b left h
  obtain ⟨⟨a, rest⟩, ha, h⟩ := Option.bind_eq_some_iff.mp h
  obtain ⟨hmade, hrest⟩ := hr a rest ha
  exact hf a rest hmade hrest b left h

end Holds

def AllGood (good : Piece → Prop) (ps : List Piece) : Prop := ∀ p ∈ ps, good p

theorem allGood_nil : AllGood good [] := by simp [AllGood]

theorem allGood_cons {p : Piece} {ps : List Piece} :
    AllGood good (p :: ps) ↔ good p ∧ AllGood good ps := List.forall_mem_cons

theorem allGood_append {ps qs : List Piece} :
    AllGood good (ps ++ qs) ↔ AllGood good ps ∧ AllGood good qs := List.forall_mem_append

theorem allGood_singleton {p : Piece} (hp : good p) : AllGood good [p] :=
  allGood_cons.mpr ⟨hp, allGood_nil⟩

/-- Readers with this much fuel make good pieces. -/
structure ReadsWell (input : List Char → Prop) (good : Piece → Prop) (fuel : Nat) : Prop where
  slot (afterDollar : Bool) (cs : List Char) (h : input cs) :
    Holds input (AllGood good) (readSlot fuel afterDollar cs)
  group (outer atStart : Bool) (cs : List Char) (h : input cs) :
    Holds input good (readGroup fuel outer atStart cs)
  slots (outer : Bool) (slots : List (List Piece)) (slot : List Piece) (cs : List Char)
    (h : input cs) (hslots : ∀ slot ∈ slots, AllGood good slot) (hslot : AllGood good slot) :
    Holds input good (readSlots fuel outer slots slot cs)

theorem holds_readSlot (ht : Told input good) (ih : ReadsWell input good fuel)
    (afterDollar : Bool) (h : input cs) :
    Holds input (AllGood good) (readSlot (fuel + 1) afterDollar cs) := by
  unfold readSlot
  split
  · exact holds_none
  · exact holds_none
  · exact holds_some allGood_nil h
  · exact holds_some allGood_nil h
  · exact holds_none
  next fuel c rest hfuel =>
    cases hfuel
    obtain ⟨hpair, hrest⟩ := ht.pair h
    refine (ih.slot false rest hrest).bind fun ps left hps hleft => ?_
    exact holds_some (allGood_cons.mpr ⟨hpair, hps⟩) hleft
  next fuel rest hfuel =>
    cases hfuel
    have hrest : input rest := ht.tail h
    split
    · refine (ih.slot false rest hrest).bind fun ps left hps hleft => ?_
      exact holds_some (allGood_cons.mpr ⟨ht.char h, hps⟩) hleft
    · refine (ih.group false false rest hrest).bind fun p left hp hleft => ?_
      refine (ih.slot false left hleft).bind fun ps left hps hleft => ?_
      exact holds_some (allGood_cons.mpr ⟨hp, hps⟩) hleft
  next fuel c rest _ _ _ _ _ hfuel =>
    cases hfuel
    refine (ih.slot _ rest (ht.tail h)).bind fun ps left hps hleft => ?_
    exact holds_some (allGood_cons.mpr ⟨ht.char h, hps⟩) hleft

theorem holds_readGroup (ht : Told input good) (ih : ReadsWell input good fuel)
    (outer atStart : Bool) (h : input cs) :
    Holds input good (readGroup (fuel + 1) outer atStart cs) := by
  unfold readGroup
  split
  next found hrange =>
    obtain ⟨p, rest⟩ := found
    obtain ⟨hp, hrest⟩ := ht.of_readRange h hrange
    exact holds_some hp hrest
  · split
    · exact holds_some ht.braces (ht.tail h)
    · refine (ih.slot false cs h).bind fun slot rest hslot hrest => ?_
      exact ih.slots outer [] slot rest hrest (by simp) hslot

theorem holds_readSlots (ht : Told input good) (ih : ReadsWell input good fuel) (outer : Bool)
    {slots : List (List Piece)} {slot : List Piece} (h : input cs)
    (hslots : ∀ slot ∈ slots, AllGood good slot) (hslot : AllGood good slot) :
    Holds input good (readSlots (fuel + 1) outer slots slot cs) := by
  have hall : ∀ s ∈ slots ++ [slot], AllGood good s := by
    simpa [or_imp, forall_and] using ⟨hslots, hslot⟩
  unfold readSlots
  split
  · exact holds_none
  next fuel rest hfuel =>
    cases hfuel
    refine (ih.slot false rest (ht.tail h)).bind fun next left hnext hleft => ?_
    exact ih.slots outer _ next left hleft hall hnext
  next fuel rest hfuel =>
    cases hfuel
    have hrest : input rest := ht.tail h
    split
    · exact holds_some (ht.choice hall) hrest
    · split
      · refine (ih.slot false rest hrest).bind fun more left hmore hleft => ?_
        exact ih.slots outer [] _ left hleft (by simp)
          (allGood_append.mpr ⟨hslot, allGood_cons.mpr ⟨ht.closing, hmore⟩⟩)
      · refine holds_some (ht.choice fun s hs => ?_) hrest
        rw [List.mem_singleton.mp hs]
        refine allGood_cons.mpr ⟨ht.opening, ?_⟩
        exact allGood_append.mpr ⟨hslot, allGood_singleton ht.closing⟩
  · exact holds_none

theorem readsWell (ht : Told input good) (fuel : Nat) : ReadsWell input good fuel := by
  induction fuel with
  | zero =>
    refine ⟨fun afterDollar cs h => ?_, fun outer atStart cs h => ?_,
      fun outer slots slot cs h hslots hslot => ?_⟩
    · simpa [readSlot] using holds_none
    · simpa [readGroup] using holds_none
    · simpa [readSlots] using holds_none
  | succ fuel ih =>
    exact ⟨fun afterDollar cs h => holds_readSlot ht ih afterDollar h,
      fun outer atStart cs h => holds_readGroup ht ih outer atStart h,
      fun outer slots slot cs h hslots hslot => holds_readSlots ht ih outer h hslots hslot⟩

theorem allGood_readPieces (ht : Told input good) (fuel : Nat) (atStart afterDollar : Bool)
    (h : input cs) : AllGood good (readPieces fuel atStart afterDollar cs) := by
  induction fuel generalizing atStart afterDollar cs with
  | zero =>
    unfold readPieces
    split
    · exact allGood_nil
    next hne =>
      exact allGood_singleton (ht.whole (fun hnil => hne hnil) h)
    all_goals contradiction
  | succ fuel ih =>
    unfold readPieces
    split
    · exact allGood_nil
    · contradiction
    next fuel c rest hfuel =>
      cases hfuel
      obtain ⟨hpair, hrest⟩ := ht.pair h
      exact allGood_cons.mpr ⟨hpair, ih false false hrest⟩
    next fuel rest hfuel =>
      cases hfuel
      have hrest : input rest := ht.tail h
      split
      next p left hgroup =>
        split at hgroup
        · cases hgroup
        · obtain ⟨hp, hleft⟩ := (readsWell ht _).group true atStart rest hrest p left hgroup
          exact allGood_cons.mpr ⟨hp, ih false false hleft⟩
      · exact allGood_cons.mpr ⟨ht.char h, ih false false hrest⟩
    next fuel c rest _ _ hfuel =>
      cases hfuel
      exact allGood_cons.mpr ⟨ht.char h, ih false _ (ht.tail h)⟩

end Told

theorem mem_pieceTexts_cons {p : Piece} {ps : List Piece} {x : Option (List Char)} :
    x ∈ pieceTexts (p :: ps) ↔ ∃ a ∈ p.texts, ∃ b ∈ pieceTexts ps, join a b = x := by
  rw [pieceTexts, List.mem_flatMap]
  exact exists_congr fun a => and_congr_right fun _ => List.mem_map

/-- Nothing but what is written is left out of what a text stands for. -/
theorem mem_expand {cs text : List Char} {texts : List (List Char)}
    (hexpand : expand? cs = some texts) :
    text ∈ texts ↔ some text ∈ pieceTexts (read cs) := by
  rw [expand?, Option.ite_none_right_eq_some, Option.some.injEq] at hexpand
  obtain ⟨-, rfl⟩ := hexpand
  simp

/-! ## Texts without a character -/

/-- A character that neither braces nor ranges write. -/
structure Foreign (d : Char) : Prop where
  opening : d ≠ '\x7b'
  closing : d ≠ '\x7d'
  digit : d.isDigit = false
  minus : d ≠ '-'
  /-- Ranges of letters write nothing in place of backslashes, and nothing before the letters. -/
  letter : d = '\\' ∨ d.toNat < 'A'.toNat

theorem foreign_backslash : Foreign '\\' := ⟨by decide, by decide, by decide, by decide, .inl rfl⟩

theorem foreign_null : Foreign '\x00' :=
  ⟨by decide, by decide, by decide, by decide, .inr (by decide)⟩

def Lacks (d : Char) (texts : List (Option (List Char))) : Prop := ∀ cs, some cs ∈ texts → d ∉ cs

variable {d : Char}

theorem lacks_pieceTexts_cons {p : Piece} {ps : List Piece} (hp : Lacks d p.texts)
    (hps : Lacks d (pieceTexts ps)) : Lacks d (pieceTexts (p :: ps)) := by
  intro cs hcs
  obtain ⟨a, ha, b, hb, hjoin⟩ := mem_pieceTexts_cons.mp hcs
  cases a with
  | none =>
    rw [join] at hjoin
    exact hps cs (hjoin ▸ hb)
  | some a =>
    cases b with
    | none =>
      rw [join, Option.some.injEq] at hjoin
      · exact hp cs (hjoin ▸ ha)
      · simp
    | some b =>
      rw [join, Option.some.injEq] at hjoin
      rw [← hjoin, List.mem_append, not_or]
      exact ⟨hp a ha, hps b hb⟩

theorem lacks_pieceTexts {ps : List Piece} (h : ∀ p ∈ ps, Lacks d p.texts) :
    Lacks d (pieceTexts ps) := by
  induction ps with
  | nil => simp [Lacks, pieceTexts]
  | cons p ps ih =>
    obtain ⟨hp, hps⟩ := List.forall_mem_cons.mp h
    exact lacks_pieceTexts_cons hp (ih hps)

theorem lacks_choice {slots : List (List Piece)}
    (h : ∀ slot ∈ slots, Lacks d (pieceTexts slot)) : Lacks d (Piece.choice slots).texts := by
  rw [Piece.texts]
  induction slots with
  | nil => simp [Lacks, slotTexts]
  | cons slot slots ih =>
    obtain ⟨hslot, hslots⟩ := List.forall_mem_cons.mp h
    intro cs hcs
    rw [slotTexts, List.mem_append] at hcs
    exact hcs.elim (hslot cs) (ih hslots cs)

theorem lacks_text {cs : List Char} (h : d ∉ cs) : Lacks d (Piece.text cs).texts := by
  simpa [Lacks, Piece.texts] using h

theorem Foreign.not_mem_padded (hd : Foreign d) (width : Nat) (n : Int) : d ∉ padded width n := by
  have hdigits : d ∉ Nat.toDigits 10 n.natAbs := fun hmem => by
    have hdigit := Nat.isDigit_of_mem_toDigits (by decide) (by decide) hmem
    rw [hd.digit] at hdigit
    cases hdigit
  have hzero : d ≠ '0' := by
    rintro rfl
    cases hd.digit
  unfold padded
  split <;> simp [hdigits, hzero, hd.minus]

theorem lacks_numbers (hd : Foreign d) (r : Numbers) : Lacks d (Piece.numbers r).texts := by
  intro cs hcs
  simp only [Piece.texts, Numbers.texts, List.map_map, List.mem_map] at hcs
  obtain ⟨n, -, hn⟩ := hcs
  rw [← Option.some.inj hn]
  exact hd.not_mem_padded _ _

/-- The values of a range lie between its ends. -/
theorem mem_steps {first last n : Int} {step : Nat} (h : n ∈ steps first last step) :
    min first last ≤ n ∧ n ≤ max first last := by
  obtain ⟨i, hi, rfl⟩ := List.mem_map.mp h
  have hle : i ≤ (last - first).natAbs / step := Nat.lt_succ_iff.mp (List.mem_range.mp hi)
  have hfar : i * step ≤ (last - first).natAbs :=
    (Nat.mul_le_mul_right step hle).trans (Nat.div_mul_le_self _ _)
  generalize i * step = k at hfar ⊢
  split <;> omega

theorem toNat_of_isAlpha {c : Char} (h : c.isAlpha = true) : 65 ≤ c.toNat ∧ c.toNat ≤ 122 := by
  simp only [Char.isAlpha, Char.isUpper, Char.isLower, Bool.or_eq_true, Bool.and_eq_true,
    decide_eq_true_eq, ge_iff_le, UInt32.le_iff_toNat_le] at h
  have hletters : 'A'.val.toNat = 65 ∧ 'Z'.val.toNat = 90 ∧ 'a'.val.toNat = 97 ∧
      'z'.val.toNat = 122 := by decide
  change 65 ≤ c.val.toNat ∧ c.val.toNat ≤ 122
  omega

theorem lacks_letters (hd : Foreign d) {first last : Char} (hfirst : first.isAlpha = true)
    (hlast : last.isAlpha = true) (step : Nat) :
    Lacks d (Piece.letters ⟨first.toNat, last.toNat, step⟩).texts := by
  intro cs hcs
  simp only [Piece.texts, Letters.texts, List.map_map, List.mem_map] at hcs
  obtain ⟨n, hsteps, hn⟩ := hcs
  rw [← Option.some.inj hn]
  by_cases hslash : Char.ofNat n.toNat = '\\'
  · simp [hslash]
  · have hne : d ≠ Char.ofNat n.toNat := by
      rintro rfl
      refine hd.letter.elim hslash fun hsmall => ?_
      obtain ⟨hfirst, hfirst'⟩ := toNat_of_isAlpha hfirst
      obtain ⟨hlast, hlast'⟩ := toNat_of_isAlpha hlast
      obtain ⟨hlow, hhigh⟩ := mem_steps hsteps
      have hvalid : n.toNat.isValidChar := .inl (by omega)
      rw [Char.toNat_ofNat, if_pos hvalid, show 'A'.toNat = 65 from rfl] at hsmall
      omega
    simpa [hslash] using hne

theorem Foreign.told (hd : Foreign d) :
    Told (fun cs => d ∉ cs) fun p => Lacks d p.texts where
  suffix hrest h hmem := h (hrest.subset hmem)
  text _ h := lacks_text fun hmem => h (List.mem_append_left _ hmem)
  opening := lacks_text (by simpa using hd.opening)
  closing := lacks_text (by simpa using hd.closing)
  braces := lacks_text (by simpa using ⟨hd.opening, hd.closing⟩)
  numbers := lacks_numbers hd
  letters := lacks_letters hd
  choice h := lacks_choice fun slot hslot => lacks_pieceTexts (h slot hslot)

/-- A text without the character stands for texts without it. -/
theorem not_mem_of_expand (hd : Foreign d) {cs : List Char} {texts : List (List Char)} (h : d ∉ cs)
    (hexpand : expand? cs = some texts) : ∀ text ∈ texts, d ∉ text := by
  intro text htext
  exact lacks_pieceTexts (allGood_readPieces hd.told _ true false h) text
    ((mem_expand hexpand).mp htext)

/-! ## Empty texts -/

/-- An empty text is not written alone: another that is not empty comes with it. -/
def Worded (texts : List (Option (List Char))) : Prop :=
  some [] ∈ texts → ∃ cs, some cs ∈ texts ∧ cs ≠ []

theorem worded_pieceTexts {ps : List Piece} (h : ∀ p ∈ ps, Worded p.texts) :
    Worded (pieceTexts ps) := by
  induction ps with
  | nil => simp [Worded, pieceTexts]
  | cons p ps ih =>
    obtain ⟨hp, hps⟩ := List.forall_mem_cons.mp h
    intro hempty
    obtain ⟨a, ha, b, hb, hjoin⟩ := mem_pieceTexts_cons.mp hempty
    cases a with
    | none =>
      rw [join] at hjoin
      obtain ⟨cs, hcs, hne⟩ := ih hps (hjoin ▸ hb)
      exact ⟨cs, mem_pieceTexts_cons.mpr ⟨none, ha, some cs, hcs, rfl⟩, hne⟩
    | some a =>
      have hnil : a = [] := by cases b <;> simp_all [join]
      subst hnil
      obtain ⟨cs, hcs, hne⟩ := hp ha
      cases b with
      | none => exact ⟨cs, mem_pieceTexts_cons.mpr ⟨some cs, hcs, none, hb, rfl⟩, hne⟩
      | some b =>
        exact ⟨cs ++ b, mem_pieceTexts_cons.mpr ⟨some cs, hcs, some b, hb, rfl⟩, by simp [hne]⟩

theorem worded_choice {slots : List (List Piece)} (h : ∀ slot ∈ slots, Worded (pieceTexts slot)) :
    Worded (Piece.choice slots).texts := by
  rw [Piece.texts]
  induction slots with
  | nil => simp [Worded, slotTexts]
  | cons slot slots ih =>
    obtain ⟨hslot, hslots⟩ := List.forall_mem_cons.mp h
    intro hempty
    simp only [slotTexts, List.mem_append] at hempty ⊢
    rcases hempty with hempty | hempty
    · obtain ⟨cs, hcs, hne⟩ := hslot hempty
      exact ⟨cs, .inl hcs, hne⟩
    · obtain ⟨cs, hcs, hne⟩ := ih hslots hempty
      exact ⟨cs, .inr hcs, hne⟩

theorem worded_text {cs : List Char} (hne : cs ≠ []) : Worded (Piece.text cs).texts :=
  fun _ => ⟨cs, by simp [Piece.texts], hne⟩

theorem padded_ne_nil (width : Nat) (n : Int) : padded width n ≠ [] := by
  have hdigits : Nat.toDigits 10 n.natAbs ≠ [] := Nat.toDigits_ne_nil
  unfold padded
  split <;> simp [hdigits]

theorem worded_numbers (r : Numbers) : Worded (Piece.numbers r).texts := by
  intro hempty
  simp only [Piece.texts, Numbers.texts, List.map_map, List.mem_map] at hempty
  obtain ⟨n, -, hn⟩ := hempty
  exact absurd (Option.some.inj hn) (padded_ne_nil _ _)

/-- The first letter of a range is written, and it is no backslash. -/
theorem worded_letters {first : Char} (hfirst : first.isAlpha = true) (last step : Nat) :
    Worded (Piece.letters ⟨first.toNat, last, step⟩).texts := by
  intro _
  have hslash : first ≠ '\\' := by
    rintro rfl
    cases hfirst
  refine ⟨[first], ?_, by simp⟩
  simp only [Piece.texts, Letters.texts, steps, List.map_map, List.mem_map, List.mem_range]
  exact ⟨0, Nat.succ_pos _, by simp [hslash]⟩

theorem told_worded : Told (fun _ => True) fun p => Worded p.texts where
  suffix _ _ := trivial
  text hne _ := worded_text hne
  opening := worded_text (by simp)
  closing := worded_text (by simp)
  braces := worded_text (by simp)
  numbers := worded_numbers
  letters hfirst _ := worded_letters hfirst _
  choice h := worded_choice fun slot hslot => worded_pieceTexts (h slot hslot)

/-- No text stands for the empty text alone. -/
theorem expand_ne_empty (cs : List Char) : expand? cs ≠ some [[]] := by
  intro hexpand
  have hgood : AllGood (fun p => Worded p.texts) (read cs) :=
    allGood_readPieces told_worded _ true false trivial
  obtain ⟨text, htext, hne⟩ := worded_pieceTexts hgood ((mem_expand hexpand).mp (by simp))
  exact hne (by simpa using (mem_expand hexpand).mpr htext)

end PathGlob.Brace
