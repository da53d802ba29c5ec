import PathGlob.Proofs.Collation.Elements

/-!
# The order of ASCII texts

White space, punctuation and symbols, digits, then all other characters by code point: this is how
ASCII characters follow each other, letters in lower case. ASCII texts are in the lexicographic
order of their characters. Case only decides between texts that differ in nothing else.
-/
namespace PathGlob.Collation

variable {c d : Char} {cs ds : List Char} {s t : String}

/-! ## The order of characters -/

/-- The characters that come before letters, in their order. -/
def leading : List Char :=
  ['\t', '\n', '\r', ' '] ++ asciiOrder ++ ['0', '1', '2', '3', '4', '5', '6', '7', '8', '9']

/-- Behind the leading characters all others follow, by code point. -/
def place (c : Char) : Nat :=
  if c ∈ leading then leading.idxOf c else leading.length + c.toNat

def Precedes (c d : Char) : Prop := place c < place d

instance : DecidableRel Precedes := fun c d => inferInstanceAs (Decidable (place c < place d))

theorem place_of_mem (hc : c ∈ leading) : place c = leading.idxOf c := if_pos hc

theorem place_of_not_mem (hc : c ∉ leading) : place c = leading.length + c.toNat := if_neg hc

theorem place_lt_length (hc : c ∈ leading) : place c < leading.length := by
  rw [place_of_mem hc]
  exact List.idxOf_lt_length_of_mem hc

theorem place_injective : Function.Injective place := by
  intro c d h
  by_cases hc : c ∈ leading
  · have hlt := place_lt_length hc
    by_cases hd : d ∈ leading
    · rw [place_of_mem hc, place_of_mem hd] at h
      exact (List.idxOf_inj hc).mp h
    · have hplace := place_of_not_mem hd
      omega
  · have hplace := place_of_not_mem hc
    by_cases hd : d ∈ leading
    · have hlt := place_lt_length hd
      omega
    · rw [hplace, place_of_not_mem hd] at h
      exact Char.toNat_inj.mp (Nat.add_left_cancel h)

theorem isStrictTotalOrder_precedes : IsStrictTotalOrder Char Precedes :=
  (RelEmbedding.preimage ⟨place, place_injective⟩ (· < ·)).isStrictTotalOrder

theorem pairwise_leading : leading.Pairwise Precedes := by
  have hnodup : leading.Nodup := by decide +kernel
  rw [List.pairwise_iff_getElem]
  intro i j hi hj hij
  rwa [Precedes, place_of_mem (List.getElem_mem hi), place_of_mem (List.getElem_mem hj),
    hnodup.idxOf_getElem, hnodup.idxOf_getElem]

theorem precedes_of_mem (hc : c ∈ leading) (hd : d ∉ leading) : Precedes c d := by
  have hlt := place_lt_length hc
  have hplace := place_of_not_mem hd
  unfold Precedes
  omega

/-! ## The weights of characters -/

theorem toLower_of_mem (hc : c ∈ leading) : c.toLower = c := by
  have hall : leading.all fun c => c.toLower == c := by decide +kernel
  exact beq_iff_eq.mp (List.all_eq_true.mp hall c hc)

theorem not_isLower_of_mem (hc : c ∈ leading) : c.isLower = false := by
  have hall : leading.all fun c => !c.isLower := by decide +kernel
  simpa using List.all_eq_true.mp hall c hc

theorem toLower_not_mem (hc : c ∉ leading) : c.toLower ∉ leading := by
  intro hmem
  by_cases hupper : c.isUpper = true
  · have hlower := Char.isLower_toLower_eq_isAlpha c
    rw [not_isLower_of_mem hmem, Char.isAlpha, hupper, Bool.true_or] at hlower
    cases hlower
  · rw [Char.toLower_eq_of_not_isUpper hupper] at hmem
    exact hc hmem

theorem category_lt_of_mem (hc : c ∈ leading) :
    (Text.category c).rank < Text.Category.letter.rank := by
  have hall : leading.all fun c => decide ((Text.category c).rank < 4) := by decide +kernel
  exact of_decide_eq_true (List.all_eq_true.mp hall c hc)

theorem forall_ascii {p : Char → Prop} [DecidablePred p]
    (h : (List.range 128).all fun n => p (Char.ofNat n)) (hc : c.toNat < 128) : p c := by
  have hchar := of_decide_eq_true (List.all_eq_true.mp h c.toNat (List.mem_range.mpr hc))
  rwa [Char.ofNat_toNat] at hchar

/-- Of the ASCII characters, the leading ones are all that count neither as letters nor as
controls. -/
theorem category_of_not_mem (hascii : c.toNat < 128) (hc : c ∉ leading) :
    Text.category c = .letter := by
  have hor : c ∈ leading ∨ Text.category c = .letter :=
    forall_ascii (p := fun c => c ∈ leading ∨ Text.category c = .letter) (by decide +kernel) hascii
  exact hor.resolve_left hc

theorem weight_of_not_mem (hascii : c.toNat < 128) (hc : c ∉ leading) :
    (Element.ofChar c).weight = ⟨.letter, asciiOrder.length, c.toLower.toNat⟩ := by
  have hrank : asciiOrder.idxOf c = asciiOrder.length :=
    List.idxOf_eq_length fun hmem => hc (by simp [leading, hmem])
  rw [Element.ofChar, category_of_not_mem hascii hc, hrank, Text.foldFirst, if_pos hascii]

theorem pairwise_weight_leading : leading.Pairwise fun c d =>
    (Element.ofChar c).weight.compare (Element.ofChar d).weight = .lt := by
  have hchain : leading.IsChain fun c d =>
      (Element.ofChar c).weight.compare (Element.ofChar d).weight = .lt := by decide +kernel
  let Lighter (c d : Char) : Prop :=
    (Element.ofChar c).weight.compare (Element.ofChar d).weight = .lt
  have htrans : Trans Lighter Lighter Lighter := ⟨Std.TransCmp.lt_trans⟩
  exact List.isChain_iff_pairwise.mp hchain

/-- Leading characters weigh what their places say. -/
theorem compare_weight_of_mem (hc : c ∈ leading) (hd : d ∈ leading) :
    (Element.ofChar c).weight.compare (Element.ofChar d).weight =
      Ord.compare (place c) (place d) := by
  let Agree (c d : Char) : Prop :=
    (Element.ofChar c).weight.compare (Element.ofChar d).weight = Ord.compare (place c) (place d)
  have hself : ∀ c ∈ leading, Agree c c := fun c _ =>
    Std.ReflCmp.compare_self.trans Std.ReflCmp.compare_self.symm
  have hsymm : Std.Symm Agree := by
    refine ⟨fun c d h => ?_⟩
    have hweight : (Element.ofChar d).weight.compare (Element.ofChar c).weight =
        ((Element.ofChar c).weight.compare (Element.ofChar d).weight).swap :=
      Std.OrientedCmp.eq_swap
    exact (hweight.trans (congrArg Ordering.swap h)).trans Std.OrientedCmp.eq_swap.symm
  have hpairs : leading.Pairwise Agree :=
    (pairwise_weight_leading.and pairwise_leading).imp fun h =>
      h.1.trans (Nat.compare_eq_lt.mpr h.2).symm
  exact hpairs.forall_of_forall hself hc hd

/-- A leading character is lighter than any other. -/
theorem compare_weight_lt (hc : c ∈ leading) (hascii : d.toNat < 128) (hd : d ∉ leading) :
    (Element.ofChar c).weight.compare (Element.ofChar d).weight = .lt := by
  have hcategory : Ord.compare (Text.category c).rank (Text.category d).rank = .lt := by
    rw [category_of_not_mem hascii hd]
    exact Nat.compare_eq_lt.mpr (category_lt_of_mem hc)
  rw [Weight.compare, Element.ofChar, Element.ofChar, hcategory, Ordering.lt_then]

/-- ASCII characters weigh what the places of their lower-case forms say. -/
theorem compare_weight (hcascii : c.toNat < 128) (hdascii : d.toNat < 128) :
    (Element.ofChar c).weight.compare (Element.ofChar d).weight =
      Ord.compare (place c.toLower) (place d.toLower) := by
  by_cases hc : c ∈ leading
  · rw [toLower_of_mem hc]
    by_cases hd : d ∈ leading
    · rw [toLower_of_mem hd]
      exact compare_weight_of_mem hc hd
    · have hplace := precedes_of_mem hc (toLower_not_mem hd)
      exact (compare_weight_lt hc hdascii hd).trans (Nat.compare_eq_lt.mpr hplace).symm
  · by_cases hd : d ∈ leading
    · have hplace := precedes_of_mem hd (toLower_not_mem hc)
      have hweight : (Element.ofChar c).weight.compare (Element.ofChar d).weight = .gt :=
        Std.OrientedCmp.gt_of_lt (compare_weight_lt hd hcascii hc)
      rw [hweight, toLower_of_mem hd]
      exact (Nat.compare_eq_gt.mpr hplace).symm
    · rw [weight_of_not_mem hcascii hc, weight_of_not_mem hdascii hd,
        place_of_not_mem (toLower_not_mem hc), place_of_not_mem (toLower_not_mem hd)]
      simp [Weight.compare, Nat.compare_eq_ite_lt]

/-! ## The keys of ASCII texts -/

def IsAscii (cs : List Char) : Prop := ∀ c ∈ cs, c.toNat < 128

/-- The key of an ASCII text has an element for each character, and none has an accent. -/
theorem key_of_ascii (hcs : IsAscii cs) :
    key cs = ⟨cs.map fun c => (Element.ofChar c).weight, cs.map fun _ => [],
      cs.map fun c => decide (c ≠ c.toLower), cs⟩ := by
  have hfolded : (cs.map Element.ofChar).map Element.folded =
      cs.map fun c => decide (c ≠ c.toLower) := by
    rw [List.map_map]
    refine List.map_congr_left fun c hc => ?_
    have hfold : Text.foldFirst c = c.toLower := if_pos (hcs c hc)
    rw [Function.comp_apply, Element.ofChar, hfold]
  rw [key, elements_of_ascii hcs, hfolded, List.map_map, List.map_map]
  rfl

theorem isAscii_toLower (hs : IsAscii s.toList) : IsAscii s.toLower.toList := by
  intro d hd
  rw [String.toLower, String.toList_map] at hd
  obtain ⟨c, hc, rfl⟩ := List.mem_map.mp hd
  exact forall_ascii (p := fun c => c.toLower.toNat < 128) (by decide +kernel) (hs c hc)

theorem toLower_toLower (s : String) : s.toLower.toLower = s.toLower := by
  rw [← String.toList_inj]
  simp [String.toLower]

theorem compare_primary (hs : IsAscii s.toList) (ht : IsAscii t.toList) :
    List.compareLex Weight.compare (key s.toList).primary (key t.toList).primary =
      List.compareLex (compareOn place) s.toLower.toList t.toLower.toList := by
  rw [key_of_ascii hs, key_of_ascii ht, String.toLower, String.toList_map, String.toLower,
    String.toList_map]
  exact compareLex_map_congr fun c hc d hd => compare_weight (hs c hc) (ht d hd)

instance : Std.LawfulEqCmp (compareOn place) where
  eq_of_compare h := place_injective (Std.LawfulEqOrd.eq_of_compare h)

theorem compareLex_place_eq_lt {xs ys : List Char} :
    List.compareLex (compareOn place) xs ys = .lt ↔ List.Lex Precedes xs ys := by
  induction xs generalizing ys with
  | nil => cases ys <;> simp [List.compareLex_nil_nil, List.compareLex_nil_cons]
  | cons x xs ih =>
    cases ys with
    | nil => simp [List.compareLex_cons_nil]
    | cons y ys =>
      rw [List.compareLex_cons_cons, Ordering.then_eq_lt, List.cons_lex_cons_iff, ih, compareOn,
        Nat.compare_eq_lt, Nat.compare_eq_eq, place_injective.eq_iff]
      rfl

/-- Texts that differ in more than case are in the order of their characters in lower case. -/
theorem before_iff_lex (hs : IsAscii s.toList) (ht : IsAscii t.toList)
    (hne : s.toLower ≠ t.toLower) :
    before s t ↔ List.Lex Precedes s.toLower.toList t.toLower.toList := by
  have hdiffer : List.compareLex (compareOn place) s.toLower.toList t.toLower.toList ≠ .eq :=
    fun heq => hne (String.toList_inj.mp (Std.LawfulEqCmp.eq_of_compare heq))
  rw [before, Key.compare, compare_primary hs ht, Ordering.then_eq_lt, compareLex_place_eq_lt]
  exact or_iff_left fun h => hdiffer h.1

/-! ## Case -/

/-- Of two spellings of a letter, one is in lower case and one in upper case. -/
theorem case_of_toLower_eq (hne : c ≠ d) (h : c.toLower = d.toLower) :
    c.isLower = true ∧ d.isUpper = true ∨ c.isUpper = true ∧ d.isLower = true := by
  have hlower : ∀ {c d : Char}, c.toLower = d.toLower → c.isUpper = true → ¬d.isUpper = true →
      d.isLower = true := by
    intro c d h hc hd
    have hsame := Char.isLower_toLower_eq_isAlpha c
    rwa [h, Char.toLower_eq_of_not_isUpper hd, Char.isAlpha, hc, Bool.true_or] at hsame
  by_cases hc : c.isUpper = true
  · by_cases hd : d.isUpper = true
    · have hupper := congrArg Char.toUpper h
      rw [Char.toUpper_toLower_eq_toUpper, Char.toUpper_toLower_eq_toUpper,
        Char.toUpper_eq_of_not_isLower (Char.not_isLower_of_isUpper hc),
        Char.toUpper_eq_of_not_isLower (Char.not_isLower_of_isUpper hd)] at hupper
      exact absurd hupper hne
    · exact .inr ⟨hc, hlower h hc hd⟩
  · by_cases hd : d.isUpper = true
    · exact .inl ⟨hlower h.symm hd hc, hd⟩
    · rw [Char.toLower_eq_of_not_isUpper hc, Char.toLower_eq_of_not_isUpper hd] at h
      exact absurd h hne

/-- Two lists that a map makes equal have a first difference, which the map evens out. -/
theorem exists_first_difference {α β : Type} {f : α → β} {xs ys : List α}
    (hmap : xs.map f = ys.map f) (hne : xs ≠ ys) :
    ∃ front x y xs' ys', xs = front ++ x :: xs' ∧ ys = front ++ y :: ys' ∧ x ≠ y ∧ f x = f y := by
  induction xs generalizing ys with
  | nil =>
    rw [List.map_nil, eq_comm, List.map_eq_nil_iff] at hmap
    exact absurd hmap.symm hne
  | cons x xs ih =>
    cases ys with
    | nil => cases hmap
    | cons y ys =>
      obtain ⟨hhead, htail⟩ := List.cons.inj hmap
      by_cases hxy : x = y
      · subst hxy
        obtain ⟨front, a, b, xs', ys', rfl, rfl, hdiffer⟩ :=
          ih htail fun heq => hne (congrArg (x :: ·) heq)
        exact ⟨x :: front, a, b, xs', ys', rfl, rfl, hdiffer⟩
      · exact ⟨[], x, y, xs, ys, rfl, rfl, hxy, hhead⟩

/-- Where two texts differ in case alone, the first difference decides. -/
theorem before_of_case (hs : IsAscii s.toList) (ht : IsAscii t.toList)
    (hsame : s.toLower = t.toLower) {front us vs : List Char} (hfront : s.toList = front ++ c :: us)
    (hfront' : t.toList = front ++ d :: vs) (hc : c.isLower = true) (hd : d.isUpper = true) :
    before s t := by
  have hprimary : List.compareLex Weight.compare (key s.toList).primary (key t.toList).primary =
      .eq := by
    rw [compare_primary hs ht, hsame]
    exact Std.ReflCmp.compare_self
  have haccents : (key s.toList).accents = (key t.toList).accents := by
    have hlength : s.toList.length = t.toList.length := by
      have hmap := congrArg (fun r : String => r.toList.length) hsame
      simpa [String.toLower] using hmap
    rw [key_of_ascii hs, key_of_ascii ht, List.map_const', List.map_const', hlength]
  have hc' : decide (c ≠ c.toLower) = false := by
    simp [Char.toLower_eq_of_not_isUpper (Char.not_isUpper_of_isLower hc)]
  have hd' : decide (d ≠ d.toLower) = true := by
    refine decide_eq_true fun heq => ?_
    rw [heq, Char.isUpper_toLower_eq_false] at hd
    cases hd
  have hfolded : List.compareLex Ord.compare (key s.toList).folded (key t.toList).folded = .lt := by
    rw [key_of_ascii hs, key_of_ascii ht]
    simp only [hfront, hfront', List.map_append, List.map_cons, hc', hd']
    rw [compareLex_append_left, List.compareLex_cons_cons]
    rfl
  have hself : List.compareLex (List.compareLex Ord.compare) (key t.toList).accents
      (key t.toList).accents = .eq := Std.ReflCmp.compare_self
  rw [before, Key.compare, hprimary, Ordering.eq_then, haccents, hself, Ordering.eq_then, hfolded,
    Ordering.lt_then]

/-- ASCII texts are ordered by their characters in lower case, in a linear order of characters that
begins with the leading ones. If they differ in case alone, the one with a lower-case letter at the
first difference comes first. -/
theorem before_ascii :
    (IsStrictTotalOrder Char Precedes ∧ leading.Pairwise Precedes ∧
      ∀ c ∈ leading, ∀ d ∉ leading, Precedes c d) ∧
    ∀ s t : String, IsAscii s.toList → IsAscii t.toList →
      (s.toLower ≠ t.toLower →
        (before s t ↔ before s.toLower t.toLower) ∧
        (before s.toLower t.toLower ↔
          List.Lex Precedes s.toLower.toList t.toLower.toList)) ∧
      (s.toLower = t.toLower → s ≠ t →
        ∃ front c d us vs, s.toList = front ++ c :: us ∧ t.toList = front ++ d :: vs ∧
          (c.isLower = true ∧ d.isUpper = true ∧ before s t ∨
            c.isUpper = true ∧ d.isLower = true ∧ before t s)) := by
  refine ⟨⟨isStrictTotalOrder_precedes, pairwise_leading, fun c hc d hd => precedes_of_mem hc hd⟩,
    fun s t hs ht => ⟨fun hne => ?_, fun hsame hne => ?_⟩⟩
  · have hlower := before_iff_lex (isAscii_toLower hs) (isAscii_toLower ht)
    rw [toLower_toLower, toLower_toLower] at hlower
    exact ⟨(before_iff_lex hs ht hne).trans (hlower hne).symm, hlower hne⟩
  · have hmap : s.toList.map Char.toLower = t.toList.map Char.toLower := by
      rw [← String.toList_map, ← String.toList_map]
      exact congrArg String.toList hsame
    obtain ⟨front, c, d, us, vs, hfront, hfront', hcd, hlower⟩ :=
      exists_first_difference hmap fun heq => hne (String.toList_inj.mp heq)
    refine ⟨front, c, d, us, vs, hfront, hfront', ?_⟩
    rcases case_of_toLower_eq hcd hlower with ⟨hc, hd⟩ | ⟨hc, hd⟩
    · exact .inl ⟨hc, hd, before_of_case hs ht hsame hfront hfront' hc hd⟩
    · exact .inr ⟨hc, hd, before_of_case ht hs hsame.symm hfront' hfront hd hc⟩

/-- A low line comes before a hyphen whatever the letters around them, and `bA` before `Ba`. -/
theorem before_ascii_mixed_case :
    (IsAscii "A_b".toList ∧ IsAscii "a-B".toList ∧ "A_b".toLower ≠ "a-B".toLower ∧
      before "A_b" "a-B") ∧
    (IsAscii "bA".toList ∧ IsAscii "Ba".toList ∧ "bA".toLower = "Ba".toLower ∧
      before "bA" "Ba") := by
  have hascii : IsAscii "A_b".toList ∧ IsAscii "a-B".toList := by simp [IsAscii]
  have hascii' : IsAscii "bA".toList ∧ IsAscii "Ba".toList := by simp [IsAscii]
  have hne : "A_b".toLower ≠ "a-B".toLower := by
    rw [← String.toList_inj.ne]
    simp [String.toLower]
  have hsame : "bA".toLower = "Ba".toLower := by
    rw [← String.toList_inj]
    simp [String.toLower]
  refine ⟨⟨hascii.1, hascii.2, hne, ?_⟩, hascii'.1, hascii'.2, hsame, ?_⟩
  · obtain ⟨hlower, hlex⟩ := (before_ascii.2 _ _ hascii.1 hascii.2).1 hne
    exact hlower.mpr (hlex.mpr (by decide +kernel))
  · obtain ⟨front, c, d, us, vs, hfront, hfront', hcase⟩ :=
      (before_ascii.2 _ _ hascii'.1 hascii'.2).2 hsame (by decide)
    rcases hcase with ⟨-, -, hbefore⟩ | ⟨hc, hd, -⟩
    · exact hbefore
    · cases front with
      | nil =>
        obtain ⟨rfl, -⟩ := List.cons.inj hfront
        cases hc
      | cons x front =>
        have hx := (List.cons.inj hfront).1
        have hx' := (List.cons.inj hfront').1
        rw [← hx] at hx'
        cases hx'

end PathGlob.Collation
