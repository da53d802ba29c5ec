import PathGlob.Proofs.Collation

/-!
# The elements of a text

An ASCII character decomposes into itself, is no mark and keeps the marks behind it apart from what
stands before it. So the elements of a text go on where those of its beginning end, and a text comes
before all that begin with it and go on with an ASCII character.
-/
namespace PathGlob

namespace Text

variable {c : Char} {cs : List Char}

theorem combiningClass_of_ascii (hc : c.toNat < 128) : combiningClass c = 0 := by
  rw [combiningClass, if_pos hc]

theorem decompose_of_ascii (hc : c.toNat < 128) : decompose c = [c] := by
  rw [decompose, if_pos hc]

/-- Marks are not put in order across a character that is none. -/
theorem orderMarks_append (hc : combiningClass c = 0) (run : List (Char × Nat))
    (xs ys : List Char) :
    orderMarks run (xs ++ c :: ys) = orderMarks run xs ++ c :: orderMarks [] ys := by
  induction xs generalizing run with
  | nil => simp [orderMarks, hc]
  | cons x xs ih =>
    rw [List.cons_append, orderMarks, orderMarks]
    by_cases hx : combiningClass x = 0
    · simp [hx, ih]
    · simp [hx, ih]

theorem decomposeText_append (hc : c.toNat < 128) (xs ys : List Char) :
    decomposeText (xs ++ c :: ys) = decomposeText xs ++ c :: decomposeText ys := by
  rw [decomposeText, List.flatMap_append, List.flatMap_cons, decompose_of_ascii hc,
    List.singleton_append, orderMarks_append (combiningClass_of_ascii hc)]
  rfl

theorem decomposeText_of_ascii (hcs : ∀ c ∈ cs, c.toNat < 128) : decomposeText cs = cs := by
  induction cs with
  | nil => rfl
  | cons c cs ih =>
    obtain ⟨hc, hrest⟩ := List.forall_mem_cons.mp hcs
    have hsplit := decomposeText_append hc [] cs
    rw [List.nil_append] at hsplit
    rw [hsplit, ih hrest]
    rfl

end Text

namespace Collation

/-! ## Reading the elements -/

variable {c : Char} {cs : List Char} {es fs : List Element}

theorem accentLast_append (hfs : fs ≠ []) (c : Char) (es : List Element) :
    accentLast c (es ++ fs) = es ++ accentLast c fs := by
  obtain ⟨front, e, rfl⟩ := List.eq_nil_or_concat fs |>.resolve_left hfs
  simp [accentLast, ← List.append_assoc]

theorem accentLast_ne_nil (hfs : fs ≠ []) (c : Char) : accentLast c fs ≠ [] := by
  obtain ⟨front, e, rfl⟩ := List.eq_nil_or_concat fs |>.resolve_left hfs
  simp [accentLast]

theorem addChar_ne_nil (hfs : fs ≠ []) (c : Char) : addChar fs c ≠ [] := by
  unfold addChar
  split
  · exact accentLast_ne_nil hfs c
  · exact List.append_ne_nil_of_left_ne_nil hfs _

/-- A character does something to the last element at most. -/
theorem addChar_append (hfs : fs ≠ []) (c : Char) (es : List Element) :
    addChar (es ++ fs) c = es ++ addChar fs c := by
  unfold addChar
  by_cases hmark : Text.combiningClass c ≠ 0
  · rw [if_pos ⟨hmark, List.append_ne_nil_of_right_ne_nil _ hfs⟩, if_pos ⟨hmark, hfs⟩,
      accentLast_append hfs]
  · rw [if_neg fun h => hmark h.1, if_neg fun h => hmark h.1, List.append_assoc]

theorem foldl_addChar_append (hfs : fs ≠ []) (cs : List Char) (es : List Element) :
    cs.foldl addChar (es ++ fs) = es ++ cs.foldl addChar fs := by
  induction cs generalizing fs with
  | nil => rfl
  | cons c cs ih =>
    rw [List.foldl_cons, List.foldl_cons, addChar_append hfs, ih (addChar_ne_nil hfs c)]

theorem foldl_addChar_ne_nil (hfs : fs ≠ []) (cs : List Char) : cs.foldl addChar fs ≠ [] := by
  induction cs generalizing fs with
  | nil => exact hfs
  | cons c cs ih => exact ih (addChar_ne_nil hfs c)

theorem baseElements_of_ascii (hc : c.toNat < 128) : baseElements c = [.ofChar c] := by
  have hbeyond : ∀ fold ∈ letterFolds, 128 ≤ fold.1.toNat := by decide
  have hnone : letterFolds.lookup c = none := by
    refine List.lookup_eq_none_iff.mpr fun fold hfold => ?_
    have hfold := hbeyond fold hfold
    have hne : c ≠ fold.1 := by
      rintro rfl
      omega
    simpa using hne
  rw [baseElements, hnone]

theorem addChar_of_ascii (hc : c.toNat < 128) (es : List Element) :
    addChar es c = es ++ [.ofChar c] := by
  have hmark : ¬(Text.combiningClass c ≠ 0 ∧ es ≠ []) := fun h =>
    h.1 (Text.combiningClass_of_ascii hc)
  rw [addChar, if_neg hmark, baseElements_of_ascii hc]

theorem elements_append (hc : c.toNat < 128) (xs ys : List Char) :
    ∃ es ≠ [], elements (xs ++ c :: ys) = elements xs ++ es := by
  have hone : [Element.ofChar c] ≠ [] := List.cons_ne_nil _ _
  refine ⟨_, foldl_addChar_ne_nil hone (Text.decomposeText ys), ?_⟩
  rw [elements, Text.decomposeText_append hc, List.foldl_append, List.foldl_cons,
    addChar_of_ascii hc, foldl_addChar_append hone]
  rfl

theorem elements_of_ascii (hcs : ∀ c ∈ cs, c.toNat < 128) :
    elements cs = cs.map Element.ofChar := by
  rw [elements, Text.decomposeText_of_ascii hcs]
  induction cs using List.reverseRecOn with
  | nil => rfl
  | append_singleton cs c ih =>
    rw [List.forall_mem_append] at hcs
    rw [List.foldl_append, ih hcs.1, List.foldl_cons, List.foldl_nil,
      addChar_of_ascii (hcs.2 c (List.mem_singleton_self c)), List.map_append, List.map_singleton]

/-! ## Comparing level by level -/

section Lists

variable {α β γ : Type} {cmp : α → α → Ordering}

theorem compareLex_append_left [Std.ReflCmp cmp] (front xs ys : List α) :
    List.compareLex cmp (front ++ xs) (front ++ ys) = List.compareLex cmp xs ys := by
  induction front with
  | nil => rfl
  | cons a front ih =>
    have hself : cmp a a = .eq := Std.ReflCmp.compare_self
    rw [List.cons_append, List.cons_append, List.compareLex_cons_cons, hself, Ordering.eq_then, ih]

/-- A list comes before those that go on where it ends. -/
theorem compareLex_append_self [Std.ReflCmp cmp] (xs : List α) {ys : List α} (hys : ys ≠ []) :
    List.compareLex cmp xs (xs ++ ys) = .lt := by
  obtain ⟨y, rest, rfl⟩ := List.exists_cons_of_ne_nil hys
  have happend : List.compareLex cmp (xs ++ []) (xs ++ y :: rest) = List.compareLex cmp [] _ :=
    compareLex_append_left xs [] (y :: rest)
  rwa [List.append_nil, List.compareLex_nil_cons] at happend

/-- Lists that are compared through two maps compare alike if their members do. -/
theorem compareLex_map_congr {cmp' : β → β → Ordering} {f : γ → α} {g : γ → β} {xs ys : List γ}
    (h : ∀ x ∈ xs, ∀ y ∈ ys, cmp (f x) (f y) = cmp' (g x) (g y)) :
    List.compareLex cmp (xs.map f) (ys.map f) = List.compareLex cmp' (xs.map g) (ys.map g) := by
  induction xs generalizing ys with
  | nil => cases ys <;> rfl
  | cons x xs ih =>
    cases ys with
    | nil => rfl
    | cons y ys =>
      have hrest := ih fun a ha b hb =>
        h a (List.mem_cons_of_mem x ha) b (List.mem_cons_of_mem y hb)
      rw [List.map_cons, List.map_cons, List.map_cons, List.map_cons, List.compareLex_cons_cons,
        List.compareLex_cons_cons, h x List.mem_cons_self y List.mem_cons_self, hrest]

end Lists

theorem before_of_primary {s t : String}
    (h : List.compareLex Weight.compare (key s.toList).primary (key t.toList).primary = .lt) :
    before s t := by
  rw [before, Key.compare, h, Ordering.lt_then]

theorem before_append (hc : c.toNat < 128) (s r : String) :
    before s (s ++ String.singleton c ++ r) := by
  obtain ⟨es, hes, helements⟩ := elements_append hc s.toList r.toList
  have htext : (s ++ String.singleton c ++ r).toList = s.toList ++ c :: r.toList := by simp
  apply before_of_primary
  rw [htext, key, key, helements, List.map_append]
  exact compareLex_append_self _ (by simpa using hes)

end Collation

end PathGlob
