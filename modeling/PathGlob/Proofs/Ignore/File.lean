import PathGlob.Ignore.File
import PathGlob.Ignore.Filter
import PathGlob.Proofs.FileSystem.Locate
import PathGlob.Proofs.Settings.Table

/-!
# Ignore files and their lines

The rules of an ignore file are put together line by line. A line that lies between newlines stands
for the same rule in the file as it does by itself, unless another character ends a line within it,
or white space stands before a hash at its start.
-/
namespace PathGlob

namespace Text

variable {ends coarse : Char → Bool}

/-- The lines are the pieces between line ends, but for an empty piece behind the last end. -/
theorem splitOnP_eq_linesBy (cs : List Char) :
    cs.splitOnP ends = linesBy ends cs ∨ cs.splitOnP ends = linesBy ends cs ++ [[]] := by
  induction cs with
  | nil => exact .inr (List.splitOnP_nil ..)
  | cons c cs ih =>
    rw [List.splitOnP_cons_eq_if_modifyHead, linesBy]
    by_cases hc : ends c = true
    · simp only [if_pos hc, List.cons_append]
      exact ih.imp (congrArg _) (congrArg _)
    · simp only [if_neg hc]
      cases hlines : linesBy ends cs with
      | nil =>
        have hne := List.splitOnP_ne_nil ends cs
        left
        simp_all
      | cons line more =>
        rw [hlines] at ih
        exact ih.imp (fun h => by rw [h]; rfl) (fun h => by rw [h]; rfl)

/-- To split at some characters, one may first split at a part of them. -/
theorem splitOnP_flatMap (hcoarse : ∀ c, coarse c = true → ends c = true) (cs : List Char) :
    (cs.splitOnP coarse).flatMap (List.splitOnP ends) = cs.splitOnP ends := by
  induction cs with
  | nil => rfl
  | cons c cs ih =>
    rw [List.splitOnP_cons_eq_if_modifyHead, List.splitOnP_cons_eq_if_modifyHead, ← ih]
    by_cases hc : coarse c = true
    · rw [if_pos hc, if_pos (hcoarse c hc), List.flatMap_cons, List.splitOnP_nil]
      rfl
    · obtain ⟨first, rest, hsplit⟩ := List.exists_cons_of_ne_nil (List.splitOnP_ne_nil coarse cs)
      rw [if_neg hc, hsplit, List.modifyHead_cons, List.flatMap_cons, List.flatMap_cons,
        List.splitOnP_cons_eq_if_modifyHead]
      by_cases he : ends c = true
      · simp only [if_pos he, List.cons_append]
      · obtain ⟨line, more, hfirst⟩ := List.exists_cons_of_ne_nil (List.splitOnP_ne_nil ends first)
        simp only [if_neg he, hfirst, List.cons_append, List.modifyHead_cons]

theorem trimEnd_eq_nil_iff {cs : List Char} : trimEnd cs = [] ↔ isBlankLine cs = true := by
  simp [trimEnd, isBlankLine, List.dropWhile_eq_nil_iff]

theorem trimEnd_cons {c : Char} (hc : isBlank c = false) (cs : List Char) :
    trimEnd (c :: cs) = c :: trimEnd cs := by
  rw [trimEnd, trimEnd, List.reverse_cons, List.dropWhile_append]
  cases h : cs.reverse.dropWhile isBlank <;> simp [hc]

theorem trim_eq_nil_iff {cs : List Char} : trim cs = [] ↔ isBlankLine cs = true := by
  rw [trim, trimEnd_eq_nil_iff, trimStart]
  induction cs with
  | nil => rfl
  | cons c cs ih => cases hc : isBlank c <;> simp_all [isBlankLine]

end Text

namespace Ignore

/-- A line that says the same in an ignore file as by itself. -/
def Plain (line : List Char) : Prop :=
  Text.isBlankLine line = true ∨
    (∀ c ∈ line, Text.isLineEnd c = false) ∧
      ((Text.trim line).head? = some '#' → line.head? = some '#')

instance (line : List Char) : Decidable (Plain line) :=
  decidable_of_iff (Text.isBlankLine line = true ∨ (line.all fun c => !Text.isLineEnd c) = true ∧
    ((Text.trim line).head? = some '#' → line.head? = some '#')) (by simp [Plain])

theorem isRuleLine_of_blank {line : List Char} (h : Text.isBlankLine line = true) :
    isRuleLine line = false := by
  rw [isRuleLine, Text.trim_eq_nil_iff.mpr h]

theorem linesOf_eq (text : List Char) :
    linesOf text = ((text.splitOnP Text.isLineEnd).filter isRuleLine).map String.ofList := by
  rw [linesOf, Text.lines]
  rcases @Text.splitOnP_eq_linesBy Text.isLineEnd text with h | h
  · rw [h]
  · rw [h, List.filter_append, show [([] : List Char)].filter isRuleLine = [] from rfl,
      List.append_nil]

/-- The rules of a text are those of what lies between its newlines. -/
theorem linesOf_eq_flatMap (text : List Char) :
    linesOf text = (text.splitOn '\n').flatMap linesOf := by
  have hcoarse : ∀ c, (c == '\n') = true → Text.isLineEnd c = true := by
    intro c hc
    rw [beq_iff_eq.mp hc]
    rfl
  simp only [funext linesOf_eq]
  rw [← Text.splitOnP_flatMap hcoarse, List.splitOn_eq_splitOnP, List.filter_flatMap,
    List.map_flatMap]

theorem linesOf_of_blank {line : List Char} (h : Text.isBlankLine line = true) :
    linesOf line = [] := by
  rw [linesOf_eq, List.filter_eq_nil_iff.mpr, List.map_nil]
  intro piece hpiece
  have hblank : Text.isBlankLine piece = true :=
    List.all_eq_true.mpr fun c hc =>
      List.all_eq_true.mp h c (Path.mem_of_mem_splitOnP hpiece hc)
  simp [isRuleLine_of_blank hblank]

theorem linesOf_of_forall {line : List Char} (h : ∀ c ∈ line, Text.isLineEnd c = false) :
    linesOf line = if isRuleLine line then [String.ofList line] else [] := by
  rw [linesOf_eq, List.splitOnP_eq_singleton h]
  cases hrule : isRuleLine line <;> simp [hrule]

theorem head?_trim_of_not_rule {line : List Char} (hblank : Text.isBlankLine line = false)
    (h : isRuleLine line = false) : (Text.trim line).head? = some '#' := by
  rw [isRuleLine] at h
  cases htrim : Text.trim line with
  | nil => simp [Text.trim_eq_nil_iff.mp htrim] at hblank
  | cons c cs => simp_all

theorem read_of_hash (cs : List Char) : Rule.read (String.ofList ('#' :: cs)) = .ok none := by
  have hhead : (trimLine ('#' :: cs)).head? = some '#' := by
    rw [trimLine]
    split
    · rfl
    · rw [Text.trimEnd_cons rfl]
      rfl
  rw [Rule.read, String.toList_ofList]
  exact if_pos (.inr (.inl hhead))

namespace Filter

variable {l : String} {lines : List String} {f : Filter}

theorem ofLines_cons_of_blank (h : Text.isBlankLine l.toList = true) (lines : List String) :
    ofLines (l :: lines) = ofLines lines := by
  simp only [ofLines, List.filter_cons, h, Bool.not_true, Bool.false_eq_true, if_false]

theorem ofLines_cons_eq_ok (h : Text.isBlankLine l.toList = false) :
    ofLines (l :: lines) = .ok f ↔
      ∃ r f', Rule.read l = .ok r ∧ ofLines lines = .ok f' ∧ f = ⟨true, r.toList ++ f'.rules⟩ := by
  simp only [ofLines, List.filter_cons, h, Bool.not_false, if_true, List.mapM_cons]
  cases Rule.read l with
  | error e => simp [bind, Except.bind]
  | ok r =>
    cases (lines.filter fun l => !Text.isBlankLine l.toList).mapM Rule.read with
    | error e => simp [bind, Except.bind]
    | ok rs => cases r <;> simp [bind, Except.bind, pure, Except.pure, eq_comm]

theorem rules_eq_nil_of_inactive (hf : ofLines lines = .ok f) (h : f.active = false) :
    f.rules = [] := by
  induction lines generalizing f with
  | nil => cases hf; rfl
  | cons l lines ih =>
    cases hblank : Text.isBlankLine l.toList with
    | true => exact ih (by rwa [ofLines_cons_of_blank hblank] at hf) h
    | false =>
      obtain ⟨r, f', -, -, rfl⟩ := (ofLines_cons_eq_ok hblank).mp hf
      cases h

/-- The rules alone decide what is ignored. -/
theorem ignores_of_ofLines (hf : ofLines lines = .ok f) (path : String) (isDir : Bool) :
    f.ignores path isDir = (relative path != "" &&
      f.ignoresPath (if isDir then relative path ++ "/" else relative path).toList) := by
  cases hactive : f.active with
  | true => simp [ignores, hactive]
  | false => simp [ignores, hactive, ignoresPath, rules_eq_nil_of_inactive hf hactive]

/-- Line by line, an ignore file keeps the rules. -/
theorem ofLines_flatMap {pieces : List (List Char)} (hplain : ∀ line ∈ pieces, Plain line)
    (hf : ofLines (pieces.map String.ofList) = .ok f) :
    ∃ f', ofLines (pieces.flatMap linesOf) = .ok f' ∧ f'.rules = f.rules := by
  induction pieces generalizing f with
  | nil => exact ⟨f, hf, rfl⟩
  | cons line pieces ih =>
    obtain ⟨hline, hplain⟩ := List.forall_mem_cons.mp hplain
    rw [List.map_cons] at hf
    rw [List.flatMap_cons]
    have htoList := String.toList_ofList (l := line)
    cases hblank : Text.isBlankLine line with
    | true =>
      rw [linesOf_of_blank hblank]
      rw [ofLines_cons_of_blank (by rwa [htoList])] at hf
      exact ih hplain hf
    | false =>
      obtain ⟨hends, hhash⟩ := hline.resolve_left (by simp [hblank])
      obtain ⟨r, g, hread, hg, rfl⟩ := (ofLines_cons_eq_ok (by rwa [htoList])).mp hf
      obtain ⟨g', hg', hrules⟩ := ih hplain hg
      rw [linesOf_of_forall hends]
      cases hrule : isRuleLine line with
      | true =>
        exact ⟨_, (ofLines_cons_eq_ok (by rwa [htoList])).mpr ⟨r, g', hread, hg', rfl⟩,
          by rw [hrules]⟩
      | false =>
        obtain ⟨cs, rfl⟩ :=
          List.head?_eq_some_iff.mp (hhash (head?_trim_of_not_rule hblank hrule))
        rw [read_of_hash] at hread
        cases hread
        exact ⟨g', hg', hrules⟩

end Filter

/-- Where all lines between newlines are plain, a filter of the rules read from an ignore file
ignores what a filter of those lines does. -/
theorem rulesIn_ignores_alike {h : Host} {file : String} {text : List Char} {f : Filter}
    (hread : h.readText (Path.tidy file) = .ok text)
    (hplain : ∀ line ∈ text.splitOn '\n', Plain line)
    (hf : Filter.ofLines ((text.splitOn '\n').map String.ofList) = .ok f) :
    ∃ rules f', rulesIn h file = .ok rules ∧ Filter.ofLines rules = .ok f' ∧
      ∀ path isDir, f'.ignores path isDir = f.ignores path isDir := by
  have hrules : rulesIn h file = .ok ((text.splitOn '\n').flatMap linesOf) := by
    rw [rulesIn, hread, ← linesOf_eq_flatMap]
    rfl
  obtain ⟨f', hf', heq⟩ := Filter.ofLines_flatMap hplain hf
  refine ⟨_, f', hrules, hf', fun path isDir => ?_⟩
  rw [Filter.ignores_of_ofLines hf, Filter.ignores_of_ofLines hf', Filter.ignoresPath,
    Filter.ignoresPath, heq]

/-- A comment, an escaped hash, a form feed by itself and an escaped space at the end are plain. -/
theorem rulesIn_ignores_alike_hash :
    let text := "# x\n\\#x\n\x0c\n*.log \n!b.log\\ ".toList
    let h := Settings.hostWithFile "ig" text
    h.readText (Path.tidy "ig") = .ok text ∧ (∀ line ∈ text.splitOn '\n', Plain line) ∧
      ∃ f rules f', Filter.ofLines ((text.splitOn '\n').map String.ofList) = .ok f ∧
        rulesIn h "ig" = .ok rules ∧ Filter.ofLines rules = .ok f' ∧
        ∀ path isDir, f'.ignores path isDir = f.ignores path isDir := by
  intro text h
  have hread : h.readText (Path.tidy "ig") = .ok text := by decide +kernel
  have hplain : ∀ line ∈ text.splitOn '\n', Plain line := by decide +kernel
  obtain ⟨f, hf, -⟩ := Except.exists_of_any (q := fun _ => true)
    (x := Filter.ofLines ((text.splitOn '\n').map String.ofList)) (by decide +kernel)
  obtain ⟨rules, f', hrules, hf', halike⟩ := rulesIn_ignores_alike hread hplain hf
  exact ⟨hread, hplain, f, rules, f', hf, hrules, hf', halike⟩

/-- A form feed within a line makes two rules of it, and a hash behind a space a comment. -/
theorem exists_ignored_unlike :
    ∃ (h : Host) (text : List Char) (rules : List String) (f f' : Filter),
      h.readText (Path.tidy "ig") = .ok text ∧ text = "a\x0cb\n #x\n".toList ∧
      Filter.ofLines ((text.splitOn '\n').map String.ofList) = .ok f ∧
      rulesIn h "ig" = .ok rules ∧ Filter.ofLines rules = .ok f' ∧
      f'.ignores "a" false = true ∧ f.ignores "a" false = false ∧
      f'.ignores " #x" false = false ∧ f.ignores " #x" false = true := by
  let text := "a\x0cb\n #x\n".toList
  obtain ⟨f, hf, hunlike⟩ := Except.exists_of_any
    (x := Filter.ofLines ((text.splitOn '\n').map String.ofList))
    (q := fun f => !f.ignores "a" false && f.ignores " #x" false) (by decide +kernel)
  obtain ⟨f', hf', hunlike'⟩ := Except.exists_of_any (x := Filter.ofLines ["a", "b"])
    (q := fun f => f.ignores "a" false && !f.ignores " #x" false) (by decide +kernel)
  simp only [Bool.and_eq_true, Bool.not_eq_true'] at hunlike hunlike'
  exact ⟨Settings.hostWithFile "ig" text, text, ["a", "b"], f, f', by decide +kernel, rfl, hf,
    by decide +kernel, hf', hunlike'.1, hunlike.1, hunlike'.2, hunlike.2⟩

end Ignore

end PathGlob
