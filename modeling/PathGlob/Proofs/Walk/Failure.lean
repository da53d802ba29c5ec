import PathGlob.Proofs.Pattern.Segments

/-!
# When walks fail

Without null characters a walk fails for two reasons only: its root is no directory, or its root is
to be listed and cannot be.
-/
namespace PathGlob.Walk

variable {w : Walk} {o : Oracle} {h : Host} {segs : List Segment} {depth : Nat} {out : List String}

/-- Whether segments begin with a listing of the directory where they are laid: the first one that
is not empty is no name. -/
def listsFirst : List Segment → Bool
  | [] => false
  | .empty :: rest => listsFirst rest
  | first :: _ => first.isMagic

/-! ## The root is listed -/

theorem list_of_outcome_entries {es : List Entry}
    (h : (w.entries w.root).outcome o = .ok es) : o (.list w.root) = .ok (.ok es) := by
  rw [entries, Script.outcome_ask] at h
  rcases hq : o (.list w.root) with n | (e | es')
  · simp [hq] at h
  · simp [hq] at h
  · simpa [hq] using h

theorem exists_chainBelow_nil {dir : String} (hdir : o.isDirectory dir = true) :
    ∃ below, w.chainBelow o [] dir = some below := by
  obtain ⟨s, hs, -⟩ := Oracle.isDirectory_eq_true.mp hdir
  have hid : o.identity dir = some s.identity := Oracle.identity_eq_some.mpr ⟨s, hs, rfl⟩
  unfold chainBelow
  split
  · exact ⟨[s.identity], by simp [hid]⟩
  · exact ⟨[], rfl⟩

theorem list_of_outcome_lay (hdir : o.isDirectory w.root = true)
    (hlists : listsFirst segs = true)
    (h : (w.lay segs depth [] w.root out).outcome o = .ok ()) :
    ∃ es, o (.list w.root) = .ok (.ok es) := by
  induction segs generalizing out with
  | nil => cases hlists
  | cons first rest ih =>
    cases first with
    | empty =>
      rw [lay] at h
      obtain ⟨d, hd, h⟩ := Script.outcome_bind_eq_ok.mp h
      have hsame := outcome_isDirectory hd
      rw [hdir] at hsame
      subst hsame
      exact ih hlists h
    | literal text name => cases hlists
    | magic text mode tokens =>
      rw [lay] at h
      obtain ⟨es, hes, -⟩ := Script.outcome_bind_eq_ok.mp h
      exact ⟨es, list_of_outcome_entries hes⟩
    | globstar =>
      rw [lay] at h
      cases depth with
      | zero => cases h
      | succ depth =>
        rw [globstar] at h
        obtain ⟨⟨⟩, -, h⟩ := Script.outcome_bind_eq_ok.mp h
        obtain ⟨below, henter, h⟩ := Script.outcome_bind_eq_ok.mp h
        -- Nothing has been entered before, so that the root is no loop.
        obtain ⟨chain, hchain⟩ := exists_chainBelow_nil (w := w) hdir
        rw [outcome_enter henter] at hchain
        subst hchain
        obtain ⟨es, hes, -⟩ := Script.outcome_bind_eq_ok.mp h
        exact ⟨es, list_of_outcome_entries hes⟩

/-! ## The root is not listed -/

/-- Below the root of a walk no listing is fatal. -/
theorem passable_below (hcanon : w.Canonizes h.answer) :
    w.Passable h.answer (fun _ => False)
      (fun p => hasNull p = false ∧ w.root.length < p.length) where
  asked q hq hasked e he := by
    obtain ⟨a, ha⟩ := hcanon.exists_answer hq.1 hasked
    rw [ha] at he
    cases he
  named dir n hp := by
    refine ⟨?_, hp.2.trans (length_lt_child dir n)⟩
    rw [hasNull_child, hp.1, hasNull_name]
    rfl
  root hp := absurd hp.2 (lt_irrefl _)

theorem outcome_whetherDirectory_of_nullFree {path : String} (hnull : hasNull path = false)
    (known : Option Bool) : ∃ d, (whetherDirectory known path).outcome h.answer = .ok d := by
  cases known with
  | some d => exact ⟨d, rfl⟩
  | none =>
    have ha := Host.answer_stat (h := h) hnull
    exact ⟨_, by rw [whetherDirectory, isDirectory, Script.outcome_ask, ha]; rfl⟩

theorem outcome_display_of_nullFree (hcanon : w.Canonizes h.answer) {path : String}
    (hnull : hasNull path = false) (rel : String) (isDir : Bool) :
    ∃ r, (w.display path rel isDir).outcome h.answer = .ok r := by
  unfold display
  split_ifs with hreal
  · obtain ⟨r, hr⟩ := hcanon hreal path hnull
    exact ⟨_, by rw [Script.outcome_ask, hr]; rfl⟩
  · exact ⟨_, rfl⟩
  · exact ⟨_, rfl⟩

theorem outcome_found_of_nullFree (hcanon : w.Canonizes h.answer) {path : String}
    (hnull : hasNull path = false) (known : Option Bool) :
    (w.found known path out).outcome h.answer = .ok () := by
  unfold found
  by_cases hrel : spell out = ""
  · simp only [hrel, if_true]
    rfl
  simp only [hrel, if_false]
  obtain ⟨d, hd⟩ := outcome_whetherDirectory_of_nullFree (h := h) hnull known
  refine Script.outcome_bind_eq_ok.mpr ⟨d, hd, ?_⟩
  split_ifs
  · rfl
  · obtain ⟨r, hr⟩ := outcome_display_of_nullFree hcanon hnull (spell out) d
    refine Script.outcome_bind_eq_ok.mpr ⟨r, hr, ?_⟩
    cases r <;> rfl

/-- Segments that do not begin with a listing can be laid at the root in any case. -/
theorem outcome_lay_of_names (hcanon : w.Canonizes h.answer) (hnull : hasNull w.root = false)
    (B : w.Budget h.answer) (hlists : listsFirst segs = false)
    (hnames : ∀ text name, .literal text name ∈ segs → name ≠ "" ∧ hasNull name = false)
    (hdepth : B.ahead (globstars segs) [] ≤ depth) :
    (w.lay segs depth [] w.root out).outcome h.answer = .ok () := by
  induction segs generalizing out with
  | nil =>
    rw [lay]
    exact outcome_found_of_nullFree hcanon hnull none
  | cons first rest ih =>
    have hrest : ∀ text name, .literal text name ∈ rest → name ≠ "" ∧ hasNull name = false :=
      fun text name hmem => hnames text name (List.mem_cons_of_mem _ hmem)
    cases first with
    | empty =>
      rw [lay]
      obtain ⟨d, hd⟩ := outcome_whetherDirectory_of_nullFree (h := h) hnull none
      refine Script.outcome_bind_eq_ok.mpr ⟨d, hd, ?_⟩
      split
      · exact ih hlists hrest hdepth
      · rfl
    | literal text name =>
      obtain ⟨hne, hclean⟩ := hnames text name List.mem_cons_self
      have hchild : hasNull (Path.child w.root name) = false := by
        rw [hasNull_child, hnull, hclean]
        rfl
      have hbelow : w.root.length < (Path.child w.root name).length :=
        length_lt_child_of_ne w.root hne
      have hpass := passable_below hcanon
      rw [lay]
      obtain ⟨a, ha⟩ := hcanon.exists_answer (q := .lstat (Path.child w.root name)) hchild (by simp)
      refine Script.outcome_bind_eq_ok.mpr ⟨a.isSome, ?_, ?_⟩
      · rw [isThere, Script.outcome_ask, ha]
        rfl
      · split
        · apply Script.outcome_eq_ok
          refine failsOnly_descend hpass none ⟨hchild, hbelow⟩ ?_
          refine failsOnly_lay hpass B rest (fun text' name' hmem dir hp => ?_) depth [] _ _ hdepth
            ⟨hchild, hbelow⟩
          obtain ⟨hne', hclean'⟩ := hrest text' name' hmem
          refine ⟨?_, hp.2.trans (length_lt_child_of_ne dir hne')⟩
          rw [hasNull_child, hp.1, hclean']
          rfl
        · rfl
    | magic text mode tokens => cases hlists
    | globstar => cases hlists

/-! ## Whole walks -/

theorem names_of_clean (ha : w.alternative.Compiled) (hclean : w.alternative.Clean) :
    ∀ text name, .literal text name ∈ w.ahead → name ≠ "" ∧ hasNull name = false := by
  intro text name hmem
  have hmem := mem_segments_of_mem_ahead hmem
  exact ⟨(ha.name_of_literal hmem).1, hclean text name hmem⟩

/-- A walk ends well if its root is a directory that is listed if need be, whatever else cannot be
listed or looked up. -/
theorem outcome_script_iff {c : Cache} (hc : c.Agrees h.answer)
    (hnames : ∀ text name, .literal text name ∈ w.ahead → name ≠ "" ∧ hasNull name = false)
    (hcanon : w.Canonizes h.answer) (hdepth : w.depthOn h c ≤ depth) :
    (w.script depth).outcome h.answer = .ok () ↔
      Oracle.isDirectory h.answer w.root = true ∧
        (listsFirst w.ahead = true → ∃ es, h.answer (.list w.root) = .ok (.ok es)) := by
  constructor
  · intro hok
    have hdir := isDirectory_root_of_outcome hok
    refine ⟨hdir, fun hlists => ?_⟩
    rw [script_eq] at hok
    obtain ⟨d, hd, hok⟩ := Script.outcome_bind_eq_ok.mp hok
    rw [outcome_isDirectory hd] at hdir
    subst hdir
    exact list_of_outcome_lay (outcome_isDirectory hd) hlists hok
  · rintro ⟨hdir, hlist⟩
    obtain ⟨hnull, -⟩ := Host.isDirectory_answer.mp hdir
    cases hlists : listsFirst w.ahead with
    | true =>
      obtain ⟨es, hes⟩ := hlist hlists
      refine outcome_script_of_listed hc (fun text name hmem => (hnames text name hmem).2) hcanon
        hdir (fun e he => ?_) hdepth
      rw [hes] at he
      cases he
    | false =>
      have hbudget := w.exists_budget h c
      rw [Cache.answers_of_agrees hc] at hbudget
      obtain ⟨B, hB⟩ := hbudget
      rw [script_eq]
      refine Script.outcome_bind_eq_ok.mpr ⟨true, ?_, ?_⟩
      · obtain ⟨d, hd⟩ := outcome_whetherDirectory_of_nullFree (h := h) hnull none
        have hsame := outcome_isDirectory hd
        rw [hdir] at hsame
        rw [hsame]
        exact hd
      · exact outcome_lay_of_names hcanon hnull B hlists hnames (hB.trans hdepth)

end PathGlob.Walk
