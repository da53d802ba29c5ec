import PathGlob.Proofs.FileSystem.Normal

/-!
# Names behind normal forms

The normal form of an absolute path is one or two slashes and names. Names that are put behind it
make a normal form again, so that it does not matter whether they are put there all at once or from
a directory between them.
-/
namespace PathGlob.Path

variable {p s x c : String} {cs ds : List String}

def rooted (s : String) (cs : List String) : String := s ++ "/".intercalate cs

structure EntryName (c : String) : Prop where
  proper : Proper c
  slashless : '/' ∉ c.toList

theorem entryName_name (n : Name) : EntryName n.text :=
  ⟨⟨n.text_proper.1, n.text_proper.2.1, n.text_proper.2.2⟩, n.slash_not_mem⟩

/-- Slashes and names that make a normal form of an absolute path. -/
structure Normal (s : String) (cs : List String) : Prop where
  slashes : s = "/" ∨ s = "//"
  names : ∀ c ∈ cs, EntryName c

theorem isAbsolute_rooted (hs : s = "/" ∨ s = "//") (cs : List String) :
    isAbsolute (rooted s cs) = true := by
  rcases hs with rfl | rfl <;> simp [isAbsolute, rooted]

theorem Normal.append (hn : Normal s cs) (hds : ∀ c ∈ ds, EntryName c) : Normal s (cs ++ ds) :=
  ⟨hn.slashes, List.forall_mem_append.mpr ⟨hn.names, hds⟩⟩

theorem exists_normal (hp : isAbsolute p = true) :
    ∃ s cs, Normal s cs ∧ normalize p = rooted s cs := by
  have hnames : ∀ c ∈ climbed (components p), EntryName c := by
    intro c hc
    obtain ⟨hproper, hmem⟩ := proper_climbed _ c hc
    exact ⟨hproper, slash_not_mem_of_mem_components hmem⟩
  rcases normalize_of_absolute hp with hone | htwo
  · exact ⟨"/", _, ⟨.inl rfl, hnames⟩, hone⟩
  · refine ⟨"//", _, ⟨.inr rfl, hnames⟩, ?_⟩
    rw [htwo, ← String.append_assoc]
    rfl

/-! ## Going on behind a normal form -/

theorem intercalate_append (hcs : cs ≠ []) (hds : ds ≠ []) :
    "/".intercalate (cs ++ ds) = "/".intercalate cs ++ "/" ++ "/".intercalate ds :=
  String.intercalate_append_of_ne_nil hcs hds

theorem intercalate_ne_empty (hc : c ≠ "") (cs : List String) : "/".intercalate (c :: cs) ≠ "" := by
  cases cs with
  | nil => simpa using hc
  | cons d ds => simp [String.intercalate_cons_of_ne_nil]

theorem not_isAbsolute_intercalate (hc : c ≠ "") (hslash : '/' ∉ c.toList) (cs : List String) :
    isAbsolute ("/".intercalate (c :: cs)) = false := by
  have hrel := not_isAbsolute_of_slashless hslash
  cases cs with
  | nil => simpa using hrel
  | cons d ds =>
    rw [← List.singleton_append, intercalate_append (by simp) (by simp), String.append_assoc,
      String.intercalate_singleton, isAbsolute_append hc, hrel]

theorem endsWithSlash_rooted (hn : Normal s cs) :
    endsWithSlash (rooted s cs) = decide (cs = []) := by
  rcases List.eq_nil_or_concat cs with rfl | ⟨ds, d, rfl⟩
  · rcases hn.slashes with rfl | rfl <;> rfl
  rw [List.concat_eq_append] at hn ⊢
  obtain ⟨hproper, hslash⟩ := hn.names d (by simp)
  have hends : ∃ q, rooted s (ds ++ [d]) = q ++ d := by
    by_cases hds : ds = []
    · exact ⟨s, by simp [rooted, hds]⟩
    · refine ⟨s ++ ("/".intercalate ds ++ "/"), ?_⟩
      rw [rooted, intercalate_append hds (by simp), String.intercalate_singleton]
      simp only [String.append_assoc]
  obtain ⟨q, hq⟩ := hends
  simpa [hq] using endsWithSlash_append hproper.ne_empty hslash

theorem join_rooted (hn : Normal s cs) (hne : ds ≠ [])
    (hrel : isAbsolute ("/".intercalate ds) = false) :
    join (rooted s cs) ("/".intercalate ds) = rooted s (cs ++ ds) := by
  have hs : s ≠ "" := by rcases hn.slashes with rfl | rfl <;> simp
  have hdir : rooted s cs ≠ "" := by simp [rooted, hs]
  simp only [join, hrel, endsWithSlash_rooted hn, hdir, false_or, Bool.false_eq_true, if_false,
    decide_eq_true_eq]
  split_ifs with hcs
  · simp [hcs, rooted]
  · simp only [rooted, intercalate_append hcs hne, String.append_assoc]

theorem child_rooted (hn : Normal s cs) (hc : EntryName c) :
    child (rooted s cs) c = rooted s (cs ++ [c]) := by
  have hs : s ≠ "" := by rcases hn.slashes with rfl | rfl <;> simp
  have hdir : rooted s cs ≠ "" := by simp [rooted, hs]
  have hrel := not_isAbsolute_intercalate hc.proper.ne_empty hc.slashless []
  rw [← join_name hdir hc.slashless, ← join_rooted hn (by simp) hrel, String.intercalate_singleton]

/-! ## Normal forms of normal forms -/

theorem climbed_names (h : ∀ c ∈ cs, Proper c) : climbed cs = cs := by
  induction cs using List.reverseRecOn with
  | nil => rfl
  | append_singleton cs c ih =>
    rw [climbed_concat, climb_proper _ (h c (by simp)), ih fun d hd => h d (by simp [hd])]

/-- The slashes that a normal form may begin with are all counted. -/
theorem leadingSlashes_slashes (hs : s = "/" ∨ s = "//") (hrel : isAbsolute x = false) :
    leadingSlashes (s ++ x).toList = s.length := by
  have hhead : ∀ cs, x.toList ≠ '/' :: cs := by
    intro cs hx
    simp [isAbsolute, hx] at hrel
  rw [String.toList_append]
  cases hx : x.toList with
  | nil => rcases hs with rfl | rfl <;> rfl
  | cons c cs =>
    have hc : c ≠ '/' := fun hc => hhead cs (by rw [hx, hc])
    rcases hs with rfl | rfl
    · change leadingSlashes ('/' :: c :: cs) = 1
      simp [leadingSlashes, hc]
    · change leadingSlashes ('/' :: '/' :: c :: cs) = 2
      simp [leadingSlashes, hc]

theorem climbed_components_slashes (hs : s = "/" ∨ s = "//") :
    climbed (components (s ++ x)) = climbed (components x) := by
  rcases hs with rfl | rfl
  · rw [components_of_slash]
    rfl
  · rw [show ("//" : String) = "/" ++ "/" from rfl, String.append_assoc, components_of_slash,
      components_of_slash]
    rfl

/-- The normal form of an absolute path begins with as many slashes as the path. -/
theorem normalize_slashes (hs : s = "/" ∨ s = "//") (hrel : isAbsolute x = false) :
    normalize (s ++ x) = rooted s (climbed (components x)) := by
  have hslashes : String.ofList (List.replicate s.length '/') = s := by
    rcases hs with rfl | rfl <;> rfl
  have hlen : (s.length != 0) = true := by rcases hs with rfl | rfl <;> rfl
  have hs' : s ≠ "" := by rcases hs with rfl | rfl <;> simp
  have hclimb : (components (s ++ x)).foldl (climb true) [] = climbed (components x) :=
    climbed_components_slashes hs
  simp only [normalize, leadingSlashes_slashes hs hrel, hlen, hclimb, hslashes]
  exact if_neg (by simp [hs'])

theorem normalize_rooted_append (hn : Normal s cs) (hne : cs ≠ [])
    (hds : ∀ d ∈ ds, '/' ∉ d.toList) :
    normalize (rooted s (cs ++ ds)) = rooted s (climbed (cs ++ ds)) := by
  have hslashless : ∀ c ∈ cs ++ ds, '/' ∉ c.toList :=
    List.forall_mem_append.mpr ⟨fun c hc => (hn.names c hc).slashless, hds⟩
  obtain ⟨first, more, rfl⟩ := List.exists_cons_of_ne_nil hne
  have hrel : isAbsolute ("/".intercalate (first :: more ++ ds)) = false :=
    have hfirst := hn.names first (by simp)
    not_isAbsolute_intercalate hfirst.proper.ne_empty hfirst.slashless _
  rw [rooted, normalize_slashes hn.slashes hrel, components_intercalate (by simp) hslashless]

theorem normalize_rooted (hn : Normal s cs) (hne : cs ≠ []) :
    normalize (rooted s cs) = rooted s cs := by
  have hsame := normalize_rooted_append hn hne
    (List.forall_mem_nil fun d : String => '/' ∉ d.toList)
  rwa [List.append_nil, climbed_names fun c hc => (hn.names c hc).proper] at hsame

/-- A slash behind a normal form is dropped. -/
theorem normalize_rooted_slash (hn : Normal s cs) (hne : cs ≠ []) :
    normalize (rooted s (cs ++ [""])) = rooted s cs := by
  rw [normalize_rooted_append hn hne (by simp), climbed_concat, climb_stay _ (.inl rfl),
    climbed_names fun c hc => (hn.names c hc).proper]

end PathGlob.Path
