import PathGlob.Proofs.FileSystem.Answers

/-!
# Spellings of one place

An empty component stays where it stands, if that is a directory. So a path may be spelled with more
slashes than it needs, and still leads to the same place.
-/
namespace PathGlob

namespace FileSystem

variable {fs : FileSystem} {links : Nat} {here loc : Location} {access : Access}
  {xs ys : List String}

/-- Behind a directory an empty component can be left out. -/
theorem resolve_skip (h : fs.resolve true links here xs = .ok loc)
    (hnode : fs.node? loc = some (.directory access)) {f : Bool} (hne : f = true ∨ ys ≠ []) :
    fs.resolve f links here (xs ++ "" :: ys) = fs.resolve f links here (xs ++ ys) := by
  obtain ⟨left, behind⟩ := resolve_behind h
  rw [behind f ("" :: ys) (.inr (by simp)), behind f ys hne, resolve_cons]
  simp only [hnode, if_true]

theorem resolve_of_slash (h : fs.resolve true links here (xs ++ [""]) = .ok loc) :
    fs.resolve true links here xs = .ok loc := by
  cases fs.prefix_resolve links here xs with
  | stops e behind =>
    rw [behind true [""] (.inl rfl)] at h
    cases h
  | leads there left behind =>
    rw [behind true [""] (.inl rfl)] at h
    obtain rfl := eq_of_resolve_slash h
    have hthere := behind true [] (.inl rfl)
    rwa [List.append_nil, resolve_nil] at hthere

end FileSystem

/-! ## Components -/

namespace Path

variable {dir name : String}

def names (p : String) : List String := (components p).filter (· ≠ "")

theorem names_append (p q : String) : names (p ++ "/" ++ q) = names p ++ names q := by
  rw [names, components_append, List.filter_append]
  rfl

theorem names_child (dir name : String) : names (child dir name) = names dir ++ names name := by
  rcases child_cases dir with hchild | ⟨d, rfl, hchild⟩
  · rw [hchild, names_append]
  · rw [hchild, names_append, ← String.append_empty (s := d ++ "/"), names_append]
    simp [names, components_empty]

theorem components_slash (p : String) : components (p ++ "/") = components p ++ [""] := by
  rw [← components_empty, ← components_append, String.append_empty]

theorem names_slash (p : String) : names (p ++ "/") = names p := by
  simp [names, components_slash]

/-- Putting components together and taking them apart again. -/
theorem components_intercalate {cs : List String} (hne : cs ≠ [])
    (h : ∀ c ∈ cs, '/' ∉ c.toList) : components ("/".intercalate cs) = cs := by
  have hslash : "/".toList = ['/'] := rfl
  have hparts : ∀ l ∈ cs.map String.toList, '/' ∉ l := by
    intro l hl
    obtain ⟨c, hc, rfl⟩ := List.mem_map.mp hl
    exact h c hc
  rw [components, String.toList_intercalate, hslash,
    List.splitOn_intercalate '/' hparts (by simpa using hne), List.map_map]
  simp [Function.comp_def]

theorem endsWithSlash_append {p name : String} (hne : name ≠ "") (hslash : '/' ∉ name.toList) :
    endsWithSlash (p ++ name) = false := by
  have hlast : name.toList.getLast? ≠ some '/' := fun hlast =>
    hslash (List.mem_of_getLast? hlast)
  have hname : name.toList ≠ [] := by simpa using hne
  rw [endsWithSlash, String.toList_append, List.getLast?_append_of_ne_nil _ hname]
  simpa using hlast

theorem not_isAbsolute_of_slashless {c : String} (h : '/' ∉ c.toList) : isAbsolute c = false := by
  cases hc : c.toList with
  | nil => simp [isAbsolute, hc]
  | cons d ds =>
    have hne : d ≠ '/' := by
      rintro rfl
      simp [hc] at h
    simp [isAbsolute, hc, hne]

/-- A text behind a path that is joined stands behind the whole. -/
theorem join_append {p : String} (hp : p ≠ "") (q : String) :
    join dir (p ++ q) = join dir p ++ q := by
  unfold join
  rw [isAbsolute_append hp]
  split_ifs <;> simp [String.append_assoc]

theorem join_ne_empty {p : String} (hp : p ≠ "") : join dir p ≠ "" := by
  unfold join
  split_ifs <;> simp [hp]

theorem join_name (hdir : dir ≠ "") (h : '/' ∉ name.toList) : join dir name = child dir name := by
  have hrel : isAbsolute name = false := not_isAbsolute_of_slashless h
  simp [join, child, hrel, hdir]

end Path

/-! ## Spellings -/

namespace Host

variable {h : Host} {p q : String} {loc : Location} {access : Access}

/-- Two paths that may be spelled differently, behind which all is resolved alike. -/
structure Alike (h : Host) (p q : String) : Prop where
  left : p ≠ ""
  right : q ≠ ""
  null : hasNull p = hasNull q
  absolute : Path.isAbsolute p = Path.isAbsolute q
  names : Path.names p = Path.names q
  behind : ∀ f ys, f = true ∨ ys ≠ [] →
    h.files.resolve f maxLinks (h.startOf p) (Path.components p ++ ys) =
      h.files.resolve f maxLinks (h.startOf q) (Path.components q ++ ys)

theorem Alike.refl (hp : p ≠ "") : h.Alike p p :=
  ⟨hp, hp, rfl, rfl, rfl, fun _ _ _ => rfl⟩

theorem Alike.locate (ha : h.Alike p q) : h.locate true p = h.locate true q := by
  have hsame := ha.behind true [] (.inl rfl)
  simpa only [Host.locate, if_neg ha.left, if_neg ha.right, List.append_nil] using hsame

theorem Alike.isDirectory (ha : h.Alike p q) :
    Oracle.isDirectory h.answer p = Oracle.isDirectory h.answer q := by
  rw [Bool.eq_iff_iff, isDirectory_answer, isDirectory_answer, ha.null, ha.locate]

theorem startOf_append (hp : p ≠ "") (s : String) : h.startOf (p ++ s) = h.startOf p := by
  rw [startOf, startOf, Path.isAbsolute_append hp]

/-- A directory is also spelled with a slash behind it. -/
theorem Alike.slash (ha : h.Alike p q) (hq : Oracle.isDirectory h.answer q = true) :
    h.Alike (p ++ "/") q where
  left := by simp
  right := ha.right
  null := by rw [hasNull_append, hasNull_slash, Bool.or_false, ha.null]
  absolute := by rw [Path.isAbsolute_append ha.left, ha.absolute]
  names := by rw [Path.names_slash, ha.names]
  behind f ys hne := by
    obtain ⟨-, loc, access, hloc, hnode⟩ := isDirectory_answer.mp hq
    have hres : h.files.resolve true maxLinks (h.startOf q) (Path.components q) = .ok loc := by
      simpa [Host.locate, ha.right] using hloc
    rw [startOf_append ha.left, Path.components_slash, List.append_assoc,
      ha.behind f _ (.inr (by simp)), List.singleton_append,
      FileSystem.resolve_skip hres hnode hne]

/-- A name behind one directory is looked up alike, and so is what is behind the name, be it nothing
at all. -/
theorem Alike.resolve_child (ha : h.Alike p q) (hq : Oracle.isDirectory h.answer q = true)
    {name : String} (hname : '/' ∉ name.toList) (f : Bool) (ys : List String) :
    h.files.resolve f maxLinks (h.startOf (p ++ "/" ++ name))
        (Path.components (p ++ "/" ++ name) ++ ys) =
      h.files.resolve f maxLinks (h.startOf (Path.child q name))
        (Path.components (Path.child q name) ++ ys) := by
  have hleft : h.files.resolve f maxLinks (h.startOf (p ++ "/" ++ name))
      (Path.components (p ++ "/" ++ name) ++ ys) =
        h.files.resolve f maxLinks (h.startOf q) (Path.components q ++ name :: ys) := by
    rw [String.append_assoc, startOf_append ha.left, ← String.append_assoc,
      Path.components_append, Path.components_of_slashless hname, List.append_assoc,
      List.singleton_append, ha.behind f _ (.inr (by simp))]
  rw [hleft]
  rcases Path.child_cases q with hchild | ⟨d, rfl, hchild⟩
  · rw [hchild, String.append_assoc, startOf_append ha.right, ← String.append_assoc,
      Path.components_append, Path.components_of_slashless hname, List.append_assoc,
      List.singleton_append]
  · -- The slash at the end is an empty component, behind which the name is looked up.
    obtain ⟨-, loc, access, hloc, hnode⟩ := isDirectory_answer.mp hq
    have hres : h.files.resolve true maxLinks (h.startOf (d ++ "/")) (Path.components d) =
        .ok loc := by
      apply FileSystem.resolve_of_slash
      rw [← Path.components_slash]
      simpa [Host.locate] using hloc
    rw [hchild, startOf_append ha.right, Path.components_slash, List.append_assoc,
      List.singleton_append, FileSystem.resolve_skip hres hnode (.inr (by simp)),
      Path.components_append, Path.components_of_slashless hname, List.append_assoc,
      List.singleton_append]

theorem Alike.locate_child (ha : h.Alike p q) (hq : Oracle.isDirectory h.answer q = true)
    {name : String} (hname : '/' ∉ name.toList) (f : Bool) :
    h.locate f (p ++ "/" ++ name) = h.locate f (Path.child q name) := by
  have hne : Path.child q name ≠ "" := by
    rcases Path.child_cases q with hchild | ⟨d, -, hchild⟩ <;> simp [hchild]
  have hsame := ha.resolve_child hq hname f []
  rw [List.append_nil, List.append_nil] at hsame
  rw [Host.locate, Host.locate, if_neg (by simp), if_neg hne, hsame]

/-- Names behind one directory are looked up alike, whether there is one slash between or two. -/
theorem Alike.child (ha : h.Alike p q) (hq : Oracle.isDirectory h.answer q = true) {name : String}
    (hname : '/' ∉ name.toList) : h.Alike (p ++ "/" ++ name) (Path.child q name) where
  left := by simp
  right := by
    rcases Path.child_cases q with hchild | ⟨d, -, hchild⟩ <;> simp [hchild]
  null := by
    rw [hasNull_append, hasNull_append, hasNull_slash, Bool.or_false, ha.null, hasNull_child]
  absolute := by
    rw [String.append_assoc, Path.isAbsolute_append ha.left, ha.absolute]
    rcases Path.child_cases q with hchild | ⟨d, hd, hchild⟩
    · rw [hchild, String.append_assoc, Path.isAbsolute_append ha.right]
    · rw [hchild, ← hd, Path.isAbsolute_append ha.right]
  names := by rw [Path.names_append, Path.names_child, ha.names]
  behind f ys _ := ha.resolve_child hq hname f ys

/-- Behind a directory a slash leads to it. -/
theorem Alike.locate_slash (ha : h.Alike p q) {loc : Location} {access : Access}
    (hloc : h.locate true q = .ok loc) (hnode : h.files.node? loc = some (.directory access))
    (f : Bool) : h.locate f (p ++ "/") = .ok loc := by
  have hres : h.files.resolve true maxLinks (h.startOf q) (Path.components q) = .ok loc := by
    simpa [Host.locate, ha.right] using hloc
  obtain ⟨left, behind⟩ := FileSystem.resolve_behind hres
  rw [Host.locate, if_neg (by simp), startOf_append ha.left, Path.components_slash,
    ha.behind f _ (.inr (by simp)), behind f _ (.inr (by simp)), FileSystem.resolve_cons]
  simp only [hnode, if_true, FileSystem.resolve_nil]

end Host

end PathGlob
