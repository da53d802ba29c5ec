import PathGlob.Proofs.FileSystem.Spelling

/-!
# Normal forms

The normal form of a path is found by its spelling alone, so that a double dot takes back the name
before it even where that is a link to somewhere else. As long as it never does, the normal form
leads where the path does.
-/
namespace PathGlob

/-! ## Spellings of normal forms -/

namespace Path

variable {p c : String} {cs : List String}

structure Proper (c : String) : Prop where
  ne_empty : c ≠ ""
  ne_dot : c ≠ "."
  ne_up : c ≠ ".."

theorem improper_cases (h : ¬ Proper c) : (c = "" ∨ c = ".") ∨ c = ".." := by
  by_contra hno
  push Not at hno
  exact h ⟨hno.1.1, hno.1.2, hno.2⟩

/-- The components of the normal form of an absolute path with the given components. -/
def climbed (cs : List String) : List String := cs.foldl (climb true) []

theorem climbed_concat (cs : List String) (c : String) :
    climbed (cs ++ [c]) = climb true (climbed cs) c := by
  simp [climbed]

theorem climb_stay (done : List String) (h : c = "" ∨ c = ".") : climb true done c = done :=
  if_pos h

theorem climb_proper (done : List String) (h : Proper c) : climb true done c = done ++ [c] := by
  simp [climb, h.ne_empty, h.ne_dot, h.ne_up]

theorem climb_up {done : List String} (h : ∀ d ∈ done, Proper d) :
    climb true done ".." = done.dropLast := by
  have hlast : done.getLast? ≠ some ".." := fun hup =>
    (h ".." (List.mem_of_getLast? hup)).ne_up rfl
  simp only [climb, if_neg hlast]
  by_cases hnil : done = [] <;> simp [hnil]

theorem proper_climbed (cs : List String) : ∀ d ∈ climbed cs, Proper d ∧ d ∈ cs := by
  induction cs using List.reverseRecOn with
  | nil => simp [climbed]
  | append_singleton cs c ih =>
    have hproper : ∀ d ∈ climbed cs, Proper d := fun d hd => (ih d hd).1
    have hmore : ∀ d ∈ climbed cs, Proper d ∧ d ∈ cs ++ [c] := fun d hd =>
      ⟨(ih d hd).1, List.mem_append_left _ (ih d hd).2⟩
    rw [climbed_concat]
    by_cases hc : Proper c
    · rw [climb_proper _ hc]
      intro d hd
      rcases List.mem_append.mp hd with hd | hd
      · exact hmore d hd
      · rw [List.mem_singleton.mp hd]
        exact ⟨hc, by simp⟩
    · rcases improper_cases hc with hstay | rfl
      · rwa [climb_stay _ hstay]
      · rw [climb_up hproper]
        exact fun d hd => hmore d (List.mem_of_mem_dropLast hd)

theorem ne_empty_of_absolute (hp : isAbsolute p = true) : p ≠ "" := by
  rintro rfl
  simp [isAbsolute] at hp

theorem isAbsolute_join (hcwd : isAbsolute cwd = true) (p : String) :
    isAbsolute (join cwd p) = true := by
  have hne : cwd ≠ "" := ne_empty_of_absolute hcwd
  unfold join
  split_ifs with habs hslash
  · exact habs
  · rwa [isAbsolute_append hne]
  · rwa [String.append_assoc, isAbsolute_append hne]

theorem leadingSlashes_of_absolute (hp : isAbsolute p = true) :
    leadingSlashes p.toList = 1 ∨ leadingSlashes p.toList = 2 := by
  unfold isAbsolute at hp
  match h : p.toList with
  | [] => simp [h] at hp
  | [c] => simp_all [leadingSlashes]
  | [c, d] => by_cases hd : d = '/' <;> simp_all [leadingSlashes]
  | c :: d :: e :: more =>
    by_cases hd : d = '/' <;> by_cases he : e = '/' <;> simp_all [leadingSlashes]

theorem normalize_of_absolute (hp : isAbsolute p = true) :
    normalize p = "/" ++ "/".intercalate (climbed (components p)) ∨
      normalize p = "/" ++ ("/" ++ "/".intercalate (climbed (components p))) := by
  have hone : String.ofList (List.replicate 1 '/') = "/" := rfl
  have htwo : String.ofList (List.replicate 2 '/') = "/" ++ "/" := rfl
  unfold normalize climbed
  rcases leadingSlashes_of_absolute hp with hk | hk
  · left
    rw [hk]
    dsimp only
    rw [hone]
    exact if_neg (by simp)
  · right
    rw [hk]
    dsimp only
    rw [htwo, String.append_assoc]
    exact if_neg (by simp)

theorem isAbsolute_normalize (hp : isAbsolute p = true) : isAbsolute (normalize p) = true := by
  rcases normalize_of_absolute hp with h | h <;> simp [h, isAbsolute]

theorem components_of_slash (q : String) : components ("/" ++ q) = "" :: components q := by
  rw [← String.empty_append (s := "/"), components_append, components_empty]
  rfl

end Path

/-! ## Where normal forms lead -/

namespace FileSystem

variable {fs : FileSystem} {links : Nat} {here loc : Location} {access : Access} {c : String}
  {cs ys : List String}

theorem resolve_root_skip (f : Bool) (links : Nat) (ys : List String) :
    fs.resolve f links [] ("" :: ys) = fs.resolve f links [] ys := by
  simp [resolve_cons, node?]

theorem directory_of_resolve_cons {f : Bool} (h : fs.resolve f links here (c :: ys) = .ok loc) :
    ∃ access, fs.node? here = some (.directory access) := by
  rw [resolve_cons] at h
  split at h
  · exact ⟨_, ‹_›⟩
  · cases h

theorem resolve_stay (hsearch : fs.Searchable) (hnode : fs.node? here = some (.directory access))
    (hc : c = "" ∨ c = ".") (f : Bool) (links : Nat) (ys : List String) :
    fs.resolve f links here (c :: ys) = fs.resolve f links here ys := by
  have haccess := hsearch here access hnode
  rw [resolve_cons]
  rcases hc with rfl | rfl <;> simp [hnode, haccess]

theorem resolve_up (hsearch : fs.Searchable) (hnode : fs.node? here = some (.directory access))
    (f : Bool) (links : Nat) (ys : List String) :
    fs.resolve f links here (".." :: ys) = fs.resolve f links here.dropLast ys := by
  have haccess := hsearch here access hnode
  rw [resolve_cons]
  simp [hnode, haccess]

/-- What stands in front of a component leads to a directory if all of them lead somewhere. -/
theorem exists_behind {f : Bool} (h : fs.resolve f links here (cs ++ c :: ys) = .ok loc) :
    ∃ there left access, fs.node? there = some (.directory access) ∧
      ∀ f ys, f = true ∨ ys ≠ [] →
        fs.resolve f links here (cs ++ ys) = fs.resolve f left there ys := by
  cases fs.prefix_resolve links here cs with
  | stops e behind =>
    rw [behind f _ (.inr (by simp))] at h
    cases h
  | leads there left behind =>
    rw [behind f _ (.inr (by simp))] at h
    obtain ⟨access, hnode⟩ := directory_of_resolve_cons h
    exact ⟨there, left, access, hnode, behind⟩

/-- A name that leads somewhere is a link, or what is behind it is resolved from its node. -/
theorem resolve_proper (hc : Path.Proper c) (h : fs.resolve true links here [c] = .ok loc) :
    (∃ link target, fs.resolve false links here [c] = .ok link ∧
        fs.node? link = some (.link target)) ∨
      ∃ n, loc = here ++ [n] ∧
        ∀ f ys, fs.resolve f links here (c :: ys) = fs.resolve f links loc ys := by
  obtain ⟨access, hnode⟩ := directory_of_resolve_cons h
  have hcons : ∀ f ys, fs.resolve f links here (c :: ys) = _ := fun f ys =>
    resolve_cons f links here c ys
  simp only [hnode, if_neg hc.ne_empty, if_neg hc.ne_dot, if_neg hc.ne_up] at hcons
  cases hsearch : access.searchable with
  | false => simp [hcons, hsearch] at h
  | true =>
    simp only [hsearch, Bool.not_true, Bool.false_eq_true, if_false] at hcons
    cases hname : Name.ofText? c with
    | none => simp [hcons, hname] at h
    | some n =>
      simp only [hname] at hcons
      cases hchild : fs.node? (here ++ [n]) with
      | none => simp [hcons, hchild] at h
      | some child =>
        simp only [hchild] at hcons
        cases child with
        | directory a =>
          rw [hcons, resolve_nil] at h
          cases h
          exact .inr ⟨n, rfl, hcons⟩
        | file readable content =>
          rw [hcons, resolve_nil] at h
          cases h
          exact .inr ⟨n, rfl, hcons⟩
        | link target => exact .inl ⟨_, target, by rw [hcons]; simp, hchild⟩

/-- A double dot takes back the name before it, if that is no link. -/
theorem resolve_take_back (hsearch : fs.Searchable) (hc : Path.Proper c)
    (hleads : fs.resolve true links here (cs ++ [c]) = .ok loc)
    (hnode : fs.node? loc = some (.directory access))
    (hlink : ∀ link target, fs.resolve false links here (cs ++ [c]) = .ok link →
      fs.node? link ≠ some (.link target)) {f : Bool} (hne : f = true ∨ ys ≠ []) :
    fs.resolve f links here (cs ++ c :: ".." :: ys) = fs.resolve f links here (cs ++ ys) := by
  obtain ⟨dir, left, -, -, behind⟩ := exists_behind hleads
  rw [behind true _ (.inl rfl)] at hleads
  rcases resolve_proper hc hleads with ⟨link, target, hto, hat⟩ | ⟨n, rfl, hgo⟩
  · rw [← behind false _ (.inr (by simp))] at hto
    exact absurd hat (hlink link target hto)
  · rw [behind f _ (.inr (by simp)), hgo, resolve_up hsearch hnode, List.dropLast_concat,
      behind f ys hne]

/-- Whatever is behind the components is resolved as it is behind those of the normal form. -/
def Settled (fs : FileSystem) (cs : List String) : Prop :=
  ∀ f ys, f = true ∨ ys ≠ [] → fs.resolve f maxLinks [] (cs ++ ys) =
    fs.resolve f maxLinks [] (Path.climbed cs ++ ys)

/-- No component of the normal form that a double dot takes back is a link. -/
def Steady (fs : FileSystem) (cs : List String) : Prop :=
  ∀ before after, cs = before ++ ".." :: after → ∀ link target,
    fs.resolve false maxLinks [] (Path.climbed before) = .ok link →
      fs.node? link ≠ some (.link target)

theorem Settled.concat (hsearch : fs.Searchable) (h : fs.Settled cs)
    (hleads : ∃ loc, fs.resolve false maxLinks [] (cs ++ c :: ys) = .ok loc)
    (hup : c = ".." → ∀ link target,
      fs.resolve false maxLinks [] (Path.climbed cs) = .ok link →
        fs.node? link ≠ some (.link target)) : fs.Settled (cs ++ [c]) := by
  obtain ⟨there, hthere⟩ := hleads
  have hproper : ∀ d ∈ Path.climbed cs, Path.Proper d := fun d hd => (Path.proper_climbed cs d hd).1
  intro f zs hne
  rw [Path.climbed_concat, List.append_assoc, List.singleton_append]
  by_cases hc : Path.Proper c
  · rw [Path.climb_proper _ hc, h f _ (.inr (by simp)), List.append_assoc, List.singleton_append]
  -- Else what is before leads to a directory.
  obtain ⟨loc, left, access, hnode, behind⟩ := exists_behind hthere
  rcases Path.improper_cases hc with hstay | rfl
  · rw [Path.climb_stay _ hstay, ← h f zs hne, behind f _ (.inr (by simp)), behind f zs hne,
      resolve_stay hsearch hnode hstay]
  rw [Path.climb_up hproper]
  have hloc := behind true [] (.inl rfl)
  rw [h true [] (.inl rfl), List.append_nil, resolve_nil] at hloc
  rcases List.eq_nil_or_concat (Path.climbed cs) with hnil | ⟨ds, d, hds⟩
  · -- Above the root is the root.
    rw [hnil, resolve_nil] at hloc
    cases hloc
    rw [behind f _ (.inr (by simp)), resolve_up hsearch hnode, List.dropLast_nil,
      ← behind f zs hne, h f zs hne, hnil, List.dropLast_nil]
  · rw [List.concat_eq_append] at hds
    rw [hds] at hloc hup
    rw [h f _ (.inr (by simp)), hds, List.dropLast_concat, List.append_assoc, List.singleton_append]
    have hd : Path.Proper d := hproper d (by simp [hds])
    exact resolve_take_back hsearch hd hloc hnode (hup rfl) hne

/-- Where components lead somewhere and their double dots take back no links, those of the normal
form can take their place in front of others. -/
theorem settled (hsearch : fs.Searchable) (hsteady : fs.Steady cs)
    (hleads : ∃ loc, fs.resolve false maxLinks [] cs = .ok loc) {done : List String}
    (hdone : done <+: cs) : fs.Settled done := by
  induction done using List.reverseRecOn with
  | nil => exact fun f ys _ => rfl
  | append_singleton done c ih =>
    obtain ⟨rest, rfl⟩ := hdone
    rw [List.append_assoc, List.singleton_append] at hleads hsteady
    have hdone : done <+: done ++ [c] ++ rest := ⟨c :: rest, by simp⟩
    refine (ih hdone).concat hsearch hleads ?_
    rintro rfl link target
    exact hsteady done rest rfl link target

/-! ## The last component -/

theorem resolve_improper (hc : ¬ Path.Proper c) :
    fs.resolve false links here (cs ++ [c]) = fs.resolve true links here (cs ++ [c]) := by
  have hlast : ∀ links here, fs.resolve false links here [c] = fs.resolve true links here [c] := by
    intro links here
    rw [resolve_cons, resolve_cons]
    simp only [resolve_nil]
    rcases Path.improper_cases hc with (rfl | rfl) | rfl <;> simp
  cases fs.prefix_resolve links here cs with
  | stops e behind => rw [behind true _ (.inl rfl), behind false _ (.inr (by simp))]
  | leads there left behind => rw [behind true _ (.inl rfl), behind false _ (.inr (by simp)), hlast]

/-- What components lead to is also there if a last link is not followed, or there is the link. -/
theorem resolve_cases (h : fs.resolve true links here cs = .ok loc) :
    fs.resolve false links here cs = .ok loc ∨
      ∃ link target, fs.resolve false links here cs = .ok link ∧
        fs.node? link = some (.link target) := by
  rcases List.eq_nil_or_concat cs with rfl | ⟨ds, d, rfl⟩
  · rw [resolve_nil] at h ⊢
    exact .inl h
  rw [List.concat_eq_append] at h ⊢
  by_cases hd : Path.Proper d
  · obtain ⟨dir, left, -, -, behind⟩ := exists_behind h
    rw [behind true _ (.inl rfl)] at h
    rw [behind false _ (.inr (by simp))]
    rcases resolve_proper hd h with hlink | ⟨n, -, hgo⟩
    · exact .inr hlink
    · left
      rw [hgo, resolve_nil]
  · left
    rw [resolve_improper hd, h]

end FileSystem

/-! ## Links on the way -/

namespace Path

def endsWithName (p : String) : Bool :=
  (components p).getLast?.all fun c => c != "" && c != "." && c != ".."

theorem proper_of_endsWithName {p c : String} {cs : List String} (h : endsWithName p = true)
    (hcs : components p = cs ++ [c]) : Proper c := by
  simp only [endsWithName, hcs, List.getLast?_concat, Option.all_some, Bool.and_eq_true,
    bne_iff_ne] at h
  exact ⟨h.1.1, h.1.2, h.2⟩

theorem exists_of_absolute {p : String} (h : isAbsolute p = true) : ∃ q, p = "/" ++ q := by
  have hhead : p.toList.head? = some '/' := by simpa [isAbsolute] using h
  obtain ⟨cs, hcs⟩ := List.head?_eq_some_iff.mp hhead
  refine ⟨String.ofList cs, String.toList_inj.mp ?_⟩
  simp [hcs]

end Path

namespace Host

variable {h : Host} {p : String} {st : Status}

def isLink (h : Host) (p : String) : Bool :=
  (h.status false p).toOption.any fun st => st.kind = .link

/-- Whether the double dots of an absolute path take back no links: what is before each of them is
in normal form none. -/
def steady (h : Host) (p : String) : Bool :=
  (List.range (Path.components p).length).all fun n =>
    (Path.components p)[n]? != some ".." ||
      !h.isLink (Path.normalize ("/".intercalate ((Path.components p).take n)))

theorem locate_of_absolute (hp : Path.isAbsolute p = true) (f : Bool) :
    h.locate f p = h.files.resolve f maxLinks [] (Path.components p) := by
  rw [locate, if_neg (Path.ne_empty_of_absolute hp), startOf, if_pos hp]

theorem resolve_normalize (hp : Path.isAbsolute p = true) (f : Bool) (ys : List String) :
    h.files.resolve f maxLinks [] (Path.components (Path.normalize p) ++ ys) =
      h.files.resolve f maxLinks [] (Path.climbed (Path.components p) ++ ys) := by
  have hspelled : h.files.resolve f maxLinks []
      (Path.components ("/".intercalate (Path.climbed (Path.components p))) ++ ys) =
        h.files.resolve f maxLinks [] (Path.climbed (Path.components p) ++ ys) := by
    by_cases hnil : Path.climbed (Path.components p) = []
    · rw [hnil]
      exact FileSystem.resolve_root_skip f maxLinks ys
    · rw [Path.components_intercalate hnil fun c hc =>
        Path.slash_not_mem_of_mem_components (Path.proper_climbed _ c hc).2]
  rcases Path.normalize_of_absolute hp with hn | hn
  · rw [hn, Path.components_of_slash, List.cons_append, FileSystem.resolve_root_skip, hspelled]
  · rw [hn, Path.components_of_slash, Path.components_of_slash, List.cons_append, List.cons_append,
      FileSystem.resolve_root_skip, FileSystem.resolve_root_skip, hspelled]

theorem locate_normalize (hp : Path.isAbsolute p = true) (f : Bool) :
    h.locate f (Path.normalize p) =
      h.files.resolve f maxLinks [] (Path.climbed (Path.components p)) := by
  have hres := resolve_normalize (h := h) hp f []
  rw [List.append_nil, List.append_nil] at hres
  rw [locate_of_absolute (Path.isAbsolute_normalize hp), hres]

theorem isLink_of_locate {link : Location} {target : String} (hto : h.locate false p = .ok link)
    (hat : h.files.node? link = some (.link target)) : h.isLink p = true := by
  have hst : h.status false p = .ok ⟨.link, link, h.files.stampAt link⟩ :=
    status_eq_ok.mpr ⟨link, _, hto, hat, rfl⟩
  simp [isLink, hst, Except.toOption]

theorem isLink_of_steady (hsteady : h.steady p = true) {before after : List String}
    (hsplit : Path.components p = before ++ ".." :: after) :
    h.isLink (Path.normalize ("/".intercalate before)) = false := by
  have hmem : before.length ∈ List.range (Path.components p).length := by
    simp [hsplit]
  have hat := List.all_eq_true.mp hsteady _ hmem
  simpa [hsplit] using hat

theorem steady_files (hp : Path.isAbsolute p = true) (hsteady : h.steady p = true) :
    h.files.Steady (Path.components p) := by
  intro before after hsplit link target hto hat
  obtain ⟨q, hq⟩ := Path.exists_of_absolute hp
  have hhead := Path.components_of_slash q
  rw [← hq, hsplit] at hhead
  match before with
  | [] => simp at hhead
  | [c] =>
    -- The root is no link.
    obtain ⟨rfl, -⟩ := List.cons.inj hhead
    rw [show Path.climbed [""] = [] from rfl, FileSystem.resolve_nil] at hto
    cases hto
    simp [FileSystem.node?] at hat
  | c :: d :: more =>
    obtain ⟨rfl, -⟩ := List.cons.inj hhead
    have hcomponents := Path.components_intercalate (by simp) fun c hc =>
      Path.slash_not_mem_of_mem_components (p := p) (hsplit ▸ List.mem_append_left _ hc)
    have habs : Path.isAbsolute ("/".intercalate ("" :: d :: more)) = true := by
      simp [Path.isAbsolute]
    rw [← hcomponents, ← locate_normalize habs] at hto
    have hlink := isLink_of_locate hto hat
    rw [isLink_of_steady hsteady hsplit] at hlink
    cases hlink

/-- The normal form of a path leads to what the path leads to, if its double dots take back no
links, and if it is a link only where the path ends with its name. -/
theorem status_normalize (hsearch : h.files.Searchable) (hp : Path.isAbsolute p = true)
    (hsteady : h.steady p = true) (hst : h.status false p = .ok st)
    (hlast : Path.endsWithName p = true ∨ h.isLink (Path.normalize p) = false) :
    h.status false (Path.normalize p) = .ok st := by
  obtain ⟨loc, node, hloc, hnode, rfl⟩ := status_eq_ok.mp hst
  refine status_eq_ok.mpr ⟨loc, node, ?_, hnode, rfl⟩
  have hleads : h.files.resolve false maxLinks [] (Path.components p) = .ok loc := by
    rw [← hloc, locate_of_absolute hp]
  have hsettled : ∀ done, done <+: Path.components p → h.files.Settled done := fun done hdone =>
    FileSystem.settled hsearch (steady_files hp hsteady) ⟨loc, hleads⟩ hdone
  rw [locate_normalize hp]
  obtain ⟨ds, d, hds⟩ := (List.eq_nil_or_concat _).resolve_left (Path.components_ne_nil p)
  rw [List.concat_eq_append] at hds
  by_cases hd : Path.Proper d
  · have hsame := hsettled ds (hds ▸ List.prefix_append _ _) false [d] (.inr (by simp))
    rw [← hds, hleads] at hsame
    rw [hsame, hds, Path.climbed_concat, Path.climb_proper _ hd]
  · -- A last link is followed, so that the normal form must be none.
    have hfollowed : h.files.resolve true maxLinks [] (Path.components p) = .ok loc := by
      rw [← hleads, hds, FileSystem.resolve_improper hd]
    have hsame := hsettled _ (List.prefix_refl _) true [] (.inl rfl)
    rw [List.append_nil, List.append_nil, hfollowed] at hsame
    rcases FileSystem.resolve_cases hsame.symm with hthere | ⟨link, target, hto, hat⟩
    · exact hthere
    · rw [← locate_normalize hp] at hto
      have hisLink := isLink_of_locate hto hat
      rcases hlast with hname | hno
      · exact absurd (Path.proper_of_endsWithName hname hds) hd
      · rw [hisLink] at hno
        cases hno

/-- With a slash behind it, the normal form of a path that has one leads to the same directory. -/
theorem status_normalize_slash (hsearch : h.files.Searchable) {q : String} (hq : p = q ++ "/")
    (hp : Path.isAbsolute p = true) (hsteady : h.steady p = true)
    (hst : h.status false p = .ok st) : h.status false (Path.normalize p ++ "/") = .ok st := by
  obtain ⟨loc, node, hloc, hnode, rfl⟩ := status_eq_ok.mp hst
  refine status_eq_ok.mpr ⟨loc, node, ?_, hnode, rfl⟩
  have hleads : h.files.resolve false maxLinks [] (Path.components p) = .ok loc := by
    rw [← hloc, locate_of_absolute hp]
  have habs := Path.isAbsolute_normalize hp
  have habs' : Path.isAbsolute (Path.normalize p ++ "/") = true := by
    rwa [Path.isAbsolute_append (Path.ne_empty_of_absolute habs)]
  have hsettled : h.files.Settled (Path.components p) :=
    FileSystem.settled hsearch (steady_files hp hsteady) ⟨loc, hleads⟩ (List.prefix_refl _)
  rw [locate_of_absolute habs', Path.components_slash, resolve_normalize hp,
    ← hsettled false _ (.inr (by simp)), ← hleads, hq, Path.components_slash, List.append_assoc]
  -- A second slash leads to where the first does.
  rw [hq, Path.components_slash] at hleads
  obtain ⟨there, left, access, hdir, behind⟩ := FileSystem.exists_behind hleads
  rw [behind false _ (.inr (by simp)), behind false _ (.inr (by simp)), List.singleton_append,
    FileSystem.resolve_stay hsearch hdir (.inl rfl)]

end Host

end PathGlob
