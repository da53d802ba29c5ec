import Mathlib
import PathGlob.Lookup.Script

/-!
# Where paths lead

A path is resolved from left to right, so that what is behind a prefix is resolved from the place
where the prefix leads, with the links that are left then. A name that is put behind the path of a
directory leads to the node of that name.
-/
namespace PathGlob

namespace Name

variable (n : Name)

theorem text_proper : n.text ≠ "" ∧ n.text ≠ "." ∧ n.text ≠ ".." := by
  have hv := n.valid
  simp only [isName, Bool.and_eq_true, bne_iff_ne] at hv
  exact ⟨hv.1.1.1, hv.1.1.2, hv.1.2⟩

theorem text_ne_empty : n.text ≠ "" := n.text_proper.1

theorem ofText?_text : ofText? n.text = some n := by simp [ofText?, n.valid]

theorem slash_not_mem : '/' ∉ n.text.toList := by
  intro hmem
  have hv := n.valid
  simp only [isName, Bool.and_eq_true] at hv
  have hc := List.all_eq_true.mp hv.2 '/' hmem
  simp at hc

end Name

namespace FileSystem

variable {fs : FileSystem}

def Readable (fs : FileSystem) : Prop :=
  ∀ loc access, fs.node? loc = some (.directory access) → access.readable = true

def Searchable (fs : FileSystem) : Prop :=
  ∀ loc access, fs.node? loc = some (.directory access) → access.searchable = true

/-! ## Nodes -/

theorem childOf?_eq_some {dir loc : Location} {n : Name} :
    childOf? dir loc = some n ↔ loc = dir ++ [n] := by
  fun_induction childOf? dir loc with
  | case1 m => simp [eq_comm]
  | case2 a dir loc ih => simp [ih]
  | case3 a dir b loc hab => simp [Ne.symm hab]
  | case4 dir loc hnil hcons =>
    constructor
    · intro h
      cases h
    · rintro rfl
      cases dir with
      | nil => exact (hnil n rfl rfl).elim
      | cons a dir => exact (hcons a dir a (dir ++ [n]) rfl rfl).elim

theorem item?_eq_some {loc : Location} {i : Item} :
    fs.item? loc = some i ↔ i ∈ fs.items ∧ i.location = loc := by
  constructor
  · intro h
    exact ⟨List.mem_of_find?_eq_some h, by simpa using List.find?_some h⟩
  · rintro ⟨hi, hloc⟩
    cases h : fs.item? loc with
    | none =>
      have hno := List.find?_eq_none.mp h i hi
      simp [hloc] at hno
    | some j =>
      have hj : j ∈ fs.items := List.mem_of_find?_eq_some h
      have hjloc : j.location = loc := by simpa using List.find?_some h
      have hij := List.inj_on_of_nodup_map fs.distinct hj hi (hjloc.trans hloc.symm)
      rw [hij]

theorem node?_of_item {i : Item} (hi : i ∈ fs.items) (hne : i.location ≠ []) :
    fs.node? i.location = some i.node := by
  simp [node?, hne, item?_eq_some.mpr ⟨hi, rfl⟩]

theorem node?_cases {loc : Location} {node : Node} (h : fs.node? loc = some node) :
    (loc = [] ∧ node = .directory fs.root) ∨ ∃ i ∈ fs.items, i.location = loc ∧ i.node = node := by
  unfold node? at h
  split at h
  · exact .inl ⟨‹_›, (Option.some.inj h).symm⟩
  · obtain ⟨i, hi, hnode⟩ := Option.map_eq_some_iff.mp h
    obtain ⟨hmem, hloc⟩ := item?_eq_some.mp hi
    exact .inr ⟨i, hmem, hloc, hnode⟩

def isOpen (fs : FileSystem) : Bool :=
  fs.root.readable && fs.root.searchable && fs.items.all fun i => match i.node with
    | .directory access => access.readable && access.searchable
    | _ => true

theorem open_of_isOpen (fs : FileSystem) (h : fs.isOpen = true) : fs.Readable ∧ fs.Searchable := by
  simp only [isOpen, Bool.and_eq_true, List.all_eq_true] at h
  obtain ⟨hroot, hitems⟩ := h
  have hopen : ∀ loc access, fs.node? loc = some (.directory access) →
      access.readable = true ∧ access.searchable = true := by
    intro loc access hnode
    rcases node?_cases hnode with ⟨-, hdir⟩ | ⟨i, hi, -, hdir⟩
    · cases hdir
      exact hroot
    · simpa [hdir] using hitems i hi
  exact ⟨fun loc access hnode => (hopen loc access hnode).1,
    fun loc access hnode => (hopen loc access hnode).2⟩

theorem mem_children {dir : Location} {n : Name} {node : Node} :
    (n, node) ∈ fs.children dir ↔ fs.node? (dir ++ [n]) = some node := by
  simp only [children, List.mem_filterMap, Option.map_eq_some_iff, Prod.mk.injEq,
    childOf?_eq_some]
  constructor
  · rintro ⟨i, hi, m, hloc, rfl, rfl⟩
    rw [← hloc]
    exact node?_of_item hi (by simp [hloc])
  · intro h
    simp only [node?, List.append_eq_nil_iff, List.cons_ne_self, and_false, if_false,
      Option.map_eq_some_iff] at h
    obtain ⟨i, hi, hnode⟩ := h
    obtain ⟨hmem, hloc⟩ := item?_eq_some.mp hi
    exact ⟨i, hmem, n, hloc, rfl, hnode⟩

/-! ## Resolving in parts -/

/-- How a resolution goes on behind a link. -/
def onward (fs : FileSystem) (followLast : Bool) : (links : Nat) → Location → List String →
    Except Fault Location
  | 0 => fun _ _ => .error .linkLoop
  | links + 1 => fs.resolve followLast links

theorem resolve_eq (followLast : Bool) (links : Nat) :
    fs.resolve followLast links = fs.resolveWith followLast (fs.onward followLast links) := by
  cases links <;> rfl

theorem resolve_nil (followLast : Bool) (links : Nat) (here : Location) :
    fs.resolve followLast links here [] = .ok here := by
  rw [resolve_eq, resolveWith]

theorem resolve_cons (followLast : Bool) (links : Nat) (here : Location) (c : String)
    (rest : List String) :
    fs.resolve followLast links here (c :: rest) =
      match fs.node? here with
      | some (.directory access) =>
        if c = "" then fs.resolve followLast links here rest
        else if !access.searchable then .error .denied
        else if c = "." then fs.resolve followLast links here rest
        else if c = ".." then fs.resolve followLast links here.dropLast rest
        else
          match Name.ofText? c with
          | none => .error .notFound
          | some n =>
            match fs.node? (here ++ [n]) with
            | none => .error .notFound
            | some (.link target) =>
              if rest = [] ∧ ¬ followLast then .ok (here ++ [n])
              else
                fs.onward followLast links (if Path.isAbsolute target then [] else here)
                  (Path.components target ++ rest)
            | some _ => fs.resolve followLast links (here ++ [n]) rest
      | _ => .error .notDirectory := by
  simp only [resolve_eq]
  exact resolveWith.eq_2 fs followLast _ here c rest

theorem eq_of_resolve_slash {followLast : Bool} {links : Nat} {here loc : Location}
    (h : fs.resolve followLast links here [""] = .ok loc) : loc = here := by
  rw [resolve_cons] at h
  split at h
  · rw [if_pos rfl, resolve_nil] at h
    exact (Except.ok.inj h).symm
  · cases h

theorem resolve_name_cons (followLast : Bool) (links : Nat) {here : Location} {access : Access}
    (hnode : fs.node? here = some (.directory access)) (n : Name) (rest : List String) :
    fs.resolve followLast links here (n.text :: rest) =
      if !access.searchable then .error .denied
      else
        match fs.node? (here ++ [n]) with
        | none => .error .notFound
        | some (.link target) =>
          if rest = [] ∧ ¬ followLast then .ok (here ++ [n])
          else
            fs.onward followLast links (if Path.isAbsolute target then [] else here)
              (Path.components target ++ rest)
        | some _ => fs.resolve followLast links (here ++ [n]) rest := by
  obtain ⟨hempty, hdot, hup⟩ := n.text_proper
  rw [resolve_cons]
  simp only [hnode, hempty, hdot, hup, if_false, n.ofText?_text]

theorem resolve_name (followLast : Bool) (links : Nat) {here : Location} {access : Access}
    (hnode : fs.node? here = some (.directory access)) (n : Name) :
    fs.resolve followLast links here [n.text] =
      if !access.searchable then .error .denied
      else
        match fs.node? (here ++ [n]) with
        | none => .error .notFound
        | some (.link target) =>
          if ¬ followLast then .ok (here ++ [n])
          else
            fs.onward followLast links (if Path.isAbsolute target then [] else here)
              (Path.components target)
        | some _ => .ok (here ++ [n]) := by
  rw [resolve_name_cons followLast links hnode]
  simp only [List.append_nil, true_and, resolve_nil]

/-- What a component does at a location, whatever is behind it: it goes somewhere, it stops, or it
names a link. -/
inductive Turn (fs : FileSystem) (here : Location) (c : String) : Prop
  | goes (there : Location)
      (behind : ∀ f links ys, fs.resolve f links here (c :: ys) = fs.resolve f links there ys)
  | stops (fault : Fault) (noLoop : fault ≠ .linkLoop)
      (closed : fault = .denied →
        ∃ access, fs.node? here = some (.directory access) ∧ access.searchable = false)
      (behind : ∀ f links ys, fs.resolve f links here (c :: ys) = .error fault)
  | link (n : Name) (target : String) (proper : c ≠ "" ∧ c ≠ "." ∧ c ≠ "..")
      (node : fs.node? (here ++ [n]) = some (.link target))
      (behind : ∀ f links ys, fs.resolve f links here (c :: ys) =
        if ys = [] ∧ ¬ f then .ok (here ++ [n])
        else fs.onward f links (if Path.isAbsolute target then [] else here)
          (Path.components target ++ ys))

theorem turn (fs : FileSystem) (here : Location) (c : String) : fs.Turn here c := by
  have hcons : ∀ f links ys, fs.resolve f links here (c :: ys) = _ := fun f links ys =>
    resolve_cons f links here c ys
  by_cases hnode : ∃ access, fs.node? here = some (.directory access)
  swap
  · refine .stops .notDirectory (by decide) (by simp) fun f links ys => ?_
    rw [hcons]
    split
    · exact absurd ⟨_, ‹_›⟩ hnode
    · rfl
  obtain ⟨access, hnode⟩ := hnode
  simp only [hnode] at hcons
  by_cases hempty : c = ""
  · exact .goes here fun f links ys => by rw [hcons, if_pos hempty]
  by_cases hclosed : (!access.searchable) = true
  · exact .stops .denied (by decide) (fun _ => ⟨access, hnode, by simpa using hclosed⟩)
      fun f links ys => by rw [hcons, if_neg hempty, if_pos hclosed]
  by_cases hdot : c = "."
  · exact .goes here fun f links ys => by
      rw [hcons, if_neg hempty, if_neg hclosed, if_pos hdot]
  by_cases hup : c = ".."
  · exact .goes here.dropLast fun f links ys => by
      rw [hcons, if_neg hempty, if_neg hclosed, if_neg hdot, if_pos hup]
  simp only [if_neg hempty, if_neg hclosed, if_neg hdot, if_neg hup] at hcons
  cases hname : Name.ofText? c with
  | none =>
    simp only [hname] at hcons
    exact .stops .notFound (by decide) (by simp) hcons
  | some n =>
    simp only [hname] at hcons
    cases hchild : fs.node? (here ++ [n]) with
    | none =>
      simp only [hchild] at hcons
      exact .stops .notFound (by decide) (by simp) hcons
    | some child =>
      simp only [hchild] at hcons
      cases child with
      | directory a => exact .goes (here ++ [n]) hcons
      | file readable content => exact .goes (here ++ [n]) hcons
      | link target => exact .link n target ⟨hempty, hdot, hup⟩ hchild hcons

/-- Where components lead, and with how many links left: whatever is behind them is resolved from
there. Or else they lead nowhere, whatever is behind them. Only a link at the very end need not be
followed. -/
inductive Prefix (fs : FileSystem) (links : Nat) (here : Location) (xs : List String) : Prop
  | leads (loc : Location) (left : Nat)
      (behind : ∀ f ys, f = true ∨ ys ≠ [] →
        fs.resolve f links here (xs ++ ys) = fs.resolve f left loc ys)
  | stops (fault : Fault)
      (behind : ∀ f ys, f = true ∨ ys ≠ [] → fs.resolve f links here (xs ++ ys) = .error fault)

theorem Prefix.step {links links' : Nat} {here here' : Location} {xs xs' : List String}
    (h : fs.Prefix links' here' xs')
    (heq : ∀ f ys, f = true ∨ ys ≠ [] →
      fs.resolve f links here (xs ++ ys) = fs.resolve f links' here' (xs' ++ ys)) :
    fs.Prefix links here xs := by
  cases h with
  | leads loc left behind =>
    exact .leads loc left fun f ys hne => (heq f ys hne).trans (behind f ys hne)
  | stops e behind => exact .stops e fun f ys hne => (heq f ys hne).trans (behind f ys hne)

theorem prefix_cons {links : Nat} {here : Location} {c : String} {rest : List String}
    (hlink : ∀ start xs, (∀ f ys, fs.onward f links start (xs ++ ys) = .error .linkLoop) ∨
      ∃ links', (∀ f, fs.onward f links = fs.resolve f links') ∧ fs.Prefix links' start xs)
    (ih : ∀ here, fs.Prefix links here rest) : fs.Prefix links here (c :: rest) := by
  cases fs.turn here c with
  | goes there behind => exact (ih there).step fun f ys _ => behind f links (rest ++ ys)
  | stops fault noLoop closed behind =>
    exact .stops fault fun f ys _ => behind f links (rest ++ ys)
  | link n target proper node behind =>
    -- The link is not the last component, or a last link is followed.
    have hfollowed : ∀ f ys, f = true ∨ ys ≠ [] →
        fs.resolve f links here (c :: rest ++ ys) =
          fs.onward f links (if Path.isAbsolute target then [] else here)
            (Path.components target ++ rest ++ ys) := by
      intro f ys hne
      have hgoes : ¬ (rest ++ ys = [] ∧ ¬ f = true) := by
        rintro ⟨hnil, hf⟩
        rcases hne with h | h
        · exact hf h
        · exact h (List.append_eq_nil_iff.mp hnil).2
      rw [List.cons_append, behind, if_neg hgoes, List.append_assoc]
    rcases hlink (if Path.isAbsolute target then [] else here)
      (Path.components target ++ rest) with hloop | ⟨links', honward, hprefix⟩
    · exact .stops .linkLoop fun f ys hne => (hfollowed f ys hne).trans (hloop f ys)
    · exact hprefix.step fun f ys hne => by rw [hfollowed f ys hne, honward]

/-- A path may be resolved in two parts. -/
theorem prefix_resolve (links : Nat) (here : Location) (xs : List String) :
    fs.Prefix links here xs := by
  -- Behind a link there can be more components than before it, but one link less is left.
  induction links generalizing here xs with
  | zero =>
    induction xs generalizing here with
    | nil => exact .leads here 0 fun _ _ _ => rfl
    | cons c rest ih => exact prefix_cons (fun _ _ => .inl fun _ _ => rfl) ih
  | succ links ihl =>
    induction xs generalizing here with
    | nil => exact .leads here (links + 1) fun _ _ _ => rfl
    | cons c rest ih =>
      exact prefix_cons (fun start xs => .inr ⟨links, fun _ => rfl, ihl start xs⟩) ih

theorem resolve_behind {links : Nat} {here loc : Location} {xs : List String}
    (h : fs.resolve true links here xs = .ok loc) :
    ∃ left, ∀ f ys, f = true ∨ ys ≠ [] →
      fs.resolve f links here (xs ++ ys) = fs.resolve f left loc ys := by
  cases fs.prefix_resolve links here xs with
  | leads loc' left behind =>
    have hloc := behind true [] (.inl rfl)
    rw [List.append_nil, h, resolve_nil] at hloc
    cases hloc
    exact ⟨left, behind⟩
  | stops e behind =>
    have hstop := behind true [] (.inl rfl)
    rw [List.append_nil, h] at hstop
    cases hstop

end FileSystem

/-! ## Paths behind a directory -/

namespace Path

theorem slash_not_mem_of_mem_splitOn {cs part : List Char} (h : part ∈ cs.splitOn '/') : '/' ∉ part := by
  induction cs generalizing part with
  | nil =>
    rw [List.splitOn_nil, List.mem_singleton] at h
    simp [h]
  | cons c cs ih =>
    rw [List.splitOn_cons_eq_if_modifyHead] at h
    obtain ⟨first, rest, hsplit⟩ := List.exists_cons_of_ne_nil (List.splitOn_ne_nil '/' cs)
    rw [hsplit] at h ih
    by_cases hc : c = '/'
    · rw [if_pos (by simpa using hc)] at h
      rcases List.mem_cons.mp h with rfl | h
      · simp
      · exact ih h
    · rw [if_neg (by simpa using hc), List.modifyHead_cons] at h
      rcases List.mem_cons.mp h with rfl | h
      · rw [List.mem_cons, not_or]
        exact ⟨Ne.symm hc, ih List.mem_cons_self⟩
      · exact ih (List.mem_cons_of_mem _ h)

theorem mem_of_mem_splitOnP {p : Char → Bool} {d : Char} {ds part : List Char}
    (hpart : part ∈ ds.splitOnP p) (hd : d ∈ part) : d ∈ ds := by
  induction ds generalizing part with
  | nil =>
    rw [List.splitOnP_nil, List.mem_singleton] at hpart
    rwa [hpart] at hd
  | cons e ds ih =>
    rw [List.splitOnP_cons_eq_if_modifyHead] at hpart
    obtain ⟨first, rest, hsplit⟩ := List.exists_cons_of_ne_nil (List.splitOnP_ne_nil p ds)
    rw [hsplit] at hpart ih
    by_cases he : p e = true
    · rw [if_pos he] at hpart
      rcases List.mem_cons.mp hpart with rfl | hpart
      · cases hd
      · exact List.mem_cons_of_mem _ (ih hpart hd)
    · rw [if_neg he, List.modifyHead_cons] at hpart
      rcases List.mem_cons.mp hpart with rfl | hpart
      · rcases List.mem_cons.mp hd with rfl | hd
        · exact List.mem_cons_self
        · exact List.mem_cons_of_mem _ (ih List.mem_cons_self hd)
      · exact List.mem_cons_of_mem _ (ih (List.mem_cons_of_mem _ hpart) hd)

theorem mem_of_mem_splitOn {sep d : Char} {ds part : List Char} (hpart : part ∈ ds.splitOn sep)
    (hd : d ∈ part) : d ∈ ds := by
  rw [List.splitOn_eq_splitOnP] at hpart
  exact mem_of_mem_splitOnP hpart hd

theorem slash_not_mem_of_mem_components {p c : String} (hc : c ∈ components p) :
    '/' ∉ c.toList := by
  obtain ⟨part, hpart, rfl⟩ := List.mem_map.mp hc
  rw [String.toList_ofList]
  exact slash_not_mem_of_mem_splitOn hpart

theorem components_append (p q : String) :
    components (p ++ "/" ++ q) = components p ++ components q := by
  simp [components, List.splitOn_append_cons_self]

theorem components_ne_nil (p : String) : components p ≠ [] := by
  simp [components, List.splitOn_ne_nil]

theorem components_empty : components "" = [""] := by simp [components]

theorem components_of_slashless {c : String} (h : '/' ∉ c.toList) : components c = [c] := by
  simp [components, List.splitOn_eq_singleton h]

theorem components_name (n : Name) : components n.text = [n.text] :=
  components_of_slashless n.slash_not_mem

theorem isAbsolute_append {p : String} (hp : p ≠ "") (q : String) :
    isAbsolute (p ++ q) = isAbsolute p := by
  have hne : p.toList ≠ [] := by simpa using hp
  obtain ⟨c, cs, hcs⟩ := List.exists_cons_of_ne_nil hne
  simp [isAbsolute, hcs]

/-- A name is put behind a directory with one slash between them. -/
theorem child_cases (dir : String) :
    (∀ name, child dir name = dir ++ "/" ++ name) ∨
      ∃ d, dir = d ++ "/" ∧ ∀ name, child dir name = d ++ "/" ++ name := by
  by_cases h : endsWithSlash dir = true
  · right
    have hlast : dir.toList.getLast? = some '/' := by simpa [endsWithSlash] using h
    obtain ⟨cs, hcs⟩ := List.getLast?_eq_some_iff.mp hlast
    have hdir : dir = String.ofList cs ++ "/" := by
      apply String.toList_inj.mp
      simp [hcs]
    refine ⟨String.ofList cs, hdir, fun name => ?_⟩
    rw [child, if_pos h, ← hdir]
  · left
    intro name
    rw [child, if_neg h]

end Path

namespace Host

variable {h : Host} {dir : String} {loc : Location}

theorem ne_empty_of_locate {f : Bool} (hdir : h.locate f dir = .ok loc) : dir ≠ "" := by
  rintro rfl
  simp [locate] at hdir

/-- What is behind the path of a directory is resolved from the directory. -/
theorem locate_child (hdir : h.locate true dir = .ok loc) :
    ∃ left, ∀ f name, h.locate f (Path.child dir name) =
      h.files.resolve f left loc (Path.components name) := by
  have hne := ne_empty_of_locate hdir
  have hloc : h.files.resolve true maxLinks (h.startOf dir) (Path.components dir) = .ok loc := by
    simpa [locate, hne] using hdir
  rcases Path.child_cases dir with hchild | ⟨d, rfl, hchild⟩
  · obtain ⟨left, hleft⟩ := FileSystem.resolve_behind hloc
    refine ⟨left, fun f name => ?_⟩
    rw [← hleft f _ (.inr (Path.components_ne_nil name)), hchild, locate, if_neg (by simp),
      Path.components_append, startOf, String.append_assoc, Path.isAbsolute_append hne, startOf]
  · have hd : Path.components (d ++ "/") = Path.components d ++ [""] := by
      rw [← Path.components_empty, ← Path.components_append, String.append_empty]
    rw [hd] at hloc
    cases h.files.prefix_resolve maxLinks (h.startOf (d ++ "/")) (Path.components d) with
    | stops e behind =>
      rw [behind true [""] (.inr (by simp))] at hloc
      cases hloc
    | leads there left behind =>
      rw [behind true [""] (.inr (by simp))] at hloc
      obtain rfl := FileSystem.eq_of_resolve_slash hloc
      refine ⟨left, fun f name => ?_⟩
      rw [← behind f _ (.inr (Path.components_ne_nil name)), hchild, locate, if_neg (by simp),
        Path.components_append, startOf, Path.isAbsolute_append hne, startOf]

/-- The path of a name in a directory leads to the node of that name, or nowhere if no name may be
looked up there; a link may be followed. -/
theorem locate_child_name {access : Access} (hdir : h.locate true dir = .ok loc)
    (hnode : h.files.node? loc = some (.directory access)) {n : Name} {node : Node}
    (hn : h.files.node? (loc ++ [n]) = some node) {f : Bool}
    (hf : f = false ∨ ∀ target, node ≠ .link target) :
    h.locate f (Path.child dir n.text) =
      if access.searchable then .ok (loc ++ [n]) else .error .denied := by
  obtain ⟨left, hleft⟩ := locate_child hdir
  rw [hleft, Path.components_name, FileSystem.resolve_name f left hnode, hn]
  cases access.searchable with
  | false => rfl
  | true =>
    cases node with
    | directory a => rfl
    | file readable content => rfl
    | link target =>
      rcases hf with rfl | hlink
      · rfl
      · exact absurd rfl (hlink target)

/-! ## Listings -/

theorem status_eq_ok {f : Bool} {path : String} {s : Status} :
    h.status f path = .ok s ↔ ∃ loc node, h.locate f path = .ok loc ∧
      h.files.node? loc = some node ∧ s = ⟨node.kind, loc, h.files.stampAt loc⟩ := by
  unfold status
  cases hl : h.locate f path with
  | error e => simp [bind, Except.bind]
  | ok loc =>
    cases hn : h.files.node? loc <;> simp [bind, Except.bind, hn, eq_comm, pure, Except.pure]

theorem list_eq_ok {path : String} {es : List Entry} :
    h.list path = .ok es ↔ ∃ loc access, h.locate true path = .ok loc ∧
      h.files.node? loc = some (.directory access) ∧ access.readable = true ∧
      es = (h.files.children loc).map fun x => h.entry path x.1 x.2 := by
  unfold list
  cases hl : h.locate true path with
  | error e => simp [bind, Except.bind]
  | ok loc =>
    cases hn : h.files.node? loc with
    | none => simp [bind, Except.bind, hn]
    | some node =>
      cases node with
      | file => simp [bind, Except.bind, hn]
      | link => simp [bind, Except.bind, hn]
      | directory access =>
        cases hr : access.readable with
        | false => simp [bind, Except.bind, hn, hr]
        | true =>
          simp only [bind, Except.bind, hn, hr, if_true, pure, Except.pure]
          constructor
          · rintro ⟨⟩
            exact ⟨loc, access, rfl, hn, hr, rfl⟩
          · rintro ⟨_, _, ⟨⟩, _, _, rfl⟩
            rfl

/-- Of two paths to one place, both can be listed or none. -/
theorem exists_list_congr {p q : String} (hloc : h.locate true p = h.locate true q)
    (hq : ∃ es, h.list q = .ok es) : ∃ es, h.list p = .ok es := by
  obtain ⟨es, hes⟩ := hq
  obtain ⟨loc, access, hat, hnode, hread, -⟩ := list_eq_ok.mp hes
  exact ⟨_, list_eq_ok.mpr ⟨loc, access, hloc.trans hat, hnode, hread, rfl⟩⟩

theorem entry_name (path : String) (n : Name) (node : Node) : (h.entry path n node).name = n := by
  unfold entry
  split
  · rfl
  · rfl
  · split <;> rfl

theorem directory_of_entry {path : String} {n : Name} {node : Node}
    (hdir : (h.entry path n node).isDir = true) (hlink : (h.entry path n node).isLink = false) :
    ∃ access, node = .directory access := by
  cases node with
  | directory access => exact ⟨access, rfl⟩
  | file => cases hdir
  | link target =>
    cases hs : h.status true (Path.child path n.text) with
    | ok s => simp [entry, hs] at hlink
    | error e => cases e <;> simp [entry, hs] at hdir

end Host

end PathGlob
