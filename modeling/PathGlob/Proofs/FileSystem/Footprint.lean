import PathGlob.FileSystem.Content
import PathGlob.Proofs.FileSystem.Locate

/-!
# Where a lookup looks

A path is resolved by the nodes at some locations alone. File systems with the same nodes there lead
it to the same place, whatever they hold elsewhere.
-/
namespace PathGlob

namespace FileSystem

variable {fs fs' : FileSystem} {links : Nat} {here loc : Location} {c : String} {cs : List String}

/-- The locations at which `resolveWith` looks before it follows a link, and those at which it looks
then. The last link is followed. -/
def footprintWith (fs : FileSystem) (onLink : Location → List String → List Location) :
    Location → List String → List Location
  | here, [] => [here]
  | here, c :: rest =>
    here ::
      match fs.node? here with
      | some (.directory access) =>
        if c = "" then footprintWith fs onLink here rest
        else if !access.searchable then []
        else if c = "." then footprintWith fs onLink here rest
        else if c = ".." then footprintWith fs onLink here.dropLast rest
        else
          match Name.ofText? c with
          | none => []
          | some n =>
            (here ++ [n]) ::
              match fs.node? (here ++ [n]) with
              | none => []
              | some (.link target) =>
                onLink (if Path.isAbsolute target then [] else here) (Path.components target ++ rest)
              | some _ => footprintWith fs onLink (here ++ [n]) rest
      | _ => []

def footprint (fs : FileSystem) : (links : Nat) → Location → List String → List Location
  | 0 => footprintWith fs fun _ _ => []
  | links + 1 => footprintWith fs (footprint fs links)

def footprintOnward (fs : FileSystem) : (links : Nat) → Location → List String → List Location
  | 0 => fun _ _ => []
  | links + 1 => fs.footprint links

theorem footprint_eq (fs : FileSystem) (links : Nat) :
    fs.footprint links = fs.footprintWith (fs.footprintOnward links) := by
  cases links <;> rfl

theorem footprint_nil : fs.footprint links here [] = [here] := by
  rw [footprint_eq, footprintWith]

theorem footprint_cons (fs : FileSystem) (links : Nat) (here : Location) (c : String)
    (rest : List String) :
    fs.footprint links here (c :: rest) = here ::
      match fs.node? here with
      | some (.directory access) =>
        if c = "" then fs.footprint links here rest
        else if !access.searchable then []
        else if c = "." then fs.footprint links here rest
        else if c = ".." then fs.footprint links here.dropLast rest
        else
          match Name.ofText? c with
          | none => []
          | some n =>
            (here ++ [n]) ::
              match fs.node? (here ++ [n]) with
              | none => []
              | some (.link target) =>
                fs.footprintOnward links (if Path.isAbsolute target then [] else here)
                  (Path.components target ++ rest)
              | some _ => fs.footprint links (here ++ [n]) rest
      | _ => [] := by
  simp only [footprint_eq]
  exact footprintWith.eq_2 fs _ here c rest

def SameAt (fs fs' : FileSystem) (locs : List Location) : Prop :=
  ∀ loc ∈ locs, fs'.node? loc = fs.node? loc

instance (fs fs' : FileSystem) (locs : List Location) : Decidable (fs.SameAt fs' locs) :=
  inferInstanceAs (Decidable (∀ loc ∈ locs, _))

theorem sameAt_cons {locs : List Location} :
    fs.SameAt fs' (loc :: locs) ↔ fs'.node? loc = fs.node? loc ∧ fs.SameAt fs' locs :=
  List.forall_mem_cons

/-- Components lead to the same place in both file systems, or fail alike, and the same node is at
that place. -/
def Alike (fs fs' : FileSystem) (links : Nat) (here : Location) (cs : List String) : Prop :=
  fs'.resolve true links here cs = fs.resolve true links here cs ∧
    ∀ loc, fs.resolve true links here cs = .ok loc → fs'.node? loc = fs.node? loc

theorem alike_nil (hsame : fs.SameAt fs' (fs.footprint links here [])) :
    fs.Alike fs' links here [] := by
  rw [footprint_nil, sameAt_cons] at hsame
  refine ⟨by rw [resolve_nil, resolve_nil], fun loc hloc => ?_⟩
  rw [resolve_nil] at hloc
  cases hloc
  exact hsame.1

theorem alike_cons {rest : List String}
    (hsame : fs.SameAt fs' (fs.footprint links here (c :: rest)))
    (honward : ∀ start xs, fs.SameAt fs' (fs.footprintOnward links start xs) →
      fs'.onward true links start xs = fs.onward true links start xs ∧
        ∀ loc, fs.onward true links start xs = .ok loc → fs'.node? loc = fs.node? loc)
    (ih : ∀ there, fs.SameAt fs' (fs.footprint links there rest) → fs.Alike fs' links there rest) :
    fs.Alike fs' links here (c :: rest) := by
  have hfails : ∀ e : Fault, (Except.error e : Except Fault Location) = .error e ∧
      ∀ loc, (Except.error e : Except Fault Location) = .ok loc → fs'.node? loc = fs.node? loc :=
    fun e => ⟨rfl, fun loc hloc => by cases hloc⟩
  rw [footprint_cons, sameAt_cons] at hsame
  obtain ⟨hhere, hsame⟩ := hsame
  simp only [Alike, resolve_cons, hhere]
  cases hnode : fs.node? here with
  | none => exact hfails _
  | some node =>
    cases node with
    | file readable content => exact hfails _
    | link target => exact hfails _
    | directory access =>
      simp only [hnode] at hsame ⊢
      by_cases hempty : c = ""
      · simp only [if_pos hempty] at hsame ⊢
        exact ih _ hsame
      by_cases hclosed : (!access.searchable) = true
      · simp only [if_neg hempty, if_pos hclosed]
        exact ⟨trivial, fun loc hloc => by cases hloc⟩
      by_cases hdot : c = "."
      · simp only [if_neg hempty, if_neg hclosed, if_pos hdot] at hsame ⊢
        exact ih _ hsame
      by_cases hup : c = ".."
      · simp only [if_neg hempty, if_neg hclosed, if_neg hdot, if_pos hup] at hsame ⊢
        exact ih _ hsame
      simp only [if_neg hempty, if_neg hclosed, if_neg hdot, if_neg hup] at hsame ⊢
      cases hname : Name.ofText? c with
      | none => exact hfails _
      | some n =>
        simp only [hname, sameAt_cons] at hsame ⊢
        obtain ⟨hchild, hsame⟩ := hsame
        rw [hchild]
        cases hthere : fs.node? (here ++ [n]) with
        | none => exact hfails _
        | some child =>
          simp only [hthere] at hsame
          cases child with
          | directory access => exact ih _ hsame
          | file readable content => exact ih _ hsame
          | link target =>
            simp only [not_true_eq_false, and_false, if_false]
            exact honward _ _ hsame

/-- What is elsewhere has no part in where components lead. -/
theorem alike_of_sameAt (hsame : fs.SameAt fs' (fs.footprint links here cs)) :
    fs.Alike fs' links here cs := by
  induction links generalizing here cs with
  | zero =>
    induction cs generalizing here with
    | nil => exact alike_nil hsame
    | cons c rest ih =>
      exact alike_cons hsame (fun _ _ _ => ⟨rfl, fun loc hloc => by cases hloc⟩) fun _ => ih
  | succ links ihl =>
    induction cs generalizing here with
    | nil => exact alike_nil hsame
    | cons c rest ih => exact alike_cons hsame (fun _ _ => ihl) fun _ => ih

/-! ## Ways without links -/

theorem here_mem_footprint : here ∈ fs.footprint links here cs := by
  cases cs with
  | nil => simp [footprint_nil]
  | cons c cs => simp [footprint_cons]

/-- Behind a name that is no link, a resolution goes on at its entry. -/
theorem mem_footprint_name {access : Access} {n : Name} {node : Node} {rest : List String}
    (hnode : fs.node? here = some (.directory access)) (hopen : access.searchable = true)
    (hentry : fs.node? (here ++ [n]) = some node) (hlink : ∀ target, node ≠ .link target) :
    loc ∈ fs.footprint links here (n.text :: rest) ↔
      loc = here ∨ loc ∈ fs.footprint links (here ++ [n]) rest := by
  obtain ⟨hempty, hdot, hup⟩ := n.text_proper
  have hfootprint : fs.footprint links here (n.text :: rest) =
      here :: (here ++ [n]) :: fs.footprint links (here ++ [n]) rest := by
    rw [footprint_cons]
    cases node with
    | link target => exact absurd rfl (hlink target)
    | _ => simp only [hnode, hempty, hopen, hdot, hup, n.ofText?_text, hentry, Bool.not_true,
        Bool.false_eq_true, if_false]
  have habsorb : loc = here ++ [n] → loc ∈ fs.footprint links (here ++ [n]) rest := by
    rintro rfl
    exact here_mem_footprint
  rw [hfootprint, List.mem_cons, List.mem_cons, or_iff_right_of_imp habsorb]

/-- The last name is looked up in its directory and at its entry alone, if no link is there. -/
theorem mem_footprint_last {access : Access} {n : Name}
    (hnode : fs.node? here = some (.directory access)) (hopen : access.searchable = true)
    (hlink : ∀ target, fs.node? (here ++ [n]) ≠ some (.link target)) :
    loc ∈ fs.footprint links here [n.text] ↔ loc = here ∨ loc = here ++ [n] := by
  cases hentry : fs.node? (here ++ [n]) with
  | some node =>
    rw [mem_footprint_name hnode hopen hentry fun target heq => hlink target (heq ▸ hentry),
      footprint_nil, List.mem_singleton]
  | none =>
    obtain ⟨hempty, hdot, hup⟩ := n.text_proper
    rw [footprint_cons]
    simp only [hnode, hempty, hopen, hdot, hup, n.ofText?_text, hentry, Bool.not_true,
      Bool.false_eq_true, if_false, List.mem_cons, List.not_mem_nil, or_false]

/-- On the way to a directory by the directories above it, these are looked at. -/
theorem mem_footprint_down (hsearch : fs.Searchable) {dir : Location}
    (hdirs : ∀ d, d <+: dir → ∃ access, fs.node? d = some (.directory access)) :
    loc ∈ fs.footprint links [] (dir.map Name.text ++ cs) ↔
      loc <+: dir ∨ loc ∈ fs.footprint links dir cs := by
  induction dir using List.reverseRecOn generalizing cs with
  | nil =>
    rw [List.prefix_nil, or_iff_right_of_imp]
    · rfl
    · rintro rfl
      exact here_mem_footprint
  | append_singleton dir n ih =>
    obtain ⟨access, hnode⟩ := hdirs dir (List.prefix_append _ _)
    obtain ⟨access', hentry⟩ := hdirs (dir ++ [n]) (List.prefix_refl _)
    have hself : loc = dir → loc <+: dir := fun heq => heq ▸ List.prefix_refl _
    have hlast : loc = dir ++ [n] → loc ∈ fs.footprint links (dir ++ [n]) cs := by
      rintro rfl
      exact here_mem_footprint
    rw [List.map_append, List.append_assoc, ih fun d hd => hdirs d (hd.trans (List.prefix_append _ _)),
      List.map_singleton, List.singleton_append,
      mem_footprint_name hnode (hsearch dir access hnode) hentry (by simp), List.prefix_concat_iff]
    tauto

end FileSystem

namespace Host

variable {h h' : Host} {path : String}

def footprint (h : Host) (path : String) : List Location :=
  if path = "" then [] else h.files.footprint maxLinks (h.startOf path) (Path.components path)

/-- Another host has the same nodes where this one looks for an absolute path. -/
def SameFor (h h' : Host) (path : String) : Prop := h.files.SameAt h'.files (h.footprint path)

instance (h h' : Host) (path : String) : Decidable (h.SameFor h' path) :=
  inferInstanceAs (Decidable (h.files.SameAt h'.files (h.footprint path)))

/-- A path of names, without links on the way and at its end, is looked for at what it begins with. -/
theorem mem_footprint_iff (hsearch : h.files.Searchable) {dir loc : Location} {n : Name}
    (habs : Path.isAbsolute path = true)
    (hcs : Path.components path = "" :: (dir ++ [n]).map Name.text)
    (hdirs : ∀ d, d <+: dir → ∃ access, h.files.node? d = some (.directory access))
    (hlink : ∀ target, h.files.node? (dir ++ [n]) ≠ some (.link target)) :
    loc ∈ h.footprint path ↔ loc <+: dir ++ [n] := by
  have hne : path ≠ "" := by
    rintro rfl
    cases habs
  obtain ⟨access, hnode⟩ := hdirs dir (List.prefix_refl _)
  have hroot : h.footprint path = [] ::
      h.files.footprint maxLinks [] (dir.map Name.text ++ [n.text]) := by
    rw [footprint, if_neg hne, startOf, if_pos habs, hcs, FileSystem.footprint_cons,
      List.map_append]
    simp [FileSystem.node?]
  have hself : loc = dir → loc <+: dir := fun heq => heq ▸ List.prefix_refl _
  have hnil : loc = [] → loc <+: dir := fun heq => heq ▸ List.nil_prefix
  rw [hroot, List.mem_cons, FileSystem.mem_footprint_down hsearch hdirs,
    FileSystem.mem_footprint_last hnode (hsearch dir access hnode) hlink, List.prefix_concat_iff]
  tauto

variable (habs : Path.isAbsolute path = true) (hsame : h.SameFor h' path)
include habs hsame

theorem locate_congr : h'.locate true path = h.locate true path ∧
    ∀ loc, h.locate true path = .ok loc → h'.files.node? loc = h.files.node? loc := by
  have hne : path ≠ "" := by
    rintro rfl
    cases habs
  simp only [SameFor, footprint, if_neg hne, startOf, if_pos habs] at hsame
  simpa only [locate, if_neg hne, startOf, if_pos habs, FileSystem.Alike] using
    FileSystem.alike_of_sameAt hsame

theorem read_congr : h'.read path = h.read path := by
  obtain ⟨hloc, hnode⟩ := locate_congr habs hsame
  unfold read
  rw [hloc]
  cases hto : h.locate true path with
  | error e => rfl
  | ok loc => simp only [bind, Except.bind, hnode loc hto]

theorem readText_congr : h'.readText path = h.readText path := by
  rw [readText, readText, read_congr habs hsame]

theorem status_congr :
    (h'.status true path).map Status.kind = (h.status true path).map Status.kind := by
  obtain ⟨hloc, hnode⟩ := locate_congr habs hsame
  unfold status
  rw [hloc]
  cases hto : h.locate true path with
  | error e => rfl
  | ok loc =>
    simp only [bind, Except.bind, hnode loc hto]
    cases h.files.node? loc <;> rfl

end Host

end PathGlob
