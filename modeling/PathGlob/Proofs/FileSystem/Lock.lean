import PathGlob.Proofs.FileSystem.Answers

/-!
# Directories that may no longer be listed

A file system in which listing is forbidden for some more directories. Paths lead where they led
before, and a directory is listed as before or not at all.
-/
namespace PathGlob

/-- The node; if it is a directory that is locked, it may not be listed. -/
def Node.lock (locked : Bool) : Node → Node
  | .directory access => .directory { access with readable := access.readable && !locked }
  | .file readable content => .file readable content
  | .link target => .link target

namespace FileSystem

def lock (fs : FileSystem) (locked : Location → Bool) : FileSystem :=
  { fs.mapItems fun i => (i.node.lock (locked i.location), i.stamp) with
    root := { fs.root with readable := fs.root.readable && !locked [] } }

variable {fs : FileSystem} {locked : Location → Bool}

theorem item?_lock (loc : Location) : (fs.lock locked).item? loc =
    (fs.item? loc).map fun i => { i with node := i.node.lock (locked loc) } := by
  apply Option.ext
  intro i
  simp only [item?_eq_some, Option.map_eq_some_iff]
  constructor
  · rintro ⟨hi, rfl⟩
    obtain ⟨j, hj, rfl⟩ := List.mem_map.mp hi
    exact ⟨j, ⟨hj, rfl⟩, rfl⟩
  · rintro ⟨j, ⟨hj, rfl⟩, rfl⟩
    exact ⟨List.mem_map.mpr ⟨j, hj, rfl⟩, rfl⟩

theorem node?_lock (loc : Location) :
    (fs.lock locked).node? loc = (fs.node? loc).map (Node.lock (locked loc)) := by
  rw [node?, node?, item?_lock]
  by_cases hloc : loc = []
  · subst hloc
    rfl
  · simp only [hloc, if_false, Option.map_map]
    rfl

theorem stampAt_lock (loc : Location) : (fs.lock locked).stampAt loc = fs.stampAt loc := by
  rw [stampAt, stampAt, item?_lock, Option.map_map]
  rfl

theorem resolveWith_lock (followLast : Bool)
    (onLink : Location → List String → Except Fault Location) (here : Location)
    (xs : List String) : (fs.lock locked).resolveWith followLast onLink here xs =
      fs.resolveWith followLast onLink here xs := by
  induction xs generalizing here with
  | nil => rw [resolveWith, resolveWith]
  | cons c rest ih =>
    rw [resolveWith.eq_2, resolveWith.eq_2, node?_lock]
    simp only [ih]
    rcases fs.node? here with _ | (access | _ | _)
    · rfl
    · simp only [Option.map_some, Node.lock]
      cases Name.ofText? c with
      | none => rfl
      | some n =>
        simp only [node?_lock]
        rcases fs.node? (here ++ [n]) with _ | (_ | _ | _) <;> rfl
    · rfl
    · rfl

theorem resolve_lock (followLast : Bool) (links : Nat) :
    (fs.lock locked).resolve followLast links = fs.resolve followLast links := by
  induction links with
  | zero =>
    funext here xs
    exact resolveWith_lock followLast _ here xs
  | succ links ih =>
    funext here xs
    rw [resolve, resolve, ih]
    exact resolveWith_lock followLast _ here xs

theorem children_lock (dir : Location) : (fs.lock locked).children dir =
    (fs.children dir).map fun x => (x.1, x.2.lock (locked (dir ++ [x.1]))) := by
  simp only [children, lock, mapItems, List.filterMap_map, List.map_filterMap]
  refine List.filterMap_congr fun i _ => ?_
  simp only [Function.comp_apply, Option.map_map]
  refine Option.map_congr fun n hn => ?_
  rw [Function.comp_apply, childOf?_eq_some.mp hn]

end FileSystem

namespace Host

def lock (h : Host) (locked : Location → Bool) : Host := { h with files := h.files.lock locked }

variable {h : Host} {locked : Location → Bool} {path : String}

theorem locate_lock (followLast : Bool) (path : String) :
    (h.lock locked).locate followLast path = h.locate followLast path := by
  rw [locate, locate]
  simp only [lock, FileSystem.resolve_lock]
  rfl

theorem status_lock (followLast : Bool) (path : String) :
    (h.lock locked).status followLast path = h.status followLast path := by
  rw [status, status, locate_lock]
  simp only [lock, FileSystem.node?_lock, FileSystem.stampAt_lock]
  cases h.locate followLast path with
  | error f => rfl
  | ok loc =>
    rcases hnode : h.files.node? loc with _ | (_ | _ | _) <;>
      simp [bind, Except.bind, hnode, Node.lock, Node.kind]

theorem entry_lock (dir : String) (n : Name) (node : Node) (b : Bool) :
    (h.lock locked).entry dir n (node.lock b) = h.entry dir n node := by
  cases node with
  | directory access => rfl
  | file readable content => rfl
  | link target => simp only [entry, Node.lock, status_lock]

/-- A directory is listed as before, or listing it is now forbidden. -/
theorem list_lock (h : Host) (locked : Location → Bool) (path : String) :
    (h.lock locked).list path = h.list path ∨ (h.lock locked).list path = .error .denied := by
  unfold list
  rw [locate_lock]
  cases h.locate true path with
  | error f => exact .inl rfl
  | ok loc =>
    have hnode : (h.lock locked).files.node? loc =
        (h.files.node? loc).map (Node.lock (locked loc)) := FileSystem.node?_lock loc
    have hchildren : (h.lock locked).files.children loc = _ := FileSystem.children_lock loc
    simp only [bind, Except.bind, hnode]
    rcases h.files.node? loc with _ | (access | _ | _)
    · exact .inl rfl
    · simp only [Option.map_some, Node.lock]
      cases hread : access.readable && !locked loc with
      | false => exact .inr rfl
      | true =>
        obtain ⟨hread, -⟩ := Bool.and_eq_true_iff.mp hread
        left
        simp only [hread, if_true, hchildren, List.map_map]
        refine congrArg _ (List.map_congr_left fun x _ => ?_)
        exact entry_lock path x.1 x.2 _
    · exact .inl rfl
    · exact .inl rfl

theorem sameStatus_lock (h : Host) (locked : Location → Bool) :
    Oracle.SameStatus h.answer (h.lock locked).answer where
  stat p := by simp only [answer, status_lock]
  lstat p := by simp only [answer, status_lock]

theorem mem_entries_of_lock {e : Entry} (he : e ∈ Oracle.entries (h.lock locked).answer path) :
    e ∈ Oracle.entries h.answer path := by
  cases hnull : hasNull path with
  | true => simp [entries_of_hasNull hnull] at he
  | false =>
    rw [entries_answer hnull] at he ⊢
    rcases h.list_lock locked path with hsame | hdenied
    · rwa [hsame] at he
    · simp [hdenied, Except.toOption] at he

end Host

end PathGlob
