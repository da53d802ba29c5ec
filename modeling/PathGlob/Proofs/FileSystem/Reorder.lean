import PathGlob.Proofs.FileSystem.Answers

/-!
# The order of listings

Two file systems with the same nodes that came to be in different orders: all lookups are answered
alike, but for the order in which directories are listed.
-/
namespace PathGlob

namespace FileSystem

variable {fs fs' : FileSystem}

structure Reordered (fs fs' : FileSystem) : Prop where
  root : fs'.root = fs.root
  items : fs'.items.Perm fs.items

theorem Reordered.item? (hr : fs.Reordered fs') (loc : Location) :
    fs'.item? loc = fs.item? loc := by
  apply Option.ext
  intro i
  rw [item?_eq_some, item?_eq_some, hr.items.mem_iff]

theorem Reordered.node? (hr : fs.Reordered fs') (loc : Location) :
    fs'.node? loc = fs.node? loc := by
  rw [FileSystem.node?, FileSystem.node?, hr.root, hr.item?]

theorem Reordered.stampAt (hr : fs.Reordered fs') (loc : Location) :
    fs'.stampAt loc = fs.stampAt loc := by
  rw [FileSystem.stampAt, FileSystem.stampAt, hr.item?]

theorem Reordered.children (hr : fs.Reordered fs') (dir : Location) :
    (fs'.children dir).Perm (fs.children dir) := hr.items.filterMap _

theorem Reordered.linkCount (hr : fs.Reordered fs') : fs'.linkCount = fs.linkCount :=
  hr.items.countP_eq _

theorem Reordered.resolveWith (hr : fs.Reordered fs') (followLast : Bool)
    (onLink : Location → List String → Except Fault Location) (here : Location)
    (xs : List String) :
    fs'.resolveWith followLast onLink here xs = fs.resolveWith followLast onLink here xs := by
  induction xs generalizing here with
  | nil => rw [FileSystem.resolveWith, FileSystem.resolveWith]
  | cons c rest ih =>
    rw [resolveWith.eq_2, resolveWith.eq_2]
    simp only [hr.node?, ih]

theorem Reordered.resolve (hr : fs.Reordered fs') (followLast : Bool) (links : Nat) :
    fs'.resolve followLast links = fs.resolve followLast links := by
  induction links with
  | zero => funext here xs; exact hr.resolveWith followLast _ here xs
  | succ links ih =>
    funext here xs
    rw [FileSystem.resolve, FileSystem.resolve, ih]
    exact hr.resolveWith followLast _ here xs

end FileSystem

namespace Host

variable {h h' : Host}

structure Reordered (h h' : Host) : Prop where
  cwd : h'.cwd = h.cwd
  files : h.files.Reordered h'.files

theorem Reordered.locate (hr : h.Reordered h') (followLast : Bool) (path : String) :
    h'.locate followLast path = h.locate followLast path := by
  rw [Host.locate, Host.locate, hr.files.resolve, startOf, startOf, hr.cwd]

theorem Reordered.status (hr : h.Reordered h') (followLast : Bool) (path : String) :
    h'.status followLast path = h.status followLast path := by
  simp only [Host.status, hr.locate, hr.files.node?, hr.files.stampAt]

theorem Reordered.entry (hr : h.Reordered h') (dir : String) (n : Name) (node : Node) :
    h'.entry dir n node = h.entry dir n node := by
  simp only [Host.entry, hr.status]

/-- A directory is listed with the same entries, or fails to be listed in the same way. -/
theorem Reordered.list (hr : h.Reordered h') (path : String) :
    (∃ es es', h.list path = .ok es ∧ h'.list path = .ok es' ∧ es'.Perm es) ∨
      h'.list path = h.list path := by
  unfold Host.list
  rw [hr.locate]
  cases h.locate true path with
  | error f => exact .inr rfl
  | ok loc =>
    simp only [bind, Except.bind, hr.files.node?, hr.entry]
    split
    · split
      · exact .inl ⟨_, _, rfl, rfl, (hr.files.children loc).map _⟩
      · exact .inr rfl
    · exact .inr rfl

theorem Reordered.peek (hr : h.Reordered h') (s : Spelling) : h'.peek s = h.peek s := by
  simp only [Host.peek, hr.files.resolve, hr.files.node?, hr.cwd]

theorem Reordered.travelWith (hr : h.Reordered h') (strict : Bool) (active : List Spelling)
    (onLink : Spelling → Spelling → List String → Except CanonicalError Journey)
    (here : Spelling) (xs : List String) :
    h'.travelWith strict active onLink here xs = h.travelWith strict active onLink here xs := by
  induction xs generalizing here with
  | nil => rw [Host.travelWith, Host.travelWith]
  | cons c rest ih =>
    rw [travelWith.eq_2, travelWith.eq_2]
    simp only [hr.peek, ih]

theorem Reordered.travel (hr : h.Reordered h') (strict : Bool) (depth : Nat) :
    h'.travel strict depth = h.travel strict depth := by
  induction depth with
  | zero =>
    funext active here xs
    exact hr.travelWith strict active _ here xs
  | succ depth ih =>
    funext active here xs
    rw [Host.travel, Host.travel, ih]
    exact hr.travelWith strict active _ here xs

theorem Reordered.canonical (hr : h.Reordered h') (path : String) :
    h'.canonical path = h.canonical path := by
  simp only [Host.canonical, journey, linkDepth, hr.travel, hr.files.linkCount, hr.cwd]

end Host

/-! ## Answers -/

/-- Answers that differ in the order of listings only. -/
structure Oracle.Reordered (o o' : Oracle) : Prop where
  same : ∀ q : Query, (∀ p, q ≠ .list p) → o' q = o q
  list : ∀ p, (∃ es es', o (.list p) = .ok (.ok es) ∧ o' (.list p) = .ok (.ok es') ∧ es'.Perm es) ∨
    o' (.list p) = o (.list p)

theorem Oracle.Reordered.sameStatus {o o' : Oracle} (hr : o.Reordered o') : o.SameStatus o' :=
  ⟨fun _ => hr.same _ (by simp), fun _ => hr.same _ (by simp)⟩

theorem Host.Reordered.answer {h h' : Host} (hr : h.Reordered h') :
    Oracle.Reordered h.answer h'.answer where
  same q hq := by
    cases q with
    | list p => exact absurd rfl (hq p)
    | lstat p => simp only [Host.answer, hr.status]
    | stat p => simp only [Host.answer, hr.status]
    | realpath p => exact hr.canonical p
  list p := by
    simp only [Host.answer]
    split
    · exact .inr rfl
    · rcases hr.list p with ⟨es, es', hes, hes', hperm⟩ | hsame
      · refine .inl ⟨es, es', ?_, ?_, hperm⟩
        · rw [hes]
          rfl
        · rw [hes']
          rfl
      · exact .inr (by rw [hsame])

end PathGlob
