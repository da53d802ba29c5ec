import PathGlob.Proofs.FileSystem.Locate
import PathGlob.Proofs.Lookup.Oracle

/-!
# What a host answers

The answers of a host to lookups, in terms of its nodes. Where all directories may be searched, a
listing tells of each name what a lookup of its path tells.
-/
namespace PathGlob

/-! ## Null characters -/

theorem hasNull_append (p q : String) : hasNull (p ++ q) = (hasNull p || hasNull q) := by
  rw [Bool.eq_iff_iff]
  simp [hasNull]

theorem hasNull_name (n : Name) : hasNull n.text = false := by
  have hv := n.valid
  simp only [isName, Bool.and_eq_true] at hv
  rw [← Bool.not_eq_true]
  intro h
  have hmem : '\x00' ∈ n.text.toList := by simpa [hasNull] using h
  have hc := List.all_eq_true.mp hv.2 '\x00' hmem
  simp at hc

theorem hasNull_slash : hasNull "/" = false := by decide

theorem hasNull_child (dir name : String) :
    hasNull (Path.child dir name) = (hasNull dir || hasNull name) := by
  unfold Path.child
  split <;> simp [hasNull_append, hasNull_slash]

namespace Host

variable {h : Host} {path : String}

theorem answer_stat (hnull : hasNull path = false) :
    h.answer (.stat path) = .ok (h.status true path).toOption := by
  simp [answer, hnull]

theorem answer_list (hnull : hasNull path = false) :
    h.answer (.list path) = .ok ((h.list path).mapError fun f => ⟨f, path⟩) := by
  simp [answer, hnull]

theorem hasNull_of_answer {q : Query} {e : NullInPath} (he : h.answer q = .error e)
    (hq : ∀ p, q ≠ .realpath p) : hasNull q.path = true := by
  cases q with
  | list p => by_contra hn; simp_all [answer, Query.path]
  | lstat p => by_contra hn; simp_all [answer, Query.path]
  | stat p => by_contra hn; simp_all [answer, Query.path]
  | realpath p => exact absurd rfl (hq p)

theorem entries_answer (hnull : hasNull path = false) :
    Oracle.entries h.answer path = (h.list path).toOption.getD [] := by
  unfold Oracle.entries
  rw [answer_list hnull]
  cases h.list path <;> rfl

theorem entries_of_hasNull (hnull : hasNull path = true) : Oracle.entries h.answer path = [] := by
  have hrefused : h.answer (.list path) = .error {} := by simp [answer, hnull]
  unfold Oracle.entries
  rw [hrefused]

theorem answer_stat_eq_some {s : Status} :
    h.answer (.stat path) = .ok (some s) ↔ hasNull path = false ∧
      ∃ loc node, h.locate true path = .ok loc ∧ h.files.node? loc = some node ∧
        s = ⟨node.kind, loc, h.files.stampAt loc⟩ := by
  rw [← status_eq_ok]
  cases hnull : hasNull path with
  | true => simp [answer, hnull]
  | false =>
    rw [answer_stat hnull]
    cases h.status true path <;> simp [Except.toOption]

theorem isDirectory_answer :
    Oracle.isDirectory h.answer path = true ↔ hasNull path = false ∧
      ∃ loc access, h.locate true path = .ok loc ∧
        h.files.node? loc = some (.directory access) := by
  rw [Oracle.isDirectory_eq_true]
  constructor
  · rintro ⟨s, hs, hkind⟩
    obtain ⟨hnull, loc, node, hloc, hnode, rfl⟩ := answer_stat_eq_some.mp hs
    cases node with
    | directory access => exact ⟨hnull, loc, access, hloc, hnode⟩
    | file => cases hkind
    | link => cases hkind
  · rintro ⟨hnull, loc, access, hloc, hnode⟩
    exact ⟨_, answer_stat_eq_some.mpr ⟨hnull, loc, _, hloc, hnode, rfl⟩, rfl⟩

/-- What can be listed is a directory. -/
theorem isDirectory_of_listed {es : List Entry} (hlist : h.answer (.list path) = .ok (.ok es)) :
    Oracle.isDirectory h.answer path = true := by
  cases hnull : hasNull path with
  | true => simp [answer, hnull] at hlist
  | false =>
    rw [answer_list hnull, Except.ok.injEq] at hlist
    cases hl : h.list path with
    | error f => simp [hl, Except.mapError] at hlist
    | ok found =>
      obtain ⟨loc, access, hloc, hnode, -, -⟩ := list_eq_ok.mp hl
      exact isDirectory_answer.mpr ⟨hnull, loc, access, hloc, hnode⟩

theorem identity_answer {id : Identity} :
    Oracle.identity h.answer path = some id ↔ hasNull path = false ∧
      ∃ loc node, h.locate true path = .ok loc ∧ h.files.node? loc = some node ∧
        id = ⟨loc, h.files.stampAt loc⟩ := by
  rw [Oracle.identity_eq_some]
  constructor
  · rintro ⟨s, hs, rfl⟩
    obtain ⟨hnull, loc, node, hloc, hnode, rfl⟩ := answer_stat_eq_some.mp hs
    exact ⟨hnull, loc, node, hloc, hnode, rfl⟩
  · rintro ⟨hnull, loc, node, hloc, hnode, rfl⟩
    exact ⟨_, answer_stat_eq_some.mpr ⟨hnull, loc, node, hloc, hnode, rfl⟩, rfl⟩

theorem mem_entries_answer {e : Entry} :
    e ∈ Oracle.entries h.answer path ↔ hasNull path = false ∧
      ∃ loc access node, h.locate true path = .ok loc ∧
        h.files.node? loc = some (.directory access) ∧ access.readable = true ∧
        h.files.node? (loc ++ [e.name]) = some node ∧ e = h.entry path e.name node := by
  cases hnull : hasNull path with
  | true => simp [entries_of_hasNull hnull]
  | false =>
    rw [entries_answer hnull, and_iff_right rfl]
    cases hl : h.list path with
    | error f =>
      have hno : ∀ es, h.list path ≠ .ok es := by simp [hl]
      simp only [Except.toOption, Option.getD_none, List.not_mem_nil, false_iff]
      rintro ⟨loc, access, node, hloc, hnode, hread, -, -⟩
      exact hno _ (list_eq_ok.mpr ⟨loc, access, hloc, hnode, hread, rfl⟩)
    | ok es =>
      obtain ⟨loc, access, hloc, hnode, hread, rfl⟩ := list_eq_ok.mp hl
      simp only [Except.toOption, Option.getD_some, List.mem_map, Prod.exists,
        FileSystem.mem_children, hloc]
      constructor
      · rintro ⟨n, node, hn, rfl⟩
        rw [entry_name]
        exact ⟨loc, access, node, rfl, hnode, hread, hn, rfl⟩
      · rintro ⟨_, _, node, ⟨⟩, _, _, hn, he⟩
        exact ⟨e.name, node, hn, he.symm⟩

/-- In a searchable file system an entry tells whether its path is a directory. -/
theorem entry_isDir (hs : h.files.Searchable) {e : Entry}
    (he : e ∈ Oracle.entries h.answer path) :
    e.isDir = Oracle.isDirectory h.answer (Path.child path e.name.text) := by
  obtain ⟨hnull, loc, access, node, hloc, hnode, hread, hn, heq⟩ := mem_entries_answer.mp he
  have hnull' : hasNull (Path.child path e.name.text) = false := by
    rw [hasNull_child, hnull, hasNull_name, Bool.or_self]
  have hstatus : (∀ target, node ≠ .link target) →
      h.status true (Path.child path e.name.text) =
        .ok ⟨node.kind, loc ++ [e.name], h.files.stampAt (loc ++ [e.name])⟩ := by
    intro hlink
    refine status_eq_ok.mpr ⟨_, node, ?_, hn, rfl⟩
    rw [locate_child_name hloc hnode hn (.inr hlink), if_pos (hs loc access hnode)]
  rw [heq, entry_name]
  unfold Oracle.isDirectory
  rw [answer_stat hnull']
  cases node with
  | directory a => simp [hstatus, entry, Except.toOption, Node.kind]
  | file readable content => simp [hstatus, entry, Except.toOption, Node.kind]
  | link target =>
    cases hlink : h.status true (Path.child path e.name.text) with
    | ok s => simp [entry, hlink, Except.toOption]
    | error f => cases f <;> simp [entry, hlink, Except.toOption]

theorem identity_of_entry {e : Entry} (he : e ∈ Oracle.entries h.answer path) :
    ∃ i, Oracle.identity h.answer path = some i := by
  obtain ⟨hnull, loc, access, node, hloc, hnode, -⟩ := mem_entries_answer.mp he
  exact ⟨_, identity_answer.mpr ⟨hnull, loc, _, hloc, hnode, rfl⟩⟩

/-- A directory that is listed, and no link, is one level below. -/
theorem location_of_entry {e : Entry} (he : e ∈ Oracle.entries h.answer path)
    (hdir : e.isDir = true) (hlink : e.isLink = false) {i j : Identity}
    (hi : Oracle.identity h.answer path = some i)
    (hj : Oracle.identity h.answer (Path.child path e.name.text) = some j) :
    j.location = i.location ++ [e.name] := by
  obtain ⟨hnull, loc, access, node, hloc, hnode, hread, hn, heq⟩ := mem_entries_answer.mp he
  obtain ⟨-, loc', node', hloc', -, rfl⟩ := identity_answer.mp hi
  obtain ⟨-, there, node'', hthere, -, rfl⟩ := identity_answer.mp hj
  rw [hloc] at hloc'
  cases hloc'
  rw [heq, entry_name] at hthere
  rw [heq] at hdir hlink
  obtain ⟨a, rfl⟩ := directory_of_entry hdir hlink
  rw [locate_child_name hloc hnode hn (.inr (by simp))] at hthere
  split at hthere
  · exact (Except.ok.inj hthere).symm
  · cases hthere

end Host

end PathGlob
