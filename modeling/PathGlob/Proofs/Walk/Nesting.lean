import PathGlob.Proofs.Walk.Follow

/-!
# How deep walks are nested

Calls are inside each other where one is made before the other is done. Each globstar that is inside
another spends a directory: a followed one an identity that the chain does not have, any other a
level of the tree. All other calls spend segments. So a walk keeps within bounds that its segments
and the directories of the file system tell, whatever its links are.
-/
namespace PathGlob

namespace FileSystem

variable {fs : FileSystem} {loc : Location} {node : Node} {access : Access}

/-! ## Directories -/

def holdsDirectory (fs : FileSystem) (loc : Location) : Bool :=
  match fs.node? loc with
  | some (.directory _) => true
  | _ => false

def directoryIdentities (fs : FileSystem) : Finset Identity :=
  ((([] :: fs.items.map Item.location).filter fs.holdsDirectory).map fun loc =>
    ⟨loc, fs.stampAt loc⟩).toFinset

/-- The number of directories on the way to a location and at it, the root not counted. -/
def nesting (fs : FileSystem) (loc : Location) : Nat :=
  (List.range loc.length).countP fun n => fs.holdsDirectory (loc.take (n + 1))

def height (fs : FileSystem) : Nat := fs.items.toFinset.sup fun i => fs.nesting i.location

theorem holdsDirectory_of_node? (h : fs.node? loc = some (.directory access)) :
    fs.holdsDirectory loc = true := by
  simp [holdsDirectory, h]

theorem mem_directoryIdentities (h : fs.node? loc = some (.directory access)) :
    ⟨loc, fs.stampAt loc⟩ ∈ fs.directoryIdentities := by
  have hmem : loc ∈ [] :: fs.items.map Item.location := by
    rcases location_of_node? h with rfl | ⟨i, hi, rfl⟩
    · exact List.mem_cons_self
    · exact List.mem_cons_of_mem _ (List.mem_map_of_mem hi)
  rw [directoryIdentities, List.mem_toFinset]
  exact List.mem_map_of_mem (List.mem_filter.mpr ⟨hmem, holdsDirectory_of_node? h⟩)

theorem nesting_child {n : Name} (h : fs.node? (loc ++ [n]) = some (.directory access)) :
    fs.nesting (loc ++ [n]) = fs.nesting loc + 1 := by
  have hbefore : ∀ k ∈ List.range loc.length,
      (fs.holdsDirectory ((loc ++ [n]).take (k + 1)) = true ↔
        fs.holdsDirectory (loc.take (k + 1)) = true) := by
    intro k hk
    have hlt := List.mem_range.mp hk
    rw [List.take_append_of_le_length (by omega)]
  have hlast : (loc ++ [n]).take (loc.length + 1) = loc ++ [n] :=
    List.take_of_length_le (by simp)
  rw [nesting, List.length_append, List.length_singleton, List.range_succ, List.countP_append,
    List.countP_congr hbefore, List.countP_singleton, hlast, if_pos (holdsDirectory_of_node? h)]
  rfl

theorem nesting_le_height (h : fs.node? loc = some node) : fs.nesting loc ≤ fs.height := by
  rcases location_of_node? h with rfl | ⟨i, hi, rfl⟩
  · exact Nat.zero_le _
  · exact Finset.le_sup (f := fun i : Item => fs.nesting i.location) (List.mem_toFinset.mpr hi)

end FileSystem

namespace Walk

variable {w : Walk} {h : Host} {c : Cache}

/-! ## Globstars inside globstars -/

def unentered (h : Host) (chain : Chain) : Nat :=
  (h.files.directoryIdentities \ chain.toFinset).card

theorem unentered_le {chain below : Chain} {dir : String}
    (hbelow : w.chainBelow h.answer chain dir = some below) :
    unentered h below ≤ unentered h chain := by
  unfold chainBelow at hbelow
  split at hbelow
  · obtain ⟨id, -, hbelow⟩ := Option.bind_eq_some_iff.mp hbelow
    split at hbelow
    · cases hbelow
    · obtain rfl := Option.some.inj hbelow
      apply Finset.card_le_card
      rw [List.toFinset_cons]
      exact Finset.sdiff_subset_sdiff le_rfl (Finset.subset_insert _ _)
  · obtain rfl := Option.some.inj hbelow
    exact le_rfl

/-- What is listed is listed in a directory, and this is one less that can be entered. -/
theorem unentered_lt {chain below : Chain} {dir : String} {e : Entry}
    (hf : w.options.follow = true) (hbelow : w.chainBelow h.answer chain dir = some below)
    (he : e ∈ Oracle.entries h.answer dir) : unentered h below < unentered h chain := by
  rw [chainBelow, if_pos hf] at hbelow
  obtain ⟨id, hid, hbelow⟩ := Option.bind_eq_some_iff.mp hbelow
  by_cases hmem : id ∈ chain
  · simp [hmem] at hbelow
  rw [if_neg hmem] at hbelow
  obtain rfl := Option.some.inj hbelow
  have hdir : id ∈ h.files.directoryIdentities := by
    obtain ⟨-, loc, access, node, hloc, hnode, -⟩ := Host.mem_entries_answer.mp he
    obtain ⟨-, loc', node', hloc', -, rfl⟩ := Host.identity_answer.mp hid
    rw [hloc] at hloc'
    cases hloc'
    exact FileSystem.mem_directoryIdentities hnode
  exact card_sdiff_cons_lt hdir hmem

/-- Followed globstars spend directories, all globstars together. -/
def directoryBudget (w : Walk) (h : Host) (hf : w.options.follow = true) :
    w.Budget h.answer where
  ahead n chain := if n = 0 then 0 else unentered h chain + n
  inside n chain _ := unentered h chain + n + 1
  inside_le n chain _ := by simp [Nat.add_assoc]
  ahead_lt n chain _ := by
    split_ifs
    · omega
    · omega
  ahead_below n chain below dir hbelow := by
    have hle := unentered_le hbelow
    split_ifs
    · omega
    · omega
  inside_below n chain below dir e hbelow he _ _ := by
    have hlt := unentered_lt hf hbelow he
    omega

def levelsBelow (h : Host) (path : String) : Nat :=
  match h.locate true path with
  | .ok loc => h.files.height - h.files.nesting loc
  | .error _ => 0

theorem levelsBelow_le (h : Host) (path : String) : levelsBelow h path ≤ h.files.height := by
  unfold levelsBelow
  split
  · exact Nat.sub_le _ _
  · exact Nat.zero_le _

theorem levelsBelow_child_lt {dir : String} {e : Entry} (he : e ∈ Oracle.entries h.answer dir)
    (hdir : e.isDir = true) (hlink : e.isLink = false) :
    levelsBelow h (Path.child dir e.name.text) < levelsBelow h dir := by
  obtain ⟨-, loc, access, node, hloc, hnode, -, hn, heq⟩ := Host.mem_entries_answer.mp he
  rw [heq] at hdir hlink
  obtain ⟨a, rfl⟩ := Host.directory_of_entry hdir hlink
  have hlevel := FileSystem.nesting_child hn
  have hheight := FileSystem.nesting_le_height hn
  have hchild := Host.locate_child_name hloc hnode hn (f := true) (.inr (by simp))
  unfold levelsBelow
  rw [hchild, hloc]
  cases access.searchable with
  | true =>
    simp only [if_true]
    omega
  | false =>
    simp only [Bool.false_eq_true, if_false]
    omega

/-- Globstars that are not followed spend levels, each for itself. -/
def levelBudget (w : Walk) (h : Host) (hf : w.options.follow = false) : w.Budget h.answer where
  ahead n _ := n * (h.files.height + 1)
  inside n _ dir := levelsBelow h dir + 1 + n * (h.files.height + 1)
  inside_le n _ dir := by
    have hle := levelsBelow_le h dir
    rw [Nat.succ_mul]
    omega
  ahead_lt n _ dir := by omega
  ahead_below n _ _ _ _ := le_rfl
  inside_below n _ _ dir e _ he hdir hdown := by
    have hlt := levelsBelow_child_lt he hdir (isLink_of_descends hf hdown)
    omega

/-- How many globstars can be inside each other: followed ones enter each directory once, and others
enter one level of directories after another for each segment. -/
def globstarBound (w : Walk) (fs : FileSystem) : Nat :=
  let n := globstars w.alternative.segments
  if w.options.follow then n + fs.directoryIdentities.card else n * (fs.height + 1)

theorem exists_budget_of_directories (w : Walk) (h : Host) :
    ∃ B : w.Budget h.answer, B.ahead (globstars w.ahead) [] ≤ w.globstarBound h.files := by
  have hcount : globstars w.ahead ≤ globstars w.alternative.segments := w.ahead_sublist.countP_le
  unfold globstarBound
  cases hf : w.options.follow with
  | true =>
    refine ⟨w.directoryBudget h hf, ?_⟩
    have hall : unentered h [] ≤ h.files.directoryIdentities.card :=
      Finset.card_le_card Finset.sdiff_subset
    simp only [directoryBudget, if_true]
    split_ifs
    · exact Nat.zero_le _
    · omega
  | false =>
    refine ⟨w.levelBudget h hf, ?_⟩
    exact Nat.mul_le_mul_right _ hcount

/-! ## Other calls -/

/-- Makes a call, with as many calls inside it as are left then. -/
def spend : (calls : Nat) → (Nat → Script Unit) → Script Unit
  | 0, _ => .fail .tooDeep
  | calls + 1, f => f calls

/-- Lays segments with a bound for the calls that are inside each other: at most `calls` times
segments are laid or a name is gone on at, and at most `depth` times a globstar is. -/
def layWithin (w : Walk) :
    List Segment → (calls depth : Nat) → Chain → String → List String → Script Unit
  | [], calls, _, _, dir, out => spend calls fun _ => w.found none dir out
  | .empty :: rest, calls, depth, chain, dir, out => spend calls fun calls => do
    if ← isDirectory dir then layWithin w rest calls depth chain dir (out ++ [""]) else .nothing
  | .literal _ name :: rest, calls, depth, chain, dir, out => spend calls fun calls => do
    let path := Path.child dir name
    if ← isThere path then
      spend calls fun calls =>
        w.descend rest.isEmpty (layWithin w rest calls depth chain) none path (out ++ [name])
    else .nothing
  | .magic _ mode tokens :: rest, calls, depth, chain, dir, out => spend calls fun calls => do
    let es ← w.entries dir
    Script.each es fun e =>
      let name := e.name.text
      if Wildcard.accepts mode tokens name.toList then
        spend calls fun calls =>
          w.descend rest.isEmpty (layWithin w rest calls depth chain) (some e.isDir)
            (Path.child dir name) (out ++ [name])
      else .nothing
  | .globstar :: rest, calls, depth, chain, dir, out => spend calls fun calls =>
    w.globstar rest (layWithin w rest calls) depth chain dir out

def scriptWithin (w : Walk) (calls depth : Nat) : Script Unit :=
  (isDirectory w.root).bind fun d =>
    if d then w.layWithin w.ahead calls depth [] w.start.path w.start.out
    else .fail (.notDirectory w.root)

/-- Two calls for each segment are enough, and one for their end. -/
theorem layWithin_eq (segs : List Segment) {calls : Nat} (hcalls : 2 * segs.length + 1 ≤ calls) :
    w.layWithin segs calls = w.lay segs := by
  induction segs generalizing calls with
  | nil =>
    obtain ⟨calls, rfl⟩ := Nat.exists_eq_add_of_le' hcalls
    rfl
  | cons first rest ih =>
    rw [List.length_cons] at hcalls
    obtain ⟨calls, rfl⟩ := Nat.exists_eq_add_of_le' (show 2 ≤ calls by omega)
    have hdeeper : w.layWithin rest calls = w.lay rest := ih (by omega)
    have hnext : w.layWithin rest (calls + 1) = w.lay rest := ih (by omega)
    funext depth chain dir out
    cases first with
    | empty => rw [layWithin, lay, spend, hnext]
    | literal text name =>
      rw [layWithin, lay]
      simp only [spend, hdeeper]
    | magic text mode tokens =>
      rw [layWithin, lay]
      simp only [spend, hdeeper]
    | globstar => rw [layWithin, lay, spend, hnext]

theorem scriptWithin_eq {calls : Nat} (hcalls : 2 * w.alternative.segments.length + 1 ≤ calls)
    (depth : Nat) : w.scriptWithin calls depth = w.script depth := by
  have hlen := w.ahead_sublist.length_le
  rw [scriptWithin, script_eq, layWithin_eq w.ahead (by omega)]

/-! ## Whole walks -/

theorem result_runCached (s : Script Unit) (h : Host) (c : Cache) :
    (s.runCached h c).result = s.outcome (c.answers h.answer) := by
  rw [Script.runCached, Script.run_lookup]

/-- Of two depths that are enough it does not matter which one is taken. -/
theorem runCached_of_not_tooDeep {depth depth' : Nat}
    (hd : ((w.script depth).runCached h c).result ≠ .error (.walk .tooDeep))
    (hd' : ((w.script depth').runCached h c).result ≠ .error (.walk .tooDeep)) :
    (w.script depth).runCached h c = (w.script depth').runCached h c := by
  have hmax := (deepens_script (w := w) (le_max_left depth depth')).run_eq hd
  have hmax' := (deepens_script (w := w) (le_max_right depth depth')).run_eq hd'
  exact hmax.symm.trans hmax'

/-- On a file system with whatever links, and directories that may not be listed or searched, a walk
keeps within these bounds: it is the same as the walk that fails where more calls would be inside
each other, and does not fail so. With `n` globstars, followed ones are at most `n` and the number of
directories deep inside each other, and others `n` times the levels of directories; of all other
calls there are at most two for each segment and one more. -/
theorem run_eq_runWithin (w : Walk) (h : Host) (c : Cache) (hc : c.Agrees h.answer)
    {calls depth : Nat} (hcalls : 2 * w.alternative.segments.length + 1 ≤ calls)
    (hdepth : w.globstarBound h.files ≤ depth) :
    (w.scriptWithin calls depth).runCached h c = w.run h c ∧
      (w.run h c).result ≠ .error (.walk .tooDeep) := by
  have hbound : ((w.script depth).runCached h c).result ≠ .error (.walk .tooDeep) := by
    obtain ⟨B, hB⟩ := w.exists_budget_of_directories h
    rw [result_runCached, Cache.answers_of_agrees hc]
    exact not_tooDeep_of_budget B (hB.trans hdepth)
  have hrun : (w.run h c).result ≠ .error (.walk .tooDeep) := by
    rw [run, result_runCached]
    exact w.not_tooDeep h c le_rfl
  rw [scriptWithin_eq hcalls]
  exact ⟨runCached_of_not_tooDeep hbound hrun, hrun⟩

def spiralHost : Host := ⟨FileSystem.empty.apply (.link (.ofText "w/a/l") "/"), "/w"⟩

/-- One followed globstar goes from the working directory by way of the root and back, through all
three directories, and comes to one of them again. -/
theorem run_eq_runWithin_spiral :
    let w : Walk :=
      ⟨Pattern.readAlternative {} false 0 0 "**".toList, { follow := true }, fun _ _ => false, "/w"⟩
    w.globstarBound spiralHost.files = 4 ∧
      ((w.scriptWithin 3 4).runCached spiralHost .empty).result = .ok () := by
  intro w
  have hbound : w.globstarBound spiralHost.files = 4 := by decide +kernel
  have hcalls : 2 * w.alternative.segments.length + 1 ≤ 3 := by decide +kernel
  have hempty := Cache.agrees_empty spiralHost.answer
  obtain ⟨hrun, -⟩ := run_eq_runWithin w spiralHost .empty hempty hcalls hbound.le
  refine ⟨hbound, ?_⟩
  rw [hrun, run_of_agrees _ _ hempty]
  decide +kernel

/-- With one level less it fails. -/
example :
    let w : Walk :=
      ⟨Pattern.readAlternative {} false 0 0 "**".toList, { follow := true }, fun _ _ => false, "/w"⟩
    (w.scriptWithin 3 3).outcome spiralHost.answer = .error (.walk .tooDeep) := by
  decide +kernel

end Walk

end PathGlob
