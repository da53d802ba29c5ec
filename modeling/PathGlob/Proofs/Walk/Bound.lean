import PathGlob.Proofs.FileSystem.Answers
import PathGlob.Proofs.Walk.Depth

/-!
# The depth that walks are given

On a host with a cache in front of it, followed globstars go into one directory with a new identity
after another; other globstars go down longer and longer paths, and where these are too long to be
stored, from nodes to nodes below them. So the depth that a walk is given is always enough.
-/
namespace PathGlob

namespace Cache

variable {c d : Cache}

theorem mem_toList_iff_get? {q : Query} {a : q.Answer} :
    ⟨q, a⟩ ∈ c.stored.toList ↔ c.get? q = some a :=
  Std.DHashMap.mem_toList_iff_get?_eq_some

theorem size_eq_length (c : Cache) : c.size = c.stored.toList.length :=
  Std.DHashMap.length_toList.symm

theorem longest_eq_foldl (c : Cache) :
    c.longest = c.stored.toList.foldl (fun n x => max n x.1.path.length) 0 :=
  Std.DHashMap.fold_eq_foldl_toList

theorem foldl_max_le_iff {α : Type} (f : α → Nat) (xs : List α) (n m : Nat) :
    xs.foldl (fun n x => max n (f x)) n ≤ m ↔ n ≤ m ∧ ∀ x ∈ xs, f x ≤ m := by
  induction xs generalizing n with
  | nil => simp
  | cons x xs ih =>
    rw [List.foldl_cons, ih, max_le_iff, List.forall_mem_cons, and_assoc]

theorem longest_le_iff {m : Nat} :
    c.longest ≤ m ↔ ∀ q a, c.get? q = some a → q.path.length ≤ m := by
  rw [longest_eq_foldl, foldl_max_le_iff (fun x : (q : Query) × q.Answer => x.1.path.length)]
  simp only [Nat.zero_le, true_and, Sigma.forall, mem_toList_iff_get?]

theorem length_le_longest {q : Query} {a : q.Answer} (h : c.get? q = some a) :
    q.path.length ≤ c.longest := longest_le_iff.mp le_rfl q a h

theorem longest_le_of_extends (h : c.Extends d) : c.longest ≤ d.longest :=
  longest_le_iff.mpr fun q a hq => length_le_longest (h q a hq)

theorem size_le_of_extends (h : c.Extends d) : c.size ≤ d.size := by
  have hsub : c.stored.toList ⊆ d.stored.toList := by
    rintro ⟨q, a⟩ hx
    exact mem_toList_iff_get?.mpr (h q a (mem_toList_iff_get?.mp hx))
  have hkeys : (c.stored.toList.map Sigma.fst).Nodup := by
    rw [Std.DHashMap.map_fst_toList_eq_keys]
    exact Std.DHashMap.nodup_keys
  rw [size_eq_length, size_eq_length]
  exact (hkeys.of_map.subperm hsub).length_le

def identities (c : Cache) : List Identity :=
  c.stored.toList.flatMap fun
    | ⟨.stat _, some s⟩ => [s.identity]
    | _ => []

theorem length_identities_le (c : Cache) : c.identities.length ≤ c.size := by
  rw [size_eq_length, identities, List.length_flatMap]
  have hle : ∀ x ∈ (c.stored.toList.map fun x : (q : Query) × q.Answer =>
      List.length (match x with
        | ⟨.stat _, some s⟩ => [s.identity]
        | _ => [])), x ≤ 1 := by
    intro n hn
    obtain ⟨x, -, rfl⟩ := List.mem_map.mp hn
    split <;> simp
  simpa using List.sum_le_card_nsmul _ 1 hle

theorem mem_identities {path : String} {s : Status} (h : c.get? (.stat path) = some (some s)) :
    s.identity ∈ c.identities := by
  rw [identities, List.mem_flatMap]
  exact ⟨⟨.stat path, some s⟩, mem_toList_iff_get?.mpr h, by simp⟩

end Cache

namespace FileSystem

variable {fs : FileSystem}

def identities (fs : FileSystem) : List Identity :=
  ([] :: fs.items.map Item.location).map fun loc => ⟨loc, fs.stampAt loc⟩

theorem length_identities (fs : FileSystem) : fs.identities.length = fs.size := by
  simp [identities, size]

theorem location_of_node? {loc : Location} {node : Node} (h : fs.node? loc = some node) :
    loc = [] ∨ ∃ i ∈ fs.items, i.location = loc := by
  by_cases hroot : loc = []
  · exact .inl hroot
  · rw [node?, if_neg hroot, Option.map_eq_some_iff] at h
    obtain ⟨i, hi, -⟩ := h
    exact .inr ⟨i, item?_eq_some.mp hi⟩

theorem mem_identities {loc : Location} {node : Node} (h : fs.node? loc = some node) :
    ⟨loc, fs.stampAt loc⟩ ∈ fs.identities := by
  apply List.mem_map_of_mem
  rcases location_of_node? h with rfl | ⟨i, hi, rfl⟩
  · exact List.mem_cons_self
  · exact List.mem_cons_of_mem _ (List.mem_map_of_mem hi)

def countBelow (fs : FileSystem) (loc : Location) : Nat :=
  (fs.items.toFinset.filter fun i => loc <+: i.location ∧ loc ≠ i.location).card

theorem countBelow_le (fs : FileSystem) (loc : Location) : fs.countBelow loc < fs.size :=
  Nat.lt_succ_of_le <| (Finset.card_filter_le _ _).trans (List.toFinset_card_le _)

theorem countBelow_child {loc : Location} {n : Name} {node : Node}
    (h : fs.node? (loc ++ [n]) = some node) :
    fs.countBelow (loc ++ [n]) < fs.countBelow loc := by
  rcases location_of_node? h with hroot | ⟨i, hi, hloc⟩
  · simp at hroot
  apply Finset.card_lt_card
  refine (Finset.ssubset_iff_of_subset ?_).mpr ⟨i, ?_, ?_⟩
  · intro j hj
    obtain ⟨hmem, hbelow, -⟩ := Finset.mem_filter.mp hj
    refine Finset.mem_filter.mpr ⟨hmem, (List.prefix_append loc [n]).trans hbelow, ?_⟩
    rintro rfl
    have hlen := hbelow.length_le
    simp at hlen
  · simp [hi, hloc]
  · simp [hloc]

end FileSystem

namespace Walk

variable {w : Walk} {h : Host} {c : Cache}

/-! ## Followed globstars -/

def identitiesOn (h : Host) (c : Cache) : Finset Identity :=
  (c.identities ++ h.files.identities).toFinset

theorem card_identitiesOn_le (h : Host) (c : Cache) :
    (identitiesOn h c).card ≤ c.size + h.files.size := by
  refine (List.toFinset_card_le _).trans ?_
  rw [List.length_append, FileSystem.length_identities]
  exact Nat.add_le_add_right c.length_identities_le _

theorem mem_identitiesOn {path : String} {id : Identity}
    (hid : (c.answers h.answer).identity path = some id) : id ∈ identitiesOn h c := by
  rw [identitiesOn, List.mem_toFinset, List.mem_append]
  unfold Oracle.identity at hid
  cases hq : c.get? (.stat path) with
  | some s =>
    rw [Cache.answers_hit hq] at hid
    obtain ⟨s, rfl, rfl⟩ := Option.map_eq_some_iff.mp hid
    exact .inl (Cache.mem_identities hq)
  | none =>
    rw [Cache.answers_miss hq] at hid
    obtain ⟨-, loc, node, -, hnode, rfl⟩ := Host.identity_answer.mp hid
    exact .inr (FileSystem.mem_identities hnode)

/-- The number of identities that are not on a chain. -/
def fresh (h : Host) (c : Cache) (chain : Chain) : Nat :=
  (identitiesOn h c \ chain.toFinset).card

theorem fresh_le (h : Host) (c : Cache) (chain : Chain) :
    fresh h c chain ≤ c.size + h.files.size :=
  (Finset.card_le_card Finset.sdiff_subset).trans (card_identitiesOn_le h c)

/-- An identity that comes to a chain is one less that the chain leaves. -/
theorem card_sdiff_cons_lt {ids : Finset Identity} {chain : Chain} {id : Identity}
    (hid : id ∈ ids) (hnew : id ∉ chain) :
    (ids \ (id :: chain).toFinset).card < (ids \ chain.toFinset).card := by
  apply Finset.card_lt_card
  refine (Finset.ssubset_iff_of_subset ?_).mpr ⟨id, ?_, ?_⟩
  · rw [List.toFinset_cons]
    exact Finset.sdiff_subset_sdiff le_rfl (Finset.subset_insert _ _)
  · simp [hid, hnew]
  · simp

theorem fresh_chainBelow_lt {chain below : Chain} {dir : String} (hf : w.options.follow = true)
    (hbelow : w.chainBelow (c.answers h.answer) chain dir = some below) :
    fresh h c below < fresh h c chain := by
  rw [chainBelow, if_pos hf] at hbelow
  obtain ⟨id, hid, hbelow⟩ := Option.bind_eq_some_iff.mp hbelow
  by_cases hmem : id ∈ chain
  · simp [hmem] at hbelow
  · rw [if_neg hmem, Option.some.injEq] at hbelow
    subst hbelow
    exact card_sdiff_cons_lt (mem_identitiesOn hid) hmem

/-- Followed globstars spend identities, all globstars together. -/
def followBudget (w : Walk) (h : Host) (c : Cache) (hf : w.options.follow = true) :
    w.Budget (c.answers h.answer) where
  ahead n chain := if n = 0 then 0 else fresh h c chain + n
  inside n chain _ := fresh h c chain + n + 1
  inside_le n chain _ := by simp [Nat.add_assoc]
  ahead_lt n chain _ := by
    split_ifs
    · omega
    · omega
  ahead_below n chain below dir hbelow := by
    have hlt := fresh_chainBelow_lt hf hbelow
    split_ifs
    · omega
    · omega
  inside_below n chain below dir e hbelow _ _ _ := by
    have hlt := fresh_chainBelow_lt hf hbelow
    omega

/-! ## Other globstars -/

theorem length_lt_child_of_ne (dir : String) {name : String} (hne : name ≠ "") :
    dir.length < (Path.child dir name).length := by
  have hpos : 0 < name.length := by
    rw [← String.length_toList]
    exact List.length_pos_of_ne_nil (by simpa using hne)
  unfold Path.child
  split
  · rw [String.length_append]
    omega
  · rw [String.length_append, String.length_append]
    omega

theorem length_lt_child (dir : String) (n : Name) :
    dir.length < (Path.child dir n.text).length := length_lt_child_of_ne dir n.text_ne_empty

/-- The number of nodes below the directory that a path leads to. -/
def room (h : Host) (path : String) : Nat :=
  match h.locate true path with
  | .ok loc => h.files.countBelow loc
  | .error _ => 0

theorem room_lt (h : Host) (path : String) : room h path < h.files.size := by
  unfold room
  split
  · exact h.files.countBelow_le _
  · exact Nat.succ_pos _

theorem room_child_lt {dir : String} {e : Entry} (he : e ∈ Oracle.entries h.answer dir)
    (hdir : e.isDir = true) (hlink : e.isLink = false) :
    room h (Path.child dir e.name.text) < room h dir := by
  obtain ⟨-, loc, access, node, hloc, hnode, -, hn, heq⟩ := Host.mem_entries_answer.mp he
  rw [heq] at hdir hlink
  obtain ⟨a, rfl⟩ := Host.directory_of_entry hdir hlink
  have hbelow := FileSystem.countBelow_child hn
  have hchild := Host.locate_child_name hloc hnode hn (f := true) (.inr (by simp))
  unfold room
  rw [hchild, hloc]
  cases access.searchable with
  | true => exact hbelow
  | false => exact (Nat.zero_le _).trans_lt hbelow

/-- How far down a globstar can go from a directory: first over stored paths, then over nodes. -/
def rank (h : Host) (c : Cache) (dir : String) : Nat :=
  if dir.length ≤ c.longest then c.longest + 1 - dir.length + h.files.size else room h dir

theorem rank_le (h : Host) (c : Cache) (dir : String) :
    rank h c dir ≤ c.longest + 1 + h.files.size := by
  have hroom := room_lt h dir
  unfold rank
  split <;> omega

theorem rank_child_lt {dir : String} {e : Entry}
    (he : e ∈ (c.answers h.answer).entries dir) (hdir : e.isDir = true)
    (hlink : e.isLink = false) : rank h c (Path.child dir e.name.text) < rank h c dir := by
  have hlonger := length_lt_child dir e.name
  have hroom := room_lt h (Path.child dir e.name.text)
  by_cases hlen : dir.length ≤ c.longest
  · unfold rank
    rw [if_pos hlen]
    split <;> omega
  · -- No path of this length is stored, so that the entries are those of the host.
    have hmiss : c.get? (.list dir) = none := by
      by_contra hstored
      obtain ⟨a, ha⟩ := Option.ne_none_iff_exists'.mp hstored
      exact hlen (Cache.length_le_longest ha)
    unfold Oracle.entries at he
    rw [Cache.answers_miss hmiss] at he
    have hlt := room_child_lt he hdir hlink
    unfold rank
    rw [if_neg hlen, if_neg (by omega)]
    exact hlt

def reach (h : Host) (c : Cache) : Nat := c.longest + h.files.size + 2

/-- Globstars that are not followed spend what is below them, each for itself. -/
def plainBudget (w : Walk) (h : Host) (c : Cache) (hf : w.options.follow = false) :
    w.Budget (c.answers h.answer) where
  ahead n _ := n * reach h c
  inside n _ dir := rank h c dir + 1 + n * reach h c
  inside_le n _ dir := by
    have hrank := rank_le h c dir
    rw [Nat.succ_mul, reach]
    omega
  ahead_lt n _ dir := by omega
  ahead_below n _ _ _ _ := le_rfl
  inside_below n _ _ dir e _ he hdir hdown := by
    have hlt := rank_child_lt he hdir (isLink_of_descends hf hdown)
    omega

/-! ## Enough depth -/

theorem ahead_sublist (w : Walk) : w.ahead.Sublist w.alternative.segments := by
  unfold ahead
  split
  · exact List.drop_sublist 1 _
  · exact .refl _

theorem globstars_ahead_le (w : Walk) : globstars w.ahead ≤ w.alternative.segments.length :=
  w.ahead_sublist.countP_le.trans List.countP_le_length

theorem exists_budget (w : Walk) (h : Host) (c : Cache) :
    ∃ B : w.Budget (c.answers h.answer), B.ahead (globstars w.ahead) [] ≤ w.depthOn h c := by
  have hcount := w.globstars_ahead_le
  cases hf : w.options.follow with
  | true =>
    refine ⟨w.followBudget h c hf, ?_⟩
    have hfresh := fresh_le h c []
    -- Without globstars there may be no segments, and the depth may be zero.
    by_cases hzero : globstars w.ahead = 0
    · simp [followBudget, hzero]
    have hone : 1 ≤ w.alternative.segments.length := by omega
    calc (if globstars w.ahead = 0 then 0 else fresh h c [] + globstars w.ahead)
        = fresh h c [] + globstars w.ahead := if_neg hzero
      _ ≤ 1 * (h.files.size + c.longest + c.size + 1) + w.alternative.segments.length := by omega
      _ ≤ w.alternative.segments.length * (h.files.size + c.longest + c.size + 1) +
          w.alternative.segments.length := by gcongr
      _ = w.depthOn h c := by unfold depthOn; ring
  | false =>
    refine ⟨w.plainBudget h c hf, ?_⟩
    exact Nat.mul_le_mul hcount (by unfold reach; omega)

/-- Within a budget a walk is not too deep. -/
theorem not_tooDeep_of_budget {o : Oracle} (B : w.Budget o) {depth : Nat}
    (hdepth : B.ahead (globstars w.ahead) [] ≤ depth) :
    (w.script depth).outcome o ≠ .error (.walk .tooDeep) := by
  have hfails : (w.script depth).FailsOnly o (· ≠ .walk .tooDeep) := by
    refine failsOnly_script (P := fun _ => True) ⟨?_, ?_, ?_⟩ B (by simp) ?_ hdepth trivial
    · intro _ _ _ _ _
      simp
    · intro _ _ _
      trivial
    · intro _ _
      simp
    · intro _ _ _ _ _
      trivial
  intro hdeep
  exact hfails _ hdeep rfl

theorem not_tooDeep (w : Walk) (h : Host) (c : Cache) {depth : Nat}
    (hdepth : w.depthOn h c ≤ depth) :
    (w.script depth).outcome (c.answers h.answer) ≠ .error (.walk .tooDeep) := by
  obtain ⟨B, hB⟩ := w.exists_budget h c
  exact not_tooDeep_of_budget B (hB.trans hdepth)

theorem depthOn_le_of_extends (w : Walk) (h : Host) {c d : Cache} (hd : c.Extends d) :
    w.depthOn h c ≤ w.depthOn h d := by
  have hlongest := Cache.longest_le_of_extends hd
  have hsize := Cache.size_le_of_extends hd
  exact Nat.mul_le_mul_left _ (by omega)

theorem runWith_eq_of_depthOn_le (w : Walk) (h : Host) (c : Cache) {depth depth' : Nat}
    (hdepth : w.depthOn h c ≤ depth) (hdepth' : w.depthOn h c ≤ depth') :
    (w.script depth).runWith (c.answers h.answer) =
      (w.script depth').runWith (c.answers h.answer) :=
  ((deepens_script hdepth).run_eq (w.not_tooDeep h c le_rfl)).trans
    ((deepens_script hdepth').run_eq (w.not_tooDeep h c le_rfl)).symm

theorem questions_eq_of_depthOn_le (w : Walk) (h : Host) (c : Cache) {depth depth' : Nat}
    (hdepth : w.depthOn h c ≤ depth) (hdepth' : w.depthOn h c ≤ depth') :
    (w.script depth).questions (c.answers h.answer) =
      (w.script depth').questions (c.answers h.answer) :=
  ((deepens_script hdepth).asked_eq (w.not_tooDeep h c le_rfl)).trans
    ((deepens_script hdepth').asked_eq (w.not_tooDeep h c le_rfl)).symm

/-- Whatever else was looked up before, a walk with a cache is the run that its first answers tell. -/
theorem run_of_extends (w : Walk) {h : Host} {c d : Cache} (hext : c.Extends d)
    (hans : d.answers h.answer = c.answers h.answer) {depth : Nat}
    (hdepth : w.depthOn h c ≤ depth) :
    w.run h d =
      ⟨(w.script depth).events (c.answers h.answer), (w.script depth).outcome (c.answers h.answer),
        d.lookups h.answer ((w.script depth).questions (c.answers h.answer))⟩ := by
  have hle := w.depthOn_le_of_extends h hext
  have hrun := w.runWith_eq_of_depthOn_le h c hle hdepth
  have hasked := w.questions_eq_of_depthOn_le h c hle hdepth
  rw [run, Script.runCached, Script.run_lookup, hans, hasked, Script.events, Script.outcome, hrun]
  rfl

/-! ## Walks with right answers -/

variable (w : Walk) (h : Host) {c : Cache}

def asked (c : Cache) : List Query :=
  (w.script (w.depthOn h c)).asked (Cache.lookup h.answer) c

def askedOn : List Query := (w.script (w.depthOn h .empty)).questions h.answer

theorem run_of_agrees (hc : c.Agrees h.answer) :
    w.run h c = ⟨(w.runOn h).events, (w.runOn h).result, c.lookups h.answer (w.askedOn h)⟩ := by
  have hempty := Cache.answers_of_agrees (Cache.agrees_empty h.answer)
  have hans : c.answers h.answer = Cache.empty.answers h.answer := by
    rw [hempty, Cache.answers_of_agrees hc]
  rw [w.run_of_extends c.extends_empty hans le_rfl, hempty]
  rfl

/-- On a host a walk is the same at any depth that is enough. -/
theorem runOn_eq_of_le {depth : Nat} (hdepth : w.depthOn h .empty ≤ depth) :
    w.runOn h = (w.script depth).runWith h.answer := by
  have hrun := w.runWith_eq_of_depthOn_le h .empty le_rfl hdepth
  rw [Cache.answers_of_agrees (Cache.agrees_empty h.answer)] at hrun
  exact hrun

theorem asked_of_agrees (hc : c.Agrees h.answer) : w.asked h c = w.askedOn h := by
  have hempty := Cache.answers_of_agrees (Cache.agrees_empty h.answer)
  have hdepth := w.depthOn_le_of_extends h c.extends_empty
  have hsame := w.questions_eq_of_depthOn_le h .empty hdepth le_rfl
  rw [hempty] at hsame
  rw [asked, Script.asked_lookup, Cache.answers_of_agrees hc, hsame, askedOn]

theorem answered_of_askedOn (hnull : (w.runOn h).result ≠ .error .null) :
    ∀ q ∈ w.askedOn h, ∃ a, h.answer q = .ok a :=
  Script.answered_of_questions hnull

end Walk

end PathGlob
