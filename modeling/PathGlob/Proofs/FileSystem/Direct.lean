import PathGlob.Proofs.FileSystem.Canonical
import PathGlob.Proofs.FileSystem.Rooted

/-!
# Ways without links

A journey that is not strict ends unless it meets a link that leads back to itself. No link is left
where it arrives: however many links are allowed, they do not keep what is spelled there from being
looked up.
-/
namespace PathGlob

/-! ## Normal forms -/

namespace Path

variable {done cs : List String} {dir p : String}

theorem isAbsolute_tidy (hp : isAbsolute p = true) : isAbsolute (tidy p) = true := by
  unfold tidy
  rcases leadingSlashes_of_absolute hp with hk | hk <;>
    simp [hk, isAbsolute, List.replicate]

theorem foldl_climb_names (h : ∀ c ∈ cs, EntryName c) (done : List String) :
    cs.foldl (climb true) done = done ++ cs := by
  induction cs generalizing done with
  | nil => simp
  | cons c cs ih =>
    obtain ⟨hc, hcs⟩ := List.forall_mem_cons.mp h
    rw [List.foldl_cons, climb_proper _ hc.proper, ih hcs, List.append_assoc]
    rfl

theorem foldl_climb_ups (loc : Location) (k : Nat) :
    (List.replicate k "..").foldl (climb true) (loc.map Name.text) =
      (loc.take (loc.length - k)).map Name.text := by
  induction k generalizing loc with
  | zero => simp
  | succ k ih =>
    have hproper : ∀ c ∈ loc.map Name.text, Proper c := by
      intro c hc
      obtain ⟨n, -, rfl⟩ := List.mem_map.mp hc
      exact (entryName_name n).proper
    rw [List.replicate_succ, List.foldl_cons, climb_up hproper, ← List.map_dropLast, ih,
      List.dropLast_eq_take, List.take_take, List.length_take]
    congr 2
    omega

theorem foldl_climb_intercalate (done : List String) (h : ∀ c ∈ cs, '/' ∉ c.toList) :
    (components ("/".intercalate cs)).foldl (climb true) done = cs.foldl (climb true) done := by
  by_cases hnil : cs = []
  · subst hnil
    exact climb_stay done (.inl rfl)
  · rw [components_intercalate hnil h]

theorem climbed_join (hdir : dir ≠ "") (hp : isAbsolute p = false) :
    climbed (components (join dir p)) =
      (components p).foldl (climb true) (climbed (components dir)) := by
  have hjoin : join dir p = child dir p := by simp [join, child, hp, hdir]
  rw [hjoin]
  rcases child_cases dir with hchild | ⟨d, rfl, hchild⟩
  · rw [hchild, components_append, climbed, List.foldl_append]
    rfl
  · rw [hchild, components_append, components_slash, climbed_concat, climb_stay _ (.inl rfl),
      climbed, List.foldl_append]
    rfl

end Path

/-! ## Components -/

namespace FileSystem

variable {fs : FileSystem} {here : Location} {xs : List String} {c : String}

/-- No link is followed on the way through components: they lead to a place, or nowhere, whatever
is behind them and however many links are allowed. -/
inductive Direct (fs : FileSystem) (here : Location) (xs : List String) : Prop
  | leads (loc : Location)
      (behind : ∀ f links ys, fs.resolve f links here (xs ++ ys) = fs.resolve f links loc ys)
  | stops (fault : Fault) (hloop : fault ≠ .linkLoop)
      (behind : ∀ f links ys, fs.resolve f links here (xs ++ ys) = .error fault)

theorem Direct.nil : fs.Direct here [] := .leads here fun _ _ _ => rfl

theorem Direct.not_loop (hd : fs.Direct here xs) (f : Bool) (links : Nat) :
    fs.resolve f links here xs ≠ .error .linkLoop := by
  cases hd with
  | leads loc behind =>
    have hloc := behind f links []
    rw [List.append_nil, resolve_nil] at hloc
    simp [hloc]
  | stops fault hloop behind =>
    have hstop := behind f links []
    rw [List.append_nil] at hstop
    simpa [hstop] using hloop

/-- A component behind such a way goes on like it, unless it names a link. -/
theorem Direct.concat (hd : fs.Direct here xs)
    (hlink : Path.Proper c → ∀ link target,
      fs.resolve false maxLinks here (xs ++ [c]) = .ok link → fs.node? link ≠ some (.link target)) :
    fs.Direct here (xs ++ [c]) := by
  cases hd with
  | stops fault hloop behind =>
    exact .stops fault hloop fun f links ys => by rw [List.append_assoc, behind]
  | leads loc behind =>
    have hback : ∀ f links ys, fs.resolve f links here (xs ++ [c] ++ ys) =
        fs.resolve f links loc (c :: ys) := fun f links ys => by
      rw [List.append_assoc, behind, List.singleton_append]
    cases fs.turn loc c with
    | goes there hgoes =>
      exact .leads there fun f links ys => (hback f links ys).trans (hgoes f links ys)
    | stops fault noLoop closed hstops =>
      exact .stops fault noLoop fun f links ys => (hback f links ys).trans (hstops f links ys)
    | link n target proper node hfollows =>
      have hto : fs.resolve false maxLinks here (xs ++ [c]) = .ok (loc ++ [n]) := by
        rw [← List.append_nil (xs ++ [c]), hback, hfollows]
        simp
      exact absurd node (hlink ⟨proper.1, proper.2.1, proper.2.2⟩ _ target hto)

/-! ## Directories -/

theorem resolve_cons_ne_denied (hsearch : fs.Searchable) {f : Bool} {links : Nat}
    {rest : List String} (honward : ∀ start xs, fs.onward f links start xs ≠ .error .denied)
    (ih : ∀ here, fs.resolve f links here rest ≠ .error .denied) :
    fs.resolve f links here (c :: rest) ≠ .error .denied := by
  cases fs.turn here c with
  | goes there behind =>
    rw [behind]
    exact ih there
  | stops fault noLoop closed behind =>
    rw [behind]
    rintro ⟨⟩
    obtain ⟨access, hnode, hno⟩ := closed rfl
    rw [hsearch here access hnode] at hno
    cases hno
  | link n target proper node behind =>
    rw [behind]
    split_ifs
    · simp
    · exact honward _ _
    · exact honward _ _

/-- Where names may be looked up in all directories, no lookup is kept from them. -/
theorem resolve_ne_denied (hsearch : fs.Searchable) (f : Bool) (links : Nat) (here : Location)
    (cs : List String) : fs.resolve f links here cs ≠ .error .denied := by
  induction links generalizing here cs with
  | zero =>
    induction cs generalizing here with
    | nil => simp [resolve_nil]
    | cons c rest ih => exact resolve_cons_ne_denied hsearch (by simp [onward]) ih
  | succ links ihl =>
    induction cs generalizing here with
    | nil => simp [resolve_nil]
    | cons c rest ih => exact resolve_cons_ne_denied hsearch ihl ih

theorem resolve_into (hsearch : fs.Searchable) {loc : Location} {n : Name} {access child : Access}
    (hnode : fs.node? loc = some (.directory access))
    (hchild : fs.node? (loc ++ [n]) = some (.directory child))
    (f : Bool) (links : Nat) (ys : List String) :
    fs.resolve f links loc (n.text :: ys) = fs.resolve f links (loc ++ [n]) ys := by
  rw [resolve_name_cons f links hnode, hsearch loc access hnode, hchild]
  rfl

theorem resolve_down (hsearch : fs.Searchable) {loc : Location}
    (hdirs : ∀ dir, dir <+: loc → ∃ access, fs.node? dir = some (.directory access))
    (f : Bool) (links : Nat) (ys : List String) :
    fs.resolve f links [] (loc.map Name.text ++ ys) = fs.resolve f links loc ys := by
  induction loc using List.reverseRecOn generalizing ys with
  | nil => rfl
  | append_singleton loc n ih =>
    obtain ⟨access, hnode⟩ := hdirs loc (List.prefix_append _ _)
    obtain ⟨access', hchild⟩ := hdirs (loc ++ [n]) (List.prefix_refl _)
    rw [List.map_append, List.append_assoc, ih fun dir hdir =>
      hdirs dir (hdir.trans (List.prefix_append _ _))]
    exact resolve_into hsearch hnode hchild f links ys

theorem resolve_ups (hsearch : fs.Searchable) {loc : Location}
    (hdirs : ∀ dir, dir <+: loc → ∃ access, fs.node? dir = some (.directory access))
    (k : Nat) (f : Bool) (links : Nat) (ys : List String) :
    fs.resolve f links loc (List.replicate k ".." ++ ys) =
      fs.resolve f links (loc.take (loc.length - k)) ys := by
  induction k generalizing loc with
  | zero => simp
  | succ k ih =>
    obtain ⟨access, hnode⟩ := hdirs loc (List.prefix_refl _)
    rw [List.replicate_succ, List.cons_append, resolve_up hsearch hnode, ih fun dir hdir =>
      hdirs dir (hdir.trans (List.dropLast_prefix _)), List.dropLast_eq_take, List.take_take,
      List.length_take]
    congr 2
    omega

end FileSystem

/-! ## Spellings -/

namespace Spelling

variable {s : Spelling} {k : Nat} {names : List String}

/-- Double dots with names behind them; in front of what is rooted there are no double dots. -/
structure Spelled (s : Spelling) (k : Nat) (names : List String) : Prop where
  parts : s.parts = List.replicate k ".." ++ names
  names : ∀ c ∈ names, Path.EntryName c
  rooted : s.rooted = true → k = 0

theorem Spelled.push (hs : s.Spelled k names) {c : String} (hc : Path.EntryName c) :
    (s.push c).Spelled k (names ++ [c]) :=
  ⟨by simp [Spelling.push, hs.parts], List.forall_mem_append.mpr ⟨hs.names, by simpa using hc⟩,
    hs.rooted⟩

theorem up_of_name {cs : List String} {c : String} (hparts : s.parts = cs ++ [c]) (hc : c ≠ "..") :
    s.up = { s with parts := cs } := by
  simp [Spelling.up, hparts, hc]

theorem Spelled.up (hs : s.Spelled k names) : ∃ k' names', s.up.Spelled k' names' := by
  rcases List.eq_nil_or_concat names with rfl | ⟨names, c, rfl⟩
  · have hparts : s.parts = List.replicate k ".." := by simpa using hs.parts
    cases hrooted : s.rooted with
    | true =>
      obtain rfl := hs.rooted hrooted
      exact ⟨0, [], by simp [Spelling.up, hrooted, hparts], by simp, fun _ => rfl⟩
    | false =>
      have hup : s.up = s.push ".." := by
        cases k <;> simp [Spelling.up, hrooted, hparts, List.getLast?_replicate]
      refine ⟨k + 1, [], ?_, by simp, ?_⟩
      · simp [hup, Spelling.push, hparts, List.replicate_succ']
      · simp [hup, Spelling.push, hrooted]
  · rw [List.concat_eq_append] at hs
    have hnames := List.forall_mem_append.mp hs.names
    have hc : c ≠ ".." := (hnames.2 c (by simp)).proper.ne_up
    rw [up_of_name (hs.parts.trans (List.append_assoc _ _ _).symm) hc]
    exact ⟨k, names, rfl, hnames.1, hs.rooted⟩

theorem Spelled.slashless (hs : s.Spelled k names) : ∀ c ∈ s.parts, '/' ∉ c.toList := by
  rw [hs.parts]
  refine List.forall_mem_append.mpr ⟨fun c hc => ?_, fun c hc => (hs.names c hc).slashless⟩
  rw [List.eq_of_mem_replicate hc]
  decide

theorem Spelled.relative (hs : s.Spelled k names) :
    Path.isAbsolute ("/".intercalate s.parts) = false := by
  have hslash := hs.slashless
  have hne : ∀ c ∈ s.parts, c ≠ "" := by
    rw [hs.parts]
    refine List.forall_mem_append.mpr ⟨fun c hc => ?_, fun c hc => (hs.names c hc).proper.ne_empty⟩
    rw [List.eq_of_mem_replicate hc]
    decide
  cases hparts : s.parts with
  | nil => rfl
  | cons c cs =>
    rw [hparts] at hslash hne
    exact Path.not_isAbsolute_intercalate (hne c List.mem_cons_self)
      (hslash c List.mem_cons_self) cs

theorem up_rooted (s : Spelling) : s.up.rooted = s.rooted := by
  unfold Spelling.up
  split_ifs <;> rfl

theorem base_rooted (target : String) (hs : s.rooted = true) : (s.base target).rooted = true := by
  unfold Spelling.base
  split_ifs
  · rfl
  · exact hs

end Spelling

/-! ## Journeys -/

namespace Host

variable {h : Host} {here s : Spelling} {c : String} {cs : List String} {node : Node}

def origin (h : Host) (s : Spelling) : Location :=
  if s.rooted then [] else Location.ofText h.cwd

theorem peek_eq_ok : h.peek s = .ok node ↔
    ∃ loc, h.files.resolve false maxLinks (h.origin s) s.parts = .ok loc ∧
      h.files.node? loc = some node := by
  unfold peek origin
  cases hloc : h.files.resolve false maxLinks
      (if s.rooted then [] else Location.ofText h.cwd) s.parts with
  | error f => simp [bind, Except.bind]
  | ok loc => cases hn : h.files.node? loc <;> simp [hn, bind, Except.bind, pure, Except.pure]

structure Clear (h : Host) (s : Spelling) : Prop where
  spelled : ∃ k names, s.Spelled k names
  direct : ∀ xs, xs <+: s.parts → h.files.Direct (h.origin s) xs

theorem clear_start (h : Host) (rooted : Bool) : h.Clear ⟨rooted, []⟩ :=
  ⟨⟨0, [], rfl, by simp, fun _ => rfl⟩, fun xs hxs => by
    rw [List.prefix_nil.mp hxs]
    exact .nil⟩

theorem Clear.base (hs : h.Clear s) (target : String) : h.Clear (s.base target) := by
  unfold Spelling.base
  split_ifs
  · exact h.clear_start true
  · exact hs

theorem Clear.direct_push (hs : h.Clear s)
    (hlink : Path.Proper c → ∀ target, h.peek (s.push c) ≠ .ok (.link target)) :
    ∀ xs, xs <+: (s.push c).parts → h.files.Direct (h.origin s) xs := by
  intro xs hxs
  rcases List.prefix_concat_iff.mp hxs with rfl | hxs
  · refine (hs.direct s.parts (List.prefix_refl _)).concat fun hc link target hto hat => ?_
    exact hlink hc target (peek_eq_ok.mpr ⟨link, hto, hat⟩)
  · exact hs.direct xs hxs

theorem Clear.push (hs : h.Clear s) (hc : Path.EntryName c)
    (hlink : ∀ target, h.peek (s.push c) ≠ .ok (.link target)) : h.Clear (s.push c) := by
  obtain ⟨k, names, hspelled⟩ := hs.spelled
  exact ⟨⟨k, _, hspelled.push hc⟩, hs.direct_push fun _ => hlink⟩

theorem Clear.up (hs : h.Clear s) : h.Clear s.up := by
  obtain ⟨k, names, hspelled⟩ := hs.spelled
  refine ⟨hspelled.up, ?_⟩
  rw [origin, Spelling.up_rooted, ← origin]
  unfold Spelling.up
  split_ifs
  · exact fun xs hxs => hs.direct xs (hxs.trans (List.dropLast_prefix _))
  · exact hs.direct_push fun hup => absurd rfl hup.ne_up
  · exact fun xs hxs => hs.direct xs (hxs.trans (List.dropLast_prefix _))

/-- How a journey ends that is not strict: it arrives where no link is left, or in a loop. -/
inductive Ends (h : Host) (rooted : Bool) : Except CanonicalError Journey → Prop
  | arrived {there : Spelling} (clear : h.Clear there)
      (stays : rooted = true → there.rooted = true) : Ends h rooted (.ok (.arrived there))
  | looped (link : Spelling) : Ends h rooted (.ok (.looped link))

theorem Ends.mono {rooted rooted' : Bool} {way : Except CanonicalError Journey}
    (hends : h.Ends rooted way) (hrooted : rooted' = true → rooted = true) :
    h.Ends rooted' way := by
  cases hends with
  | arrived clear stays => exact .arrived clear fun hroot => stays (hrooted hroot)
  | looped link => exact .looped link

/-- Components of paths in which there are no null characters. -/
def Sound (cs : List String) : Prop := ∀ c ∈ cs, hasNull c = false ∧ '/' ∉ c.toList

theorem sound_components {p : String} (hp : hasNull p = false) : Sound (Path.components p) :=
  fun _ hc => ⟨hasNull_of_mem_components hp hc, Path.slash_not_mem_of_mem_components hc⟩

theorem ends_travelWith (hfree : h.files.NullFree) {active : List Spelling}
    {onLink : Spelling → Spelling → List String → Except CanonicalError Journey}
    (honward : ∀ link start target, h.Clear start → Sound target →
      h.Ends start.rooted (onLink link start target))
    (hhere : h.Clear here) (hcs : Sound cs) :
    h.Ends here.rooted (h.travelWith false active onLink here cs) := by
  induction cs generalizing here with
  | nil => exact .arrived hhere id
  | cons c rest ih =>
    obtain ⟨⟨hnull, hslash⟩, hrest⟩ := List.forall_mem_cons.mp hcs
    rw [travelWith]
    by_cases hstay : c = "" ∨ c = "."
    · rw [if_pos hstay]
      exact ih hhere hrest
    rw [if_neg hstay]
    by_cases hup : c = ".."
    · rw [if_pos hup, ← here.up_rooted]
      exact ih hhere.up hrest
    rw [if_neg hup, if_neg (by simp [hnull])]
    obtain ⟨hempty, hdot⟩ := not_or.mp hstay
    have hc : Path.EntryName c := ⟨⟨hempty, hdot, hup⟩, hslash⟩
    have hpush : (∀ target, h.peek (here.push c) ≠ .ok (.link target)) →
        h.Ends here.rooted (h.travelWith false active onLink (here.push c) rest) := fun hlink =>
      ih (hhere.push hc hlink) hrest
    dsimp only
    cases hpeek : h.peek (here.push c) with
    | error f => exact hpush (by simp [hpeek])
    | ok node =>
      cases node with
      | directory access => exact hpush (by simp [hpeek])
      | file readable content => exact hpush (by simp [hpeek])
      | link target =>
        dsimp only
        by_cases hactive : here.push c ∈ active
        · rw [if_pos hactive]
          exact .looped _
        rw [if_neg hactive]
        obtain ⟨loc, -, hloc⟩ := peek_eq_ok.mp hpeek
        have hgo := honward (here.push c) _ _ (hhere.base target)
          (sound_components (hfree loc target hloc))
        generalize onLink (here.push c) (here.base target) (Path.components target) = way at hgo
        cases hgo with
        | looped link => exact .looped _
        | @arrived there clear stays =>
          exact (ih clear hrest).mono fun hrooted => stays (Spelling.base_rooted target hrooted)

theorem ends_travel (hfree : h.files.NullFree) (depth : Nat) (active : List Spelling)
    (hhere : h.Clear here) (hcs : Sound cs) :
    h.Ends here.rooted (h.travel false depth active here cs) := by
  induction depth generalizing active here cs with
  | zero => exact ends_travelWith hfree (fun link _ _ _ _ => .looped link) hhere hcs
  | succ depth ih =>
    exact ends_travelWith hfree (fun link _ _ hstart htarget => ih (link :: active) hstart htarget)
      hhere hcs

theorem ends_journey (hfree : h.files.NullFree) {p : String} (hp : hasNull p = false) :
    h.Ends (Path.isAbsolute p) (h.journey false p) :=
  ends_travel hfree h.linkDepth [] (h.clear_start _) (sound_components hp)

/-! ## Lookups of what is spelled -/

/-- The working directory is there, and is spelled from the root by the names of its location. -/
structure Placed (h : Host) : Prop where
  absolute : Path.isAbsolute h.cwd = true
  spelled : Path.climbed (Path.components h.cwd) = (Location.ofText h.cwd).map Name.text
  directories : ∀ dir, dir <+: Location.ofText h.cwd →
    ∃ access, h.files.node? dir = some (.directory access)

def isPlaced (h : Host) : Bool :=
  Path.isAbsolute h.cwd &&
    Path.climbed (Path.components h.cwd) == (Location.ofText h.cwd).map Name.text &&
    (Location.ofText h.cwd).inits.all fun dir =>
      (h.files.node? dir).any fun node => node.kind = .directory

theorem placed_of_isPlaced (h : Host) (hplaced : h.isPlaced = true) : h.Placed := by
  simp only [isPlaced, Bool.and_eq_true, beq_iff_eq, List.all_eq_true, List.mem_inits] at hplaced
  obtain ⟨⟨habsolute, hspelled⟩, hdirs⟩ := hplaced
  refine ⟨habsolute, hspelled, fun dir hdir => ?_⟩
  obtain ⟨node, hnode, hkind⟩ := (Option.any_eq_true _ _).mp (hdirs dir hdir)
  cases node with
  | directory access => exact ⟨access, hnode⟩
  | file readable content => simp [Node.kind] at hkind
  | link target => simp [Node.kind] at hkind

theorem Clear.not_loop_of_rooted (hs : h.Clear s) (hrooted : s.rooted = true) (f : Bool) :
    h.locate f (s.toPath h.cwd) ≠ .error .linkLoop := by
  obtain ⟨k, names, hspelled⟩ := hs.spelled
  obtain rfl := hspelled.rooted hrooted
  have hparts : s.parts = names := by simpa using hspelled.parts
  have hclimbed : Path.climbed (Path.components ("/" ++ "/".intercalate names)) = names := by
    rw [Path.components_of_slash]
    exact (Path.foldl_climb_intercalate _ fun c hc => (hspelled.names c hc).slashless).trans
      (Path.climbed_names fun c hc => (hspelled.names c hc).proper)
  have hdirect := (hs.direct s.parts (List.prefix_refl _)).not_loop f maxLinks
  rw [origin, if_pos hrooted, hparts] at hdirect
  rwa [Spelling.toPath, if_pos hrooted, hparts, locate_normalize (by simp [Path.isAbsolute]),
    hclimbed]

theorem Clear.not_loop_of_placed (hs : h.Clear s) (hsearch : h.files.Searchable)
    (hplaced : h.Placed) (hrooted : s.rooted = false) (f : Bool) :
    h.locate f (s.toPath h.cwd) ≠ .error .linkLoop := by
  obtain ⟨k, names, hspelled⟩ := hs.spelled
  have hrel := hspelled.relative
  let top := (Location.ofText h.cwd).take ((Location.ofText h.cwd).length - k)
  have hdown : h.files.resolve f maxLinks [] (top.map Name.text ++ names) =
      h.files.resolve f maxLinks top names :=
    FileSystem.resolve_down hsearch
      (fun dir hdir => hplaced.directories dir (hdir.trans (List.take_prefix _ _))) f maxLinks names
  have hups : h.files.resolve f maxLinks (Location.ofText h.cwd) (List.replicate k ".." ++ names) =
      h.files.resolve f maxLinks top names :=
    FileSystem.resolve_ups hsearch hplaced.directories k f maxLinks names
  have hdirect := (hs.direct s.parts (List.prefix_refl _)).not_loop f maxLinks
  rw [origin, if_neg (by simp [hrooted]), hspelled.parts, hups, ← hdown] at hdirect
  rwa [Spelling.toPath, if_neg (by simp [hrooted]), Path.absolute,
    locate_normalize (Path.isAbsolute_join hplaced.absolute _),
    Path.climbed_join (Path.ne_empty_of_absolute hplaced.absolute) hrel,
    Path.foldl_climb_intercalate _ hspelled.slashless, hplaced.spelled, hspelled.parts,
    List.foldl_append, Path.foldl_climb_ups, Path.foldl_climb_names hspelled.names]

theorem status_ne_error {f : Bool} {p : String} {fault : Fault} (hto : h.locate f p ≠ .error fault)
    (hfound : fault ≠ .notFound) : h.status f p ≠ .error fault := by
  unfold status
  cases hloc : h.locate f p with
  | error e => simpa [hloc, bind, Except.bind] using hto
  | ok loc =>
    cases hn : h.files.node? loc <;>
      simp [hn, bind, Except.bind, pure, Except.pure, throw, throwThe, MonadExceptOf.throw,
        hfound.symm]

theorem status_ne_denied (hsearch : h.files.Searchable) (f : Bool) (p : String) :
    h.status f p ≠ .error .denied := by
  refine status_ne_error ?_ (by decide)
  unfold locate
  split_ifs
  · simp
  · exact FileSystem.resolve_ne_denied hsearch f maxLinks _ _

/-- What a journey that is not strict arrives at is looked up without following too many links. -/
theorem Clear.status_ne_linkLoop (hs : h.Clear s) (hsearch : h.files.Searchable)
    (hplaced : s.rooted = false → h.Placed) (f : Bool) :
    h.status f (s.toPath h.cwd) ≠ .error .linkLoop := by
  refine status_ne_error ?_ (by decide)
  cases hrooted : s.rooted with
  | true => exact hs.not_loop_of_rooted hrooted f
  | false => exact hs.not_loop_of_placed hsearch (hplaced hrooted) hrooted f

end Host

end PathGlob
