import PathGlob.Proofs.Lookup.Memo
import PathGlob.Proofs.Walk.Trail

/-!
# The depth of walks

A budget says how deep globstars can be inside each other. Within a budget a walk fails only where
a null character is looked up, the root is no directory or the root cannot be listed; and a walk
that is not too deep is the same for all greater depths.
-/
namespace PathGlob

@[simp] def Segment.isGlobstar : Segment → Bool
  | .globstar => true
  | _ => false

namespace Walk

def globstars (segs : List Segment) : Nat := segs.countP Segment.isGlobstar

theorem globstars_cons (s : Segment) (segs : List Segment) :
    globstars (s :: segs) = globstars segs + if s.isGlobstar then 1 else 0 := List.countP_cons

/-- Bounds for the depth of globstars inside each other, where `n` more of them are ahead. -/
structure Budget (w : Walk) (o : Oracle) where
  ahead : (n : Nat) → Chain → Nat
  /-- With one globstar at a directory. -/
  inside : (n : Nat) → Chain → String → Nat
  inside_le : ∀ n chain dir, inside n chain dir ≤ ahead (n + 1) chain
  ahead_lt : ∀ n chain dir, ahead n chain < inside n chain dir
  ahead_below : ∀ n chain below dir, w.chainBelow o chain dir = some below →
    ahead n below ≤ ahead n chain
  inside_below : ∀ n chain below dir e, w.chainBelow o chain dir = some below →
    e ∈ o.entries dir → e.isDir = true → w.descends e = true →
    inside n below (Path.child dir e.name.text) < inside n chain dir

/-- What keeps a walk over the paths `P` within the failures that are allowed. -/
structure Passable (w : Walk) (o : Oracle) (allowed : RunError → Prop) (P : String → Prop) :
    Prop where
  asked : ∀ q : Query, P q.path → (∀ p, q = .realpath p → w.options.realpath = true) →
    ∀ e, o q = .error e → allowed .null
  named : ∀ dir (n : Name), P dir → P (Path.child dir n.text)
  root : P w.root → ∀ e, o (.list w.root) = .ok (.error e) → allowed (.walk (.unreadable w.root e))

variable {w : Walk} {o : Oracle} {allowed : RunError → Prop} {P : String → Prop} {path : String}

/-! ## Failures -/

theorem failsOnly_whetherDirectory (hw : w.Passable o allowed P) (known : Option Bool)
    (hp : P path) : (whetherDirectory known path).FailsOnly o allowed := by
  cases known with
  | some d => exact Script.failsOnly_done d
  | none =>
    exact Script.failsOnly_ask (hw.asked (.stat path) hp (by simp)) fun _ _ =>
      Script.failsOnly_done _

theorem failsOnly_entries (hw : w.Passable o allowed P) (hp : P path) :
    (w.entries path).FailsOnly o allowed := by
  refine Script.failsOnly_ask (hw.asked (.list path) hp (by simp)) fun a ha => ?_
  cases a with
  | ok es => exact Script.failsOnly_done _
  | error e =>
    by_cases hroot : path = w.root
    · subst hroot
      simp only [if_true]
      exact Script.failsOnly_fail (hw.root hp e ha)
    · simp only [hroot, if_false]
      exact Script.failsOnly_report (Script.failsOnly_done _)

theorem failsOnly_display (hw : w.Passable o allowed P) (hp : P path) (rel : String)
    (isDir : Bool) : (w.display path rel isDir).FailsOnly o allowed := by
  unfold display
  split_ifs with hreal
  · exact Script.failsOnly_ask (hw.asked (.realpath path) hp fun _ _ => hreal) fun _ _ =>
      Script.failsOnly_done _
  · exact Script.failsOnly_done _
  · exact Script.failsOnly_done _

theorem failsOnly_found (hw : w.Passable o allowed P) (known : Option Bool) (hp : P path)
    (out : List String) : (w.found known path out).FailsOnly o allowed := by
  unfold found
  by_cases hrel : spell out = ""
  · simp only [hrel, if_true]
    exact Script.failsOnly_done _
  simp only [hrel, if_false]
  refine Script.failsOnly_bind (failsOnly_whetherDirectory hw known hp) fun d _ => ?_
  split_ifs
  · exact Script.failsOnly_done _
  refine Script.failsOnly_bind (failsOnly_display hw hp _ _) fun r _ => ?_
  cases r with
  | some result => exact Script.failsOnly_report (Script.failsOnly_done _)
  | none => exact Script.failsOnly_done _

theorem failsOnly_descend (hw : w.Passable o allowed P) {isLast : Bool}
    {next : String → List String → Script Unit} (known : Option Bool) (hp : P path)
    {out : List String} (hnext : (next path out).FailsOnly o allowed) :
    (w.descend isLast next known path out).FailsOnly o allowed := by
  unfold descend
  split_ifs
  · exact failsOnly_found hw known hp out
  · refine Script.failsOnly_bind (failsOnly_whetherDirectory hw known hp) fun d _ => ?_
    split_ifs
    · exact hnext
    · exact Script.failsOnly_done _

theorem failsOnly_anchor (hw : w.Passable o allowed P) {rest : List Segment}
    {next : String → List String → Script Unit} (hp : P path) {out : List String}
    (hnext : (next path out).FailsOnly o allowed) :
    (w.anchor rest next path out).FailsOnly o allowed := by
  unfold anchor
  cases rest with
  | nil =>
    by_cases hout : out = []
    · simp only [hout, if_true]
      exact Script.failsOnly_done _
    · simp only [hout, if_false]
      exact failsOnly_found hw _ hp out
  | cons first rest =>
    by_cases hout : (out = [] && first.isEmpty) = true
    · simp only [hout, if_true]
      exact Script.failsOnly_done _
    · simp only [hout, Bool.false_eq_true, if_false]
      exact hnext

theorem failsOnly_enter (hw : w.Passable o allowed P) (chain : Chain) (hp : P path) :
    (w.enter chain path).FailsOnly o allowed := by
  unfold enter
  split_ifs
  · refine Script.failsOnly_bind ?_ fun _ _ => Script.failsOnly_done _
    exact Script.failsOnly_ask (hw.asked (.stat path) hp (by simp)) fun _ _ =>
      Script.failsOnly_done _
  · exact Script.failsOnly_done _

theorem failsOnly_pass (hw : w.Passable o allowed P) {rest : List Segment}
    {deeper next : String → List String → Script Unit} (hp : P path) {out : List String}
    {e : Entry}
    (hdeeper : e.isDir = true → w.descends e = true →
      (deeper (Path.child path e.name.text) (out ++ [e.name.text])).FailsOnly o allowed)
    (hnext : (next (Path.child path e.name.text) (out ++ [e.name.text])).FailsOnly o allowed) :
    (w.pass rest deeper next path out e).FailsOnly o allowed := by
  by_cases visible : e.name.text.toList.head? = some '.' → w.options.dot = true
  swap
  · rw [pass_of_hidden visible]
    exact Script.failsOnly_done _
  cases way : e.isDir && w.descends e with
  | true =>
    obtain ⟨hdir, hdown⟩ := Bool.and_eq_true_iff.mp way
    rw [pass_of_inner visible way]
    split_ifs
    · exact Script.failsOnly_done _
    · exact hdeeper hdir hdown
  | false =>
    rw [pass_of_final visible way]
    exact failsOnly_descend hw _ (hw.named path e.name hp) hnext

theorem failsOnly_globstar (hw : w.Passable o allowed P) (B : w.Budget o) {n : Nat}
    {rest : List Segment} {next : Nat → Chain → String → List String → Script Unit}
    (hnext : ∀ depth chain path out, B.ahead n chain ≤ depth → P path →
      (next depth chain path out).FailsOnly o allowed)
    (depth : Nat) (chain : Chain) (dir : String) (out : List String)
    (hdepth : B.inside n chain dir ≤ depth) (hp : P dir) :
    (w.globstar rest next depth chain dir out).FailsOnly o allowed := by
  induction depth generalizing chain dir out with
  | zero =>
    have hpos := B.ahead_lt n chain dir
    omega
  | succ depth ih =>
    rw [globstar]
    have hahead : B.ahead n chain ≤ depth := by
      have hlt := B.ahead_lt n chain dir
      omega
    refine Script.failsOnly_bind (failsOnly_anchor hw hp (hnext _ _ _ _ hahead hp)) fun _ _ => ?_
    refine Script.failsOnly_bind (failsOnly_enter hw chain hp) fun below hbelow => ?_
    have hchain := outcome_enter hbelow
    cases below with
    | none => exact Script.failsOnly_report (Script.failsOnly_done _)
    | some below =>
      refine Script.failsOnly_bind (failsOnly_entries hw hp) fun es hes => ?_
      have hlisted := outcome_entries hes
      refine Script.failsOnly_each fun e he => failsOnly_pass hw hp (fun hdir hdown => ?_) ?_
      · have hlt := B.inside_below n chain below dir e hchain (hlisted ▸ he) hdir hdown
        exact ih below _ _ (by omega) (hw.named dir e.name hp)
      · have hle := B.ahead_below n chain below dir hchain
        exact hnext _ _ _ _ (hle.trans hahead) (hw.named dir e.name hp)

/-- Within a budget a walk over segments fails only as the lookups of its paths do. -/
theorem failsOnly_lay (hw : w.Passable o allowed P) (B : w.Budget o) (segs : List Segment)
    (hlit : ∀ text name, .literal text name ∈ segs → ∀ dir, P dir → P (Path.child dir name))
    (depth : Nat) (chain : Chain) (dir : String) (out : List String)
    (hdepth : B.ahead (globstars segs) chain ≤ depth) (hp : P dir) :
    (w.lay segs depth chain dir out).FailsOnly o allowed := by
  induction segs generalizing depth chain dir out with
  | nil =>
    rw [lay]
    exact failsOnly_found hw none hp out
  | cons first rest ih =>
    have hrest : ∀ text name, .literal text name ∈ rest → ∀ dir, P dir → P (Path.child dir name) :=
      fun text name hmem => hlit text name (List.mem_cons_of_mem _ hmem)
    cases first with
    | empty =>
      rw [lay]
      refine Script.failsOnly_bind (failsOnly_whetherDirectory hw none hp) fun d _ => ?_
      split_ifs
      · exact ih hrest _ _ _ _ hdepth hp
      · exact Script.failsOnly_done _
    | literal text name =>
      rw [lay]
      have hchild := hlit text name (by simp) dir hp
      refine Script.failsOnly_bind (Script.failsOnly_ask
        (hw.asked (.lstat _) hchild (by simp)) fun _ _ => Script.failsOnly_done _) fun d _ => ?_
      split_ifs
      · exact failsOnly_descend hw none hchild (ih hrest _ _ _ _ hdepth hchild)
      · exact Script.failsOnly_done _
    | magic text mode tokens =>
      rw [lay]
      refine Script.failsOnly_bind (failsOnly_entries hw hp) fun es _ => ?_
      refine Script.failsOnly_each fun e _ => ?_
      have hchild := hw.named dir e.name hp
      dsimp only
      split_ifs
      · exact failsOnly_descend hw _ hchild (ih hrest _ _ _ _ hdepth hchild)
      · exact Script.failsOnly_done _
    | globstar =>
      rw [lay]
      have hcount : globstars (.globstar :: rest) = globstars rest + 1 := globstars_cons _ _
      rw [hcount] at hdepth
      exact failsOnly_globstar hw B (fun d c p out hd hp => ih hrest d c p out hd hp) depth chain
        dir out ((B.inside_le _ _ _).trans hdepth) hp

theorem failsOnly_script (hw : w.Passable o allowed P) (B : w.Budget o)
    (hnot : o.isDirectory w.root = false → allowed (.walk (.notDirectory w.root)))
    (hlit : ∀ text name, .literal text name ∈ w.ahead → ∀ dir, P dir → P (Path.child dir name))
    {depth : Nat} (hdepth : B.ahead (globstars w.ahead) [] ≤ depth) (hp : P w.root) :
    (w.script depth).FailsOnly o allowed := by
  rw [script_eq]
  refine Script.failsOnly_bind (failsOnly_whetherDirectory hw none hp) fun d hd => ?_
  cases d with
  | true => exact failsOnly_lay hw B w.ahead hlit depth [] w.root _ hdepth hp
  | false => exact Script.failsOnly_fail (hnot (outcome_isDirectory hd))

end Walk

/-! ## Greater depths -/

namespace Script

variable {α β : Type}

/-- The second script goes on where the first is too deep, and else they are the same. -/
inductive Deepens : Script α → Script α → Prop
  | deeper (t : Script α) : Deepens (.fail .tooDeep) t
  | done (a : α) : Deepens (.done a) (.done a)
  | fail (e : WalkError) : Deepens (.fail e) (.fail e)
  | report (e : Event) {s t : Script α} (next : Deepens s t) :
      Deepens (.report e s) (.report e t)
  | ask (q : Query) {s t : q.Answer → Script α} (next : ∀ a, Deepens (s a) (t a)) :
      Deepens (.ask q s) (.ask q t)

theorem Deepens.refl (s : Script α) : s.Deepens s := by
  induction s with
  | done a => exact .done a
  | fail e => exact .fail e
  | report e next ih => exact .report e ih
  | ask q next ih => exact .ask q ih

theorem Deepens.bind {s t : Script α} {f g : α → Script β} (hs : s.Deepens t)
    (hf : ∀ a, (f a).Deepens (g a)) : (s.bind f).Deepens (t.bind g) := by
  induction hs with
  | deeper t => exact .deeper _
  | done a => exact hf a
  | fail e => exact .fail e
  | report e next ih => exact .report e ih
  | ask q next ih => exact .ask q ih

theorem Deepens.each {as : List α} {f g : α → Script Unit} (h : ∀ a, (f a).Deepens (g a)) :
    (Script.each as f).Deepens (Script.each as g) := by
  induction as with
  | nil => exact .refl _
  | cons a as ih => exact (h a).bind fun _ => ih

variable {σ : Type} {answer : (q : Query) → σ → Except NullInPath q.Answer × σ}

theorem Deepens.run_eq {s t : Script α} (h : s.Deepens t) {st : σ}
    (hs : (s.run answer st).result ≠ .error (.walk .tooDeep)) :
    t.run answer st = s.run answer st := by
  induction h generalizing st with
  | deeper t => exact absurd rfl hs
  | done a => rfl
  | fail e => rfl
  | report e next ih =>
    rw [run] at hs
    rw [run, run, ih hs]
  | ask q next ih =>
    rw [run] at hs
    rw [run, run]
    rcases hq : answer q st with ⟨a | a, st'⟩
    · rfl
    · rw [hq] at hs
      exact ih a hs

theorem Deepens.asked_eq {s t : Script α} (h : s.Deepens t) {st : σ}
    (hs : (s.run answer st).result ≠ .error (.walk .tooDeep)) :
    t.asked answer st = s.asked answer st := by
  induction h generalizing st with
  | deeper t => exact absurd rfl hs
  | done a => rfl
  | fail e => rfl
  | report e next ih =>
    rw [run] at hs
    exact ih hs
  | ask q next ih =>
    rw [run] at hs
    rw [asked, asked]
    rcases hq : answer q st with ⟨a | a, st'⟩
    · rfl
    · rw [hq] at hs
      simp only [ih a hs]

end Script

namespace Walk

variable {w : Walk}

theorem deepens_descend {isLast : Bool} {next next' : String → List String → Script Unit}
    (h : ∀ path out, (next path out).Deepens (next' path out)) (known : Option Bool)
    (path : String) (out : List String) :
    (w.descend isLast next known path out).Deepens (w.descend isLast next' known path out) := by
  unfold descend
  split_ifs
  · exact .refl _
  · refine (Script.Deepens.refl _).bind fun d => ?_
    split_ifs
    · exact h path out
    · exact .refl _

theorem deepens_anchor {rest : List Segment} {next next' : String → List String → Script Unit}
    (h : ∀ path out, (next path out).Deepens (next' path out)) (dir : String)
    (out : List String) : (w.anchor rest next dir out).Deepens (w.anchor rest next' dir out) := by
  unfold anchor
  cases rest with
  | nil => exact .refl _
  | cons first rest =>
    by_cases hout : (out = [] && first.isEmpty) = true
    · simp only [hout, if_true]
      exact .refl _
    · simp only [hout, Bool.false_eq_true, if_false]
      exact h dir out

theorem deepens_pass {rest : List Segment}
    {deeper deeper' next next' : String → List String → Script Unit}
    (hdeeper : ∀ path out, (deeper path out).Deepens (deeper' path out))
    (hnext : ∀ path out, (next path out).Deepens (next' path out)) (dir : String)
    (out : List String) (e : Entry) :
    (w.pass rest deeper next dir out e).Deepens (w.pass rest deeper' next' dir out e) := by
  by_cases visible : e.name.text.toList.head? = some '.' → w.options.dot = true
  swap
  · rw [pass_of_hidden visible, pass_of_hidden visible]
    exact .refl _
  cases way : e.isDir && w.descends e with
  | true =>
    rw [pass_of_inner visible way, pass_of_inner visible way]
    split_ifs
    · exact .refl _
    · exact hdeeper _ _
  | false =>
    rw [pass_of_final visible way, pass_of_final visible way]
    exact deepens_descend hnext _ _ _

theorem deepens_globstar {rest : List Segment}
    {next : Nat → Chain → String → List String → Script Unit}
    (hnext : ∀ {depth depth' : Nat}, depth ≤ depth' → ∀ chain dir out,
      (next depth chain dir out).Deepens (next depth' chain dir out))
    {depth depth' : Nat} (h : depth ≤ depth') (chain : Chain) (dir : String) (out : List String) :
    (w.globstar rest next depth chain dir out).Deepens
      (w.globstar rest next depth' chain dir out) := by
  induction depth generalizing depth' chain dir out with
  | zero => exact .deeper _
  | succ depth ih =>
    obtain ⟨depth', rfl⟩ := Nat.exists_eq_succ_of_ne_zero (n := depth') (by omega)
    have hle : depth ≤ depth' := by omega
    rw [globstar, globstar]
    refine (deepens_anchor (hnext hle chain) dir out).bind fun _ => ?_
    refine (Script.Deepens.refl _).bind fun below => ?_
    cases below with
    | none => exact .refl _
    | some below =>
      refine (Script.Deepens.refl _).bind fun es => .each fun e => ?_
      exact deepens_pass (ih hle below) (hnext hle below) dir out e

theorem deepens_lay (segs : List Segment) {depth depth' : Nat} (h : depth ≤ depth')
    (chain : Chain) (dir : String) (out : List String) :
    (w.lay segs depth chain dir out).Deepens (w.lay segs depth' chain dir out) := by
  induction segs generalizing depth depth' chain dir out with
  | nil =>
    rw [lay, lay]
    exact .refl _
  | cons first rest ih =>
    cases first with
    | empty =>
      rw [lay, lay]
      refine (Script.Deepens.refl _).bind fun d => ?_
      split_ifs
      · exact ih h _ _ _
      · exact .refl _
    | literal text name =>
      rw [lay, lay]
      refine (Script.Deepens.refl _).bind fun d => ?_
      split_ifs
      · exact deepens_descend (ih h chain) _ _ _
      · exact .refl _
    | magic text mode tokens =>
      rw [lay, lay]
      refine (Script.Deepens.refl _).bind fun es => .each fun e => ?_
      dsimp only
      split_ifs
      · exact deepens_descend (ih h chain) _ _ _
      · exact .refl _
    | globstar =>
      rw [lay, lay]
      exact deepens_globstar (fun h' c d o => ih h' c d o) h chain dir out

/-- A greater depth changes nothing in a walk that is not too deep. -/
theorem deepens_script {depth depth' : Nat} (h : depth ≤ depth') :
    (w.script depth).Deepens (w.script depth') := by
  rw [script_eq, script_eq]
  refine (Script.Deepens.refl _).bind fun d => ?_
  cases d with
  | true => exact deepens_lay w.ahead h [] _ _
  | false => exact .refl _

end Walk

end PathGlob
