import PathGlob.CommandLine.Request
import PathGlob.Proofs.CommandLine.Words
import PathGlob.Proofs.Settings.Table

/-!
# Precedence

What a command line says overrules what a settings file says, and that overrules the defaults. On a
command line the last word about a switch counts, and all ignore lines.
-/
namespace PathGlob

theorem Flag.get_options (r : CommandLine.Request) (lines : List String) (f : Flag) :
    f.get (r.options lines) = r.flags f := by
  cases f <;> rfl

namespace CommandLine

variable {words ws ws' : List (String × Word)} {r r' : Reading} {os : List Occurrence}

/-! ## What words say -/

def switches (f : Flag) (words : List (String × Word)) : List Bool :=
  words.filterMap fun
    | (_, .option (.flag g b)) => if g = f then some b else none
    | _ => none

/-- The values that stand behind the option for ignore lines, or are attached to it, in order. -/
def ignoreValues : List (String × Word) → List String
  | (_, .option .ignore) :: (value, .plain) :: rest => value :: ignoreValues rest
  | (_, .withValue .ignore value) :: rest => value :: ignoreValues rest
  | _ :: rest => ignoreValues rest
  | [] => []

/-- A request with settings taken over from a file, if there is one. -/
def Request.under (r : Request) (given : Settings) (config : Option Settings) : Request :=
  config.elim r (r.adopt given)

def Lettered (words : List (String × Word)) : Prop :=
  ∀ x ∈ words, ∀ c more, x.2 = .cluster c more → c.isLetter = true

namespace Occurrence

def switch? (f : Flag) (o : Occurrence) : Option Bool :=
  match o.choice with
  | .flag g b => if g = f then some b else none
  | _ => none

def ignoreValue? (o : Occurrence) : Option String :=
  if o.choice = .ignore then some o.value else none

end Occurrence

/-! ## Steps -/

theorem lettered_of_wordsOf {args : List String} (h : wordsOf args = .ok words) :
    Lettered words := by
  intro x hx c more hword
  rcases (shape_of_wordsOf h x hx).2 with hsep | hshape
  · rw [hsep] at hword
    cases hword
  · rw [hword] at hshape
    cases hshape
    assumption

theorem Occurrence.switch?_of_letter {c : Choice} (hc : c.isLetter = true) (f : Flag) :
    switch? f ⟨c, ""⟩ = none := by
  cases c <;> first | rfl | cases hc

theorem Occurrence.ignoreValue?_of_letter {c : Choice} (hc : c.isLetter = true) :
    ignoreValue? ⟨c, ""⟩ = none := by
  cases c <;> first | rfl | cases hc

/-- What a step takes from the words is what it adds to the choices. -/
theorem Step.exists_made (hstep : Step ws r ws' r') (hletters : Lettered ws) :
    Lettered ws' ∧ ∃ os, r'.occurrences = r.occurrences ++ os ∧
      (∀ f, switches f ws = os.filterMap (Occurrence.switch? f) ++ switches f ws') ∧
      ignoreValues ws = os.filterMap Occurrence.ignoreValue? ++ ignoreValues ws' := by
  cases hstep with
  | plain w =>
    refine ⟨(List.forall_mem_cons.mp hletters).2, [], ?_, fun f => rfl, rfl⟩
    rw [Reading.plain_occurrences, List.append_nil]
  | separator w =>
    refine ⟨(List.forall_mem_cons.mp hletters).2, [], ?_, fun f => rfl, rfl⟩
    rw [Reading.separator_occurrences, List.append_nil]
  | unknown w =>
    refine ⟨(List.forall_mem_cons.mp hletters).2, [], ?_, fun f => rfl, rfl⟩
    rw [Reading.extra, Reading.close_occurrences, List.append_nil]
  | @attached w rest r c value hc =>
    refine ⟨(List.forall_mem_cons.mp hletters).2, [⟨c, value⟩], ?_, fun f => ?_, ?_⟩
    · rw [Reading.take, Reading.close_occurrences]
    · cases c <;> first | rfl | cases hc
    · cases c <;> rfl
  | @behind w rest r c value hc =>
    refine ⟨(List.forall_mem_cons.mp (List.forall_mem_cons.mp hletters).2).2, [⟨c, value⟩], ?_,
      fun f => ?_, ?_⟩
    · rw [Reading.take, Reading.close_occurrences]
    · cases c <;> first | rfl | cases hc
    · cases c <;> rfl
  | @alone w rest r c hc =>
    refine ⟨(List.forall_mem_cons.mp hletters).2, [⟨c, ""⟩], ?_, fun f => ?_, ?_⟩
    · rw [Reading.take, Reading.close_occurrences]
    · cases c with
      | flag g b => by_cases hg : g = f <;> simp [switches, Occurrence.switch?, hg]
      | _ => rfl
    · cases c with
      | ignore => cases hc
      | _ => rfl
  | @cluster w rest r c more cs left hcluster =>
    obtain ⟨hfirst, hrest⟩ := List.forall_mem_cons.mp hletters
    have hcs := isLetter_of_clusterOf (hfirst c more rfl) hcluster
    refine ⟨hrest, cs.map (⟨·, ""⟩), ?_, fun f => ?_, ?_⟩
    · rw [← Reading.close_occurrences r, ← Reading.takeAll_occurrences]
      cases left <;> rfl
    · have hnone : (cs.map (⟨·, ""⟩)).filterMap (Occurrence.switch? f) = [] := by
        rw [List.filterMap_map, List.filterMap_eq_nil_iff]
        exact fun d hd => Occurrence.switch?_of_letter (hcs d hd) f
      rw [hnone]
      rfl
    · have hnone : (cs.map (⟨·, ""⟩)).filterMap Occurrence.ignoreValue? = [] := by
        rw [List.filterMap_map, List.filterMap_eq_nil_iff]
        exact fun d hd => Occurrence.ignoreValue?_of_letter (hcs d hd)
      rw [hnone]
      rfl

/-- A reading has just the choices for switches and ignore lines that its words say. -/
theorem occurrences_of_readWords (hletters : Lettered words)
    (hread : readWords words .start = .ok r) :
    (∀ f, r.occurrences.filterMap (Occurrence.switch? f) = switches f words) ∧
    r.occurrences.filterMap Occurrence.ignoreValue? = ignoreValues words := by
  -- What has been read and what is left are the words together.
  let P (ws : List (String × Word)) (r : Reading) : Prop := Lettered ws ∧
    (∀ f, switches f words = r.occurrences.filterMap (Occurrence.switch? f) ++ switches f ws) ∧
    ignoreValues words = r.occurrences.filterMap Occurrence.ignoreValue? ++ ignoreValues ws
  have hend : P [] r := by
    refine invariant_of_readWords (fun hstep hinv => ?_) hread ⟨hletters, fun f => rfl, rfl⟩
    obtain ⟨hl, hswitch, hignore⟩ := hinv
    obtain ⟨hl', os, hos, hswitch', hignore'⟩ := hstep.exists_made hl
    refine ⟨hl', fun f => ?_, ?_⟩
    · rw [hswitch, hswitch', hos, List.filterMap_append, List.append_assoc]
    · rw [hignore, hignore', hos, List.filterMap_append, List.append_assoc]
  obtain ⟨-, hswitch, hignore⟩ := hend
  exact ⟨fun f => by rw [hswitch, switches, List.filterMap_nil, List.append_nil],
    by rw [hignore, ignoreValues, List.append_nil]⟩

/-! ## Choices -/

/-- What a choice does to the settings that are given. -/
theorem given_apply (a : Arguments) (o : Occurrence) :
    (∀ f, (a.apply o).given.flags f = (o.switch? f).or (a.given.flags f)) ∧
    (a.apply o).given.ignore = (o.ignoreValue?.map fun v => a.given.ignore.getD [] ++ [v]).or
      a.given.ignore := by
  obtain ⟨c, value⟩ := o
  cases c with
  | flag g b =>
    refine ⟨fun f => ?_, rfl⟩
    by_cases hf : f = g
    · simp [Arguments.apply, Settings.apply, Occurrence.switch?, hf]
    · simp [Arguments.apply, Settings.apply, Occurrence.switch?, hf, Ne.symm hf]
  | _ => exact ⟨fun f => rfl, rfl⟩

theorem given_ofOccurrences (patterns : List String) (os : List Occurrence) :
    (∀ f, (Arguments.ofOccurrences patterns os).given.flags f =
      (os.filterMap (Occurrence.switch? f)).getLast?) ∧
    (Arguments.ofOccurrences patterns os).given.ignore =
      if os.filterMap Occurrence.ignoreValue? = [] then none
      else some (os.filterMap Occurrence.ignoreValue?) := by
  induction os using List.reverseRecOn with
  | nil => exact ⟨fun f => rfl, rfl⟩
  | append_singleton os o ih =>
    obtain ⟨hflags, hignore⟩ := ih
    obtain ⟨hflag, hvalue⟩ := given_apply (Arguments.ofOccurrences patterns os) o
    have hmore : Arguments.ofOccurrences patterns (os ++ [o]) =
        (Arguments.ofOccurrences patterns os).apply o := by
      simp [Arguments.ofOccurrences]
    rw [hmore]
    refine ⟨fun f => ?_, ?_⟩
    · rw [hflag, hflags, getLast?_filterMap_concat]
    · rw [hvalue, hignore, List.filterMap_append]
      cases hv : o.ignoreValue? with
      | none => simp [hv]
      | some v => by_cases hnil : os.filterMap Occurrence.ignoreValue? = [] <;> simp [hv, hnil]

theorem given_of_parse {args : List String} {a : Arguments} (h : Arguments.parse args = .ok a) :
    ∃ words, wordsOf args = .ok words ∧
      (∀ f, a.given.flags f = (switches f words).getLast?) ∧
      a.given.ignore = if ignoreValues words = [] then none else some (ignoreValues words) := by
  obtain ⟨words, r, hwords, hread, rfl⟩ := parse_eq_ok h
  obtain ⟨hswitch, hignore⟩ := occurrences_of_readWords (lettered_of_wordsOf hwords) hread
  obtain ⟨hflags, hlines⟩ := given_ofOccurrences r.run.words r.occurrences
  exact ⟨words, hwords, fun f => by rw [hflags, hswitch], by rw [hlines, hignore]⟩

/-! ## Settings files -/

namespace Request

variable (a : Arguments) (config : Option Settings)

theorem flags_under (f : Flag) : (a.request.under a.given config).flags f =
    ((a.given.flags f).or (config.bind fun s => s.flags f)).getD false := by
  cases config with
  | none => simp [under, Arguments.request]
  | some s => cases hgiven : a.given.flags f <;> simp [under, adopt, Arguments.request, hgiven]

theorem ignore_under : (a.request.under a.given config).ignore =
    (a.given.ignore.or (config.bind Settings.ignore)).getD [] := by
  cases config with
  | none => simp [under, Arguments.request]
  | some s => cases hgiven : a.given.ignore <;> simp [under, adopt, Arguments.request, hgiven]

/-- Settings that are taken over once more change nothing. -/
theorem under_under (r : Request) (given : Settings) :
    (r.under given config).under given config = r.under given config := by
  cases config with
  | none => rfl
  | some s =>
    have hflags : ((r.adopt given s).adopt given s).flags = (r.adopt given s).flags := by
      funext f
      cases hgiven : given.flags f <;> cases hs : s.flags f <;> simp [adopt, hgiven, hs]
    have hignore : ((r.adopt given s).adopt given s).ignore = (r.adopt given s).ignore := by
      cases hgiven : given.ignore <;> cases hs : s.ignore <;> simp [adopt, hgiven, hs]
    change { r.adopt given s with
      flags := ((r.adopt given s).adopt given s).flags
      ignore := ((r.adopt given s).adopt given s).ignore } = r.adopt given s
    rw [hflags, hignore]

end Request

/-- With or without a settings file, a switch has the value of the last word about it; if there is
none, the value in the file; if there is none either, it is off. The ignore lines are those of the
command line in order; if there are none, those of the file. The search gets the switches as they
are. All else is as it was, and taking the same settings over once more changes nothing. -/
theorem under_precedence (args : List String) (a : Arguments) (config : Option Settings)
    (hparse : Arguments.parse args = .ok a) :
    let merged := a.request.under a.given config
    ∃ words, wordsOf args = .ok words ∧
      (∀ f, merged.flags f =
          ((switches f words).getLast?.or (config.bind fun s => s.flags f)).getD false ∧
        ∀ lines, f.get (merged.options lines) = merged.flags f) ∧
      merged.ignore = (if ignoreValues words = [] then (config.bind Settings.ignore).getD []
        else ignoreValues words) ∧
      merged = { a.request with flags := merged.flags, ignore := merged.ignore } ∧
      merged.under a.given config = merged := by
  obtain ⟨words, hwords, hflags, hignore⟩ := given_of_parse hparse
  refine ⟨words, hwords, fun f => ⟨?_, fun lines => Flag.get_options _ lines f⟩, ?_, ?_,
    Request.under_under config a.request a.given⟩
  · rw [Request.flags_under, hflags]
  · rw [Request.ignore_under, hignore]
    split_ifs <;> simp
  · cases config <;> rfl

/-- A switch that the command line turns on and off stays off, one that only the file sets is as the
file says, and the ignore lines of the file are not taken. -/
theorem under_precedence_repeated :
    let config : Settings := ⟨fun f => if f = .mark then some false else some true, some ["c"]⟩
    ∃ a, Arguments.parse
        ["--dot", "--ignore", "a", "--no-do", "--ignore=b", "-v0", "x"] = .ok a ∧
      (a.request.under a.given config).flags .dot = false ∧
      (a.request.under a.given config).flags .mark = false ∧
      (a.request.under a.given config).flags .nocase = true ∧
      (a.request.under a.given config).ignore = ["a", "b"] := by
  intro config
  have hwords : wordsOf ["--dot", "--ignore", "a", "--no-do", "--ignore=b", "-v0", "x"] =
      .ok [("--dot", .option (.flag .dot true)), ("--ignore", .option .ignore), ("a", .plain),
        ("--no-do", .option (.flag .dot false)), ("--ignore=b", .withValue .ignore "b"),
        ("-v0", .cluster .verbose ['0']), ("x", .plain)] := by decide +kernel
  obtain ⟨a, hparse, -⟩ := Except.exists_of_any (q := fun _ => true)
    (x := Arguments.parse ["--dot", "--ignore", "a", "--no-do", "--ignore=b", "-v0", "x"])
    (by decide +kernel)
  obtain ⟨words, hread, hflags, hignore, -⟩ := under_precedence _ a config hparse
  obtain rfl := Except.ok.inj (hwords.symm.trans hread)
  exact ⟨a, hparse, (hflags .dot).1, (hflags .mark).1, (hflags .nocase).1, hignore⟩

end CommandLine

end PathGlob
