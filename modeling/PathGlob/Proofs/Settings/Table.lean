import Mathlib
import PathGlob.Settings.File

/-!
# Settings tables

A switch has the value of the last entry that is valid for it, and so have the ignore lines. What is
not valid is noted once, in the order of the table, and changes nothing.
-/
namespace PathGlob

theorem Except.exists_of_any {ε α : Type} {x : Except ε α} {q : α → Bool}
    (h : x.toOption.any q = true) : ∃ a, x = .ok a ∧ q a = true := by
  cases x with
  | error e => cases h
  | ok a => exact ⟨a, rfl, h⟩

theorem getLast?_filterMap_concat {α β : Type} (g : α → Option β) (xs : List α) (x : α) :
    ((xs ++ [x]).filterMap g).getLast? = (g x).or (xs.filterMap g).getLast? := by
  rw [List.filterMap_append, List.getLast?_append]
  cases hx : g x <;> simp [hx]

theorem Flag.ofName?_eq_some {s : String} {f : Flag} : ofName? s = some f ↔ s = f.name := by
  constructor
  · intro h
    have hname := List.find?_some h
    exact (of_decide_eq_true hname).symm
  · rintro rfl
    exact ofName?_name f

theorem Flag.name_ne_ignore (f : Flag) : f.name ≠ "ignore" := by cases f <;> decide

namespace Settings

variable {fields table : Toml.Fields} {ps : List Part} {p : Part} {f : Flag} {key : String}
  {v : Toml.Value} {r : Settings × List Notice} {n : Notice}

/-! ## What a part says -/

namespace Part

/-- The value for a switch: the part is an entry with the name of the switch, and true or false. -/
def switch? (f : Flag) : Part → Option Bool
  | .entry key v => if nameOf key = f.name then v.flag? else none
  | .unknown _ => none

/-- The lines to ignore: the part is an entry with their name, and a text or an array of texts. -/
def lines? : Part → Option (List String)
  | .entry key v => if nameOf key = "ignore" then v.texts? else none
  | .unknown _ => none

def isValid (p : Part) : Bool := p.lines?.isSome || Flag.all.any fun f => (p.switch? f).isSome

inductive Noted : Part → Notice → Prop
  | unknownSection (key : String) : Noted (.unknown key) (.unknownSection key)
  | unknownKey {key : String} (v : Toml.Value) (hignore : nameOf key ≠ "ignore")
      (hflag : ∀ f : Flag, nameOf key ≠ f.name) : Noted (.entry key v) (.unknownKey key)
  | ignoreNotTexts {key : String} {v : Toml.Value} (hkey : nameOf key = "ignore")
      (hvalue : v.texts? = none) : Noted (.entry key v) (.ignoreNotTexts key)
  | notFlag {key : String} {f : Flag} {v : Toml.Value} (hkey : nameOf key = f.name)
      (hvalue : v.flag? = none) : Noted (.entry key v) (.notFlag f v key)

end Part

def pruneField : String × Toml.Value → Option (String × Toml.Value)
  | (key, .table inner) =>
    if key ∈ sections then some (key, .table (inner.filter fun (k, v) => (Part.entry k v).isValid))
    else none
  | (key, v) => if (Part.entry key v).isValid then some (key, v) else none

/-- The table without its parts that are not valid. -/
def prune (fields : Toml.Fields) : Toml.Fields := fields.filterMap pruneField

/-- A table is the settings table of the file at a path. -/
def Holds (h : Host) (path : String) (table : Toml.Fields) : Prop :=
  if Path.baseName path = projectFile then readProject h path = .ok (some table)
  else ∃ text, h.readText path = .ok text ∧ Toml.read text = .ok table

/-! ## One part -/

theorem Part.isValid_iff : p.isValid = true ↔ p.lines?.isSome ∨ ∃ f, (p.switch? f).isSome := by
  simp [isValid, Flag.mem_all]

theorem Part.isValid_of_switch? {b : Bool} (h : p.switch? f = some b) : p.isValid = true :=
  isValid_iff.mpr (.inr ⟨f, by simp [h]⟩)

theorem Part.isValid_of_lines? {lines : List String} (h : p.lines? = some lines) :
    p.isValid = true :=
  isValid_iff.mpr (.inl (by simp [h]))

theorem Part.switch?_eq_some {b : Bool} :
    (Part.entry key v).switch? f = some b ↔ change key v = .ok (.flag f b) := by
  by_cases hname : nameOf key = f.name
  · have hignore : nameOf key ≠ "ignore" := hname ▸ f.name_ne_ignore
    simp only [switch?, if_pos hname, change, if_neg hignore, Flag.ofName?_eq_some.mpr hname]
    cases v.flag? <;> simp
  · have hother : ∀ g : Flag, Flag.ofName? (nameOf key) = some g → g ≠ f := by
      rintro g hg rfl
      exact hname (Flag.ofName?_eq_some.mp hg)
    simp only [switch?, if_neg hname, change]
    split
    · cases v.texts? <;> simp
    · cases hg : Flag.ofName? (nameOf key) with
      | none => simp
      | some g => cases v.flag? <;> simp [hother g hg]

theorem Part.lines?_eq_some {lines : List String} :
    (Part.entry key v).lines? = some lines ↔ change key v = .ok (.ignore lines) := by
  by_cases hname : nameOf key = "ignore"
  · simp only [lines?, if_pos hname, change]
    cases v.texts? <;> simp
  · simp only [lines?, if_neg hname, change]
    cases Flag.ofName? (nameOf key) with
    | none => simp
    | some g => cases v.flag? <;> simp

theorem Part.noted_of_change (h : change key v = .error n) : (Part.entry key v).Noted n := by
  unfold change at h
  split at h
  case isTrue hname =>
    cases hvalue : v.texts? <;> simp only [hvalue] at h <;> cases h
    exact .ignoreNotTexts hname hvalue
  case isFalse hname =>
    cases hflag : Flag.ofName? (nameOf key) with
    | none =>
      simp only [hflag] at h
      cases h
      refine .unknownKey v hname fun f hf => ?_
      rw [Flag.ofName?_eq_some.mpr hf] at hflag
      cases hflag
    | some f =>
      cases hvalue : v.flag? <;> simp only [hflag, hvalue] at h <;> cases h
      exact .notFlag (Flag.ofName?_eq_some.mp hflag) hvalue

/-- What one part does: the settings take over what it says, and it is noted if it is not valid. -/
theorem step_spec (r : Settings × List Notice) (p : Part) :
    (∀ f, (step r p).1.flags f = (p.switch? f).or (r.1.flags f)) ∧
    (step r p).1.ignore = p.lines?.or r.1.ignore ∧
    (p.isValid = true ∧ (step r p).2 = r.2 ∨
      p.isValid = false ∧ ∃ n, p.Noted n ∧ (step r p).2 = r.2 ++ [n]) := by
  cases p with
  | unknown key => exact ⟨fun f => rfl, rfl, .inr ⟨rfl, _, .unknownSection key, rfl⟩⟩
  | entry key v =>
    have hswitch : ∀ f b, (Part.entry key v).switch? f = some b ↔ change key v = .ok (.flag f b) :=
      fun _ _ => Part.switch?_eq_some
    have hlines : ∀ lines, (Part.entry key v).lines? = some lines ↔
        change key v = .ok (.ignore lines) := fun _ => Part.lines?_eq_some
    cases hchange : change key v with
    | error n =>
      have hnoflag : ∀ f, (Part.entry key v).switch? f = none := fun f => by
        simpa [hchange, Option.eq_none_iff_forall_ne_some] using hswitch f
      have hnolines : (Part.entry key v).lines? = none := by
        simpa [hchange, Option.eq_none_iff_forall_ne_some] using hlines
      simp only [step, hchange]
      refine ⟨fun f => by rw [hnoflag, Option.none_or], by rw [hnolines, Option.none_or],
        .inr ⟨?_, n, Part.noted_of_change hchange, rfl⟩⟩
      simp [← Bool.not_eq_true, Part.isValid_iff, hnoflag, hnolines]
    | ok c =>
      simp only [step, hchange]
      cases c with
      | flag g b =>
        have hflag : (Part.entry key v).switch? g = some b := (hswitch g b).mpr hchange
        have hnolines : (Part.entry key v).lines? = none := by
          simpa [hchange, Option.eq_none_iff_forall_ne_some] using hlines
        refine ⟨fun f => ?_, by rw [apply, hnolines, Option.none_or],
          .inl ⟨Part.isValid_of_switch? hflag, trivial⟩⟩
        simp only [apply]
        by_cases hf : f = g
        · rw [if_pos hf, hf, hflag, Option.some_or]
        · have hother : (Part.entry key v).switch? f = none := by
            simpa [hchange, Option.eq_none_iff_forall_ne_some, Ne.symm hf] using hswitch f
          rw [if_neg hf, hother, Option.none_or]
      | ignore lines =>
        have hsome : (Part.entry key v).lines? = some lines := (hlines lines).mpr hchange
        have hnoflag : ∀ f, (Part.entry key v).switch? f = none := fun f => by
          simpa [hchange, Option.eq_none_iff_forall_ne_some] using hswitch f
        exact ⟨fun f => by rw [apply, hnoflag, Option.none_or],
          by rw [apply, hsome, Option.some_or], .inl ⟨Part.isValid_of_lines? hsome, trivial⟩⟩

/-! ## All parts -/

/-- The settings of some parts are the last of their valid values, and each part that is not valid
has one notice. -/
theorem foldl_step (ps : List Part) :
    (∀ f, (ps.foldl step (empty, [])).1.flags f = (ps.filterMap (Part.switch? f)).getLast?) ∧
    (ps.foldl step (empty, [])).1.ignore = (ps.filterMap Part.lines?).getLast? ∧
    List.Forall₂ Part.Noted (ps.filter fun p => !p.isValid) (ps.foldl step (empty, [])).2 := by
  induction ps using List.reverseRecOn with
  | nil => exact ⟨fun f => rfl, rfl, .nil⟩
  | append_singleton ps p ih =>
    obtain ⟨hflags, hignore, hnoted⟩ := ih
    obtain ⟨hflag, hlines, hnotice⟩ := step_spec (ps.foldl step (empty, [])) p
    rw [List.foldl_append, List.foldl_cons, List.foldl_nil, List.filter_append]
    refine ⟨fun f => ?_, ?_, ?_⟩
    · rw [hflag, hflags, getLast?_filterMap_concat]
    · rw [hlines, hignore, getLast?_filterMap_concat]
    · rcases hnotice with ⟨hvalid, hsame⟩ | ⟨hinvalid, n, hn, hmore⟩
      · rw [hsame, List.filter_cons_of_neg (by simp [hvalid]), List.filter_nil, List.append_nil]
        exact hnoted
      · rw [hmore, List.filter_cons_of_pos (by simp [hinvalid]), List.filter_nil]
        exact List.rel_append hnoted (.cons hn .nil)

/-! ## Leaving out what is not valid -/

theorem partsOf_pruneField (field : String × Toml.Value) :
    (pruneField field).toList.flatMap partsOf = (partsOf field).filter Part.isValid := by
  obtain ⟨key, v⟩ := field
  have hentry : (∀ inner, v ≠ .table inner) → partsOf (key, v) = [.entry key v] ∧
      pruneField (key, v) = if (Part.entry key v).isValid then some (key, v) else none := by
    cases v with
    | table inner => exact fun hno => absurd rfl (hno inner)
    | _ => exact fun _ => ⟨rfl, rfl⟩
  by_cases htable : ∃ inner, v = .table inner
  · obtain ⟨inner, rfl⟩ := htable
    by_cases hkey : key ∈ sections
    · simp [pruneField, partsOf, hkey, List.filter_map, Function.comp_def]
    · simp [pruneField, partsOf, hkey, Part.isValid, Part.lines?, Part.switch?]
  · obtain ⟨hparts, hprune⟩ := hentry fun inner hv => htable ⟨inner, hv⟩
    rw [hprune, hparts]
    by_cases hvalid : (Part.entry key v).isValid = true
    · simp [hvalid, hparts]
    · simp [hvalid]

theorem parts_prune (fields : Toml.Fields) :
    parts (prune fields) = (parts fields).filter Part.isValid := by
  induction fields with
  | nil => rfl
  | cons field rest ih =>
    have hprune : prune (field :: rest) = (pruneField field).toList ++ prune rest := by
      cases hfield : pruneField field <;> simp [prune, hfield]
    rw [hprune, parts, List.flatMap_append, partsOf_pruneField, parts, List.flatMap_cons,
      List.filter_append]
    exact congrArg _ ih

/-- What only valid parts have is not lost with the others. -/
theorem filterMap_valid {α : Type} {g : Part → Option α}
    (hg : ∀ p a, g p = some a → p.isValid = true) (ps : List Part) :
    (ps.filter Part.isValid).filterMap g = ps.filterMap g := by
  rw [List.filterMap_filter]
  congr 1
  funext p
  by_cases hvalid : p.isValid = true
  · rw [if_pos hvalid]
  · rw [if_neg hvalid, eq_comm, Option.eq_none_iff_forall_ne_some]
    exact fun a ha => hvalid (hg p a ha)

theorem ofFields_prune (fields : Toml.Fields) :
    ofFields (prune fields) = ((ofFields fields).1, []) := by
  obtain ⟨hflags, hignore, -⟩ := foldl_step (parts fields)
  obtain ⟨hflags', hignore', hnoted⟩ := foldl_step (parts (prune fields))
  have hnone : ((parts (prune fields)).filter fun p => !p.isValid) = [] := by
    rw [parts_prune, List.filter_filter]
    simp
  rw [hnone, List.forall₂_nil_left_iff] at hnoted
  have hswitches : (ofFields (prune fields)).1.flags = (ofFields fields).1.flags := by
    funext f
    rw [ofFields, ofFields, hflags', hflags, parts_prune,
      filterMap_valid fun p b => Part.isValid_of_switch?]
  have hlines : (ofFields (prune fields)).1.ignore = (ofFields fields).1.ignore := by
    rw [ofFields, ofFields, hignore', hignore, parts_prune,
      filterMap_valid fun p lines => Part.isValid_of_lines?]
  exact Prod.ext (congrArg₂ Settings.mk hswitches hlines) hnoted

/-! ## Files -/

theorem load_of_holds {h : Host} {path : String} (hholds : Holds h path table) :
    load h path = noted (ofFields table) := by
  unfold Holds at hholds
  unfold load
  split_ifs at hholds ⊢
  · rw [hholds]
  · obtain ⟨text, htext, hread⟩ := hholds
    rw [htext]
    simp only [hread]

/-- Loading a settings file: each switch has the value of the last entry that is valid for it, and
so have the ignore lines; what has none stays open. There is one notice for each part of the table
that is not valid, in the order of the table, and none else. Without those parts the table gives the
same settings. A number with too many digits to be shown in a notice is an error. -/
theorem load_last_valid (h : Host) (path : String) (table : Toml.Fields)
    (hholds : Holds h path table) :
    ∃ (s : Settings) (notices : List Notice),
      load h path =
        (if notices.all Notice.showable then .ok (s, notices) else .error .tooManyDigits) ∧
      (∀ f, s.flags f = ((parts table).filterMap (Part.switch? f)).getLast?) ∧
      s.ignore = ((parts table).filterMap Part.lines?).getLast? ∧
      List.Forall₂ Part.Noted ((parts table).filter fun p => !p.isValid) notices ∧
      ∀ h' path', Holds h' path' (prune table) → load h' path' = .ok (s, []) := by
  obtain ⟨hflags, hignore, hnoted⟩ := foldl_step (parts table)
  refine ⟨(ofFields table).1, (ofFields table).2, load_of_holds hholds, hflags, hignore, hnoted,
    fun h' path' hpruned => ?_⟩
  rw [load_of_holds hpruned, ofFields_prune]
  rfl

def asciiFile (path : String) (text : List Char) : PathGlob.Change :=
  .file (.ofText path) (text.map fun c => c.toNat.toUInt8)

def hostWithFile (name : String) (text : List Char) : Host where
  files := FileSystem.empty.apply (asciiFile ("w/" ++ name) text)
  cwd := "/w"

/-- Two spellings of one switch are set in turns, the last time to no value. -/
theorem load_last_valid_in_turns :
    ∃ s notices,
      load (hostWithFile "shellglob.toml"
        "match-base=true\n[matching]\nmatch_base=false\nmatch-base=1\n[colors]\ndot=true".toList)
        "/w/shellglob.toml" = .ok (s, notices) ∧
      s.flags .matchBase = some false ∧ s.flags .dot = none ∧ notices.length = 2 := by
  let text : List Char :=
    "match-base=true\n[matching]\nmatch_base=false\nmatch-base=1\n[colors]\ndot=true".toList
  let h := hostWithFile "shellglob.toml" text
  obtain ⟨table, hread, hparts⟩ := Except.exists_of_any (x := Toml.read text)
    (q := fun table => ((parts table).filterMap (Part.switch? .matchBase)).getLast? = some false ∧
      ((parts table).filterMap (Part.switch? .dot)).getLast? = none ∧
      ((parts table).filter fun p => !p.isValid).length = 2) (by decide +kernel)
  obtain ⟨hbase, hdot, hinvalid⟩ := of_decide_eq_true hparts
  have hholds : Holds h "/w/shellglob.toml" table := ⟨text, by decide +kernel, hread⟩
  obtain ⟨s, notices, hload, hflags, -, hnoted, -⟩ := load_last_valid h _ table hholds
  have hok : (load h "/w/shellglob.toml").isOk = true := by decide +kernel
  rw [hload] at hok
  split_ifs at hok hload with hshown
  · exact ⟨s, notices, hload, (hflags .matchBase).trans hbase, (hflags .dot).trans hdot,
      hnoted.length_eq.symm.trans hinvalid⟩
  · cases hok

/-- A number that is too long to be shown stops the loading at its entry, which has no notice. -/
theorem exists_too_long_to_note : ∃ h path table, Holds h path table ∧
    (∃ p ∈ parts table, p.isValid = false) ∧ load h path = .error .tooManyDigits := by
  let text : List Char := "dot=0x1".toList ++ List.replicate 3600 '0'
  obtain ⟨table, hread, htable⟩ := Except.exists_of_any (x := Toml.read text)
    (q := fun table => (parts table).any (fun p => !p.isValid) &&
      !(ofFields table).2.all Notice.showable) (by decide +kernel)
  simp only [Bool.and_eq_true, List.any_eq_true, Bool.not_eq_true'] at htable
  have hholds : Holds (hostWithFile "shellglob.toml" text) "/w/shellglob.toml" table :=
    ⟨text, by decide +kernel, hread⟩
  refine ⟨_, _, table, hholds, htable.1, ?_⟩
  rw [load_of_holds hholds, noted, htable.2]
  rfl

end Settings

end PathGlob
