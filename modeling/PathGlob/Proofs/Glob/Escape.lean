import PathGlob.Proofs.Glob.Expanded
import PathGlob.Proofs.Walk.Names

/-!
# Searching for escaped texts

An escaped text matches only itself: a search for it finds the text if that is the path of
something, and nothing else.
-/
namespace PathGlob

/-- Options under which backslashes escape, names are matched in their own case, and matches are
reported as they are spelled, all of them and nothing else. -/
structure Options.Verbatim (o : Options) : Prop where
  nocase : o.nocase = false
  matchBase : o.matchBase = false
  nonull : o.nonull = false
  nounique : o.nounique = false
  mark : o.mark = false
  nodir : o.nodir = false
  realpath : o.realpath = false
  absolute : o.absolute = false
  ignore : o.ignore.toList = []
  noEscape : o.noEscape = false

namespace Glob

variable {o : Options} {h : Host} {c : Cache} {g : Glob}

/-! ## Globs of one alternative -/

theorem make_eq_ok_of_verbatim (ho : o.Verbatim) {p : String} :
    make o false [.text p] = .ok g ↔
      g.ignore = .none ∧ g.options = settle o false ∧
        compileAll (settle o false) false 0 0 [.text p] = .ok (g.patterns, g.alternatives) := by
  rw [make_eq_ok, prepare_eq_self ho.noEscape ho.matchBase,
    fits_iff_eq_none ho.matchBase ho.ignore]

theorem search_of_singleton {a : Alternative} (hg : g.alternatives = [a])
    (hok : ((g.walk h a).run h c).result = .ok ()) :
    (g.search h c).result = .ok (g.merge [Event.paths ((g.walk h a).run h c).events]) := by
  rw [search, hg, walkAll, hok]
  rfl

/-- A single path is reported as it is found. -/
theorem merge_singleton (hnull : g.options.nonull = false) (hunique : g.options.nounique = false)
    (p : String) (found : Bool) :
    g.merge [if found then [p] else []] = if found then [p] else [] := by
  cases found with
  | false => simp [merge, nulls, gather, hnull, hunique, List.perm_nil.mp (Collation.sort_perm [])]
  | true =>
    have hsort := List.perm_singleton.mp (Collation.sort_perm [p])
    simp [merge, nulls, gather, hnull, hunique, List.eraseDups_cons, hsort]

/-! ## Escaped texts -/

theorem compileAll_escape (hcase : o.nocase = false) {t : String} (ht : t ≠ "")
    (hlen : (Pattern.escape .backslash t).length ≤ Pattern.maxLength) :
    compileAll o false 0 0 [.text (Pattern.escape .backslash t)] =
      .ok ([Pattern.escape .backslash t], [.ofPath 0 0 t]) := by
  have hcompile : Pattern.compile o false 0 0 (Pattern.escape .backslash t) = .ok [.ofPath 0 0 t] :=
    compile_eq_ok.mpr ⟨hlen, _, Pattern.expand_escape ht,
      by simp [Pattern.readAlternative_escape hcase]⟩
  rw [compileAll, hcompile]
  rfl

/-- A search for an escaped text does not fail where the working directory is one, and finds just
the text if there is something at that path, be it a link that leads nowhere. -/
theorem search_escape (o : Options) (h : Host) (c : Cache) (t : String) (ho : o.Verbatim)
    (ht : t ≠ "") (hnull : hasNull t = false)
    (hlen : (Pattern.escape .backslash t).length ≤ Pattern.maxLength)
    (hcwd : Oracle.isDirectory h.answer (directory o h) = true) (hc : c.Agrees h.answer) :
    ∃ g, make o false [.text (Pattern.escape .backslash t)] = .ok g ∧
      (g.search h c).result =
        .ok (if (h.status false (Path.join (directory o h) t)).isOk then [t] else []) := by
  let g : Glob := ⟨[Pattern.escape .backslash t], settle o false, [.ofPath 0 0 t], .none⟩
  have hmake : make o false [.text (Pattern.escape .backslash t)] = .ok g :=
    (make_eq_ok_of_verbatim ho).mpr ⟨rfl, rfl, compileAll_escape ho.nocase ht hlen⟩
  have hbare : (g.walk h (.ofPath 0 0 t)).Bare :=
    ⟨ho.mark, ho.nodir, ho.realpath, ho.absolute, fun _ _ => rfl⟩
  have hsame : (g.walk h (.ofPath 0 0 t)).cwd = directory o h := by
    simp only [walk, directory, settle, g, Bool.false_eq_true, if_false]
  rw [← hsame] at hcwd ⊢
  obtain ⟨hok, hpaths⟩ := Walk.paths_of_path hc hbare rfl ht hnull hcwd
  refine ⟨g, hmake, ?_⟩
  rw [search_of_singleton rfl hok, hpaths, merge_singleton ho.nonull ho.nounique]

/-- A file, and a link that leads nowhere, whose name as a pattern matches the file alone. -/
def bracketHost : Host :=
  ⟨(FileSystem.empty.apply (.file (.ofText "w/xy") [])).apply (.link (.ofText "w/[x]*") "gone"),
    "/w"⟩

/-- Escaped, the name of the link matches the link alone. -/
theorem search_escape_brackets :
    ∃ g, make {} false [.text "\\[x\\]\\*"] = .ok g ∧
      (g.search bracketHost .empty).result = .ok ["[x]*"] := by
  have hescape : Pattern.escape .backslash "[x]*" = "\\[x\\]\\*" := by decide
  have hverbatim : ({} : Options).Verbatim := ⟨rfl, rfl, rfl, rfl, rfl, rfl, rfl, rfl, rfl, rfl⟩
  obtain ⟨g, hmake, hresult⟩ := search_escape {} bracketHost .empty "[x]*" hverbatim (by decide)
    (by decide) (by rw [hescape]; decide) (by decide +kernel) (Cache.agrees_empty _)
  have hthere :
      (bracketHost.status false (Path.join (directory {} bracketHost) "[x]*")).isOk = true := by
    decide +kernel
  rw [hescape] at hmake
  rw [hthere] at hresult
  exact ⟨g, hmake, hresult⟩

end Glob

end PathGlob
