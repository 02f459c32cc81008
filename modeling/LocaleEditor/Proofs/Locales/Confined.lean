/-
LocaleEditor.Proofs.Locales.Confined — paths that stay inside a folder.

The names of locales and files come from outside and are joined to the folder of
locales as they are written. `Spells` says by the parts between slashes which
texts are names and nothing else; it is what `isPlain` tests by components
(`isPlain_iff`). Joining such a text only adds its names at the end, whatever
the path before it looks like (`components_join`), so that no locale and no file
leads out of the folder (`locales_confined`).

* `steps_append_slash`, `intercalate_steps` — a path and its parts.
* `components_eq` — components by the first part and those after it.
* `exists_pathFrom`, `pathFrom_of_not_plain` — names joined one after another,
  up to the first that is not plain.
-/
import LocaleEditor.Locales.Folder

namespace LocaleEditor.Files

variable {path parent child first name : String} {rest names parts : List String}

/-! ## 1. The parts of a path -/

theorem splitSlashes_eq_splitOn (s : List Char) : splitSlashes s = s.splitOn '/' := by
  induction s with
  | nil => rfl
  | cons c r ih =>
    rw [List.splitOn_cons_eq_if_modifyHead, ← ih]
    by_cases hc : c = '/'
    · subst hc
      rfl
    · rw [splitSlashes.eq_3 _ _ (fun h => hc h), if_neg (by simpa using hc)]
      cases hr : splitSlashes r with
      | nil => exact absurd (ih.symm.trans hr) (List.splitOn_ne_nil '/' r)
      | cons p ps => rfl

theorem steps_ne_nil (path : String) : steps path ≠ [] := by
  rw [steps, splitSlashes_eq_splitOn, ne_eq, List.map_eq_nil_iff]
  exact List.splitOn_ne_nil '/' path.toList

/-- The parts of a path make it up again. -/
theorem intercalate_steps (path : String) : "/".intercalate (steps path) = path := by
  have hid : String.toList ∘ String.ofList = id := funext fun _ => String.toList_ofList
  rw [← String.toList_inj, String.toList_intercalate, steps, List.map_map, hid, List.map_id,
    splitSlashes_eq_splitOn]
  exact List.intercalate_splitOn '/'

/-- Parts without slashes are those of the path that they make up. -/
theorem steps_intercalate (hne : parts ≠ []) (h : ∀ part ∈ parts, '/' ∉ part.toList) :
    steps ("/".intercalate parts) = parts := by
  have hid : String.ofList ∘ String.toList = id := funext fun _ => String.ofList_toList
  have hslash : ∀ part ∈ parts.map String.toList, '/' ∉ part := by simpa using h
  have hsplit : (['/'].intercalate (parts.map String.toList)).splitOn '/'
      = parts.map String.toList :=
    List.splitOn_intercalate '/' hslash (by simpa using hne)
  rw [steps, String.toList_intercalate, splitSlashes_eq_splitOn]
  show (List.splitOn '/' (['/'].intercalate (parts.map String.toList))).map String.ofList = parts
  rw [hsplit, List.map_map, hid, List.map_id]

/-- No part holds a slash. -/
theorem notMem_of_mem_splitOn {s part : List Char} (h : part ∈ s.splitOn '/') : '/' ∉ part := by
  induction s generalizing part with
  | nil => simp_all
  | cons c r ih =>
    rw [List.splitOn_cons_eq_if_modifyHead] at h
    split at h
    · rcases List.mem_cons.mp h with rfl | h
      · exact List.not_mem_nil
      · exact ih h
    · rename_i hc
      cases hr : r.splitOn '/' with
      | nil => exact absurd hr (List.splitOn_ne_nil '/' r)
      | cons p ps =>
        rw [hr] at h ih
        rcases List.mem_cons.mp h with rfl | h
        · have hp := ih List.mem_cons_self
          intro hmem
          rcases List.mem_cons.mp hmem with rfl | hmem
          · exact hc (beq_self_eq_true '/')
          · exact hp hmem
        · exact ih (List.mem_cons_of_mem _ h)

theorem notMem_of_mem_steps {part : String} (h : part ∈ steps path) : '/' ∉ part.toList := by
  rw [steps, splitSlashes_eq_splitOn, List.mem_map] at h
  obtain ⟨l, hl, rfl⟩ := h
  rw [String.toList_ofList]
  exact notMem_of_mem_splitOn hl

theorem steps_append_slash (s t : String) : steps (s ++ "/" ++ t) = steps s ++ steps t := by
  have hlist : (s ++ "/" ++ t).toList = s.toList ++ '/' :: t.toList := by simp
  rw [steps, hlist, splitSlashes_eq_splitOn, List.splitOn_append_cons_self, List.map_append,
    ← splitSlashes_eq_splitOn, ← splitSlashes_eq_splitOn, steps, steps]

/-! ## 2. The components of a path -/

/-- What a part that is not the first stands for. -/
def component? (part : String) : Option Component := laterComponent? part.toList

theorem component?_eq (part : String) : component? part =
    if part = "" ∨ part = "." then none
    else if part = ".." then some .up else some (.name part) := by
  have hpart : part = String.ofList part.toList := String.ofList_toList.symm
  rw [component?, hpart, String.toList_ofList]
  generalize part.toList = l
  unfold laterComponent?
  split
  · rfl
  · rfl
  · rfl
  · rename_i h1 h2 h3
    have hne : ∀ l' : List Char, l ≠ l' → String.ofList l ≠ String.ofList l' :=
      fun l' h heq => h (String.ofList_injective heq)
    rw [if_neg, if_neg (hne ['.', '.'] h3)]
    exact not_or.mpr ⟨hne [] h1, hne ['.'] h2⟩

/-- What the first part of a path stands for if there is something in it or after it. -/
def lead (first : String) : List Component :=
  if first = "" then [.root] else (firstComponent? first.toList).toList

theorem components_eq (h : steps path = first :: rest) (hne : first ≠ "" ∨ rest ≠ []) :
    components path = lead first ++ rest.filterMap component? := by
  rw [steps, List.map_eq_cons_iff] at h
  obtain ⟨l, ls, hsplit, rfl, rfl⟩ := h
  have hlater : (ls.map String.ofList).filterMap component? = ls.filterMap laterComponent? := by
    rw [List.filterMap_map]
    refine congrArg (List.filterMap · ls) (funext fun l => ?_)
    rw [Function.comp_apply, component?, String.toList_ofList]
  rw [components, hsplit, hlater, lead, String.toList_ofList]
  dsimp only
  cases l with
  | nil =>
    have hls : ls ≠ [] := by simpa using hne
    simp [hls]
  | cons c l =>
    have hfirst : String.ofList (c :: l) ≠ "" := by simp
    rw [if_neg hfirst]
    rfl

/-! ## 3. Names between slashes -/

/-- The path is parts with slashes between them. The first is not empty and no dot, and none is two
dots. The names are the parts, without those that are empty or a dot. -/
def Spells (path : String) (names : List String) : Prop :=
  ∃ first rest, "/".intercalate (first :: rest) = path ∧
    (∀ part ∈ first :: rest, '/' ∉ part.toList) ∧ first ≠ "" ∧ first ≠ "." ∧
    ".." ∉ first :: rest ∧
    (first :: rest).filter (fun part => part ≠ "" ∧ part ≠ ".") = names

theorem filterMap_component? (h : ".." ∉ parts) : parts.filterMap component?
    = (parts.filter fun part => part ≠ "" ∧ part ≠ ".").map .name := by
  induction parts with
  | nil => rfl
  | cons part parts ih =>
    obtain ⟨hpart, hparts⟩ := List.ne_and_not_mem_of_not_mem_cons h
    rw [List.filterMap_cons, component?_eq, ih hparts]
    by_cases hskip : part = "" ∨ part = "."
    · rcases hskip with rfl | rfl <;> simp
    · rw [if_neg hskip, if_neg hpart.symm]
      rw [not_or] at hskip
      simp [hskip]

/-- The parts of a path that spells names: each stands for its name or for nothing. -/
theorem Spells.steps (h : Spells path names) : ∃ first rest, steps path = first :: rest ∧
    first ≠ "" ∧ first ≠ "." ∧ (first :: rest).filterMap component? = names.map .name := by
  obtain ⟨first, rest, rfl, hslash, hempty, hdot, hup, rfl⟩ := h
  exact ⟨first, rest, steps_intercalate (List.cons_ne_nil _ _) hslash, hempty, hdot,
    filterMap_component? hup⟩

theorem Spells.ne_nil (h : Spells path names) : names ≠ [] := by
  obtain ⟨first, rest, -, -, hempty, hdot, -, rfl⟩ := h
  simp [hempty, hdot]

/-- A first part that is neither empty nor a dot counts as those after it. -/
theorem components_eq_filterMap (h : steps path = first :: rest) (hempty : first ≠ "")
    (hdot : first ≠ ".") : components path = (first :: rest).filterMap component? := by
  have hlist : first.toList ≠ ['.'] := fun h => hdot (String.toList_inj.mp (h.trans (by rfl)))
  have hlead : lead first = (component? first).toList := by
    rw [lead, if_neg hempty, component?]
    unfold firstComponent?
    split
    · contradiction
    · rfl
  rw [components_eq h (.inl hempty), hlead, List.filterMap_cons]
  cases component? first <;> rfl

/-- A path that spells names has these for components. -/
theorem Spells.components_eq (h : Spells path names) : components path = names.map .name := by
  obtain ⟨first, rest, hsteps, hempty, hdot, hnames⟩ := h.steps
  rw [components_eq_filterMap hsteps hempty hdot, hnames]

theorem isPlain_eq_true_iff :
    isPlain path = true ↔ components path ≠ [] ∧ ∀ c ∈ components path, c.isName = true := by
  simp [isPlain]

/-- A path is plain exactly when it spells names. -/
theorem isPlain_iff : isPlain path = true ↔ ∃ names, Spells path names := by
  rw [isPlain_eq_true_iff]
  constructor
  · rintro ⟨hne, hnames⟩
    obtain ⟨first, rest, hsteps⟩ := List.exists_cons_of_ne_nil (steps_ne_nil path)
    have hpath : "/".intercalate (first :: rest) = path := hsteps ▸ intercalate_steps path
    have hempty : first ≠ "" := by
      rintro rfl
      cases rest with
      | nil =>
        rw [← hpath] at hne
        exact hne rfl
      | cons next rest =>
        rw [components_eq hsteps (.inr (by simp))] at hnames
        exact absurd (hnames .root List.mem_cons_self) (by decide)
    have hdot : first ≠ "." := by
      rintro rfl
      rw [components_eq hsteps (.inl hempty)] at hnames
      exact absurd (hnames .here List.mem_cons_self) (by decide)
    have hup : ".." ∉ first :: rest := by
      intro hmem
      rw [components_eq_filterMap hsteps hempty hdot] at hnames
      exact absurd (hnames .up (List.mem_filterMap.mpr ⟨"..", hmem, rfl⟩)) (by decide)
    exact ⟨_, first, rest, hpath, fun part hpart => notMem_of_mem_steps (hsteps ▸ hpart), hempty,
      hdot, hup, rfl⟩
  · rintro ⟨names, h⟩
    rw [h.components_eq]
    refine ⟨by simpa using h.ne_nil, fun c hc => ?_⟩
    obtain ⟨name, -, rfl⟩ := List.mem_map.mp hc
    rfl

/-! ## 4. Names joined to a path -/

theorem steps_slash (h : steps path = first :: rest) :
    steps (path ++ "/") = first :: (rest ++ [""]) := by
  have hslash := steps_append_slash path ""
  rwa [String.append_empty, h, List.cons_append] at hslash

/-- A slash at the end of a path does not count. -/
theorem components_slash (hne : path ≠ "") : components (path ++ "/") = components path := by
  obtain ⟨first, rest, hsteps⟩ := List.exists_cons_of_ne_nil (steps_ne_nil path)
  have hlead : first ≠ "" ∨ rest ≠ [] := by
    by_cases hfirst : first = ""
    · refine .inr fun hrest => hne ?_
      rw [← intercalate_steps path, hsteps, hfirst, hrest, String.intercalate_singleton]
    · exact .inl hfirst
  rw [components_eq hsteps hlead, components_eq (steps_slash hsteps) (.inr (by simp)),
    List.filterMap_append]
  exact congrArg _ (List.append_nil _)

/-- What comes after a slash adds its components, whatever is in front. -/
theorem components_append_slash (path child : String) :
    components (path ++ "/" ++ child)
      = components (path ++ "/") ++ (steps child).filterMap component? := by
  obtain ⟨first, rest, hsteps⟩ := List.exists_cons_of_ne_nil (steps_ne_nil path)
  have hchild : steps (path ++ "/" ++ child) = first :: (rest ++ steps child) := by
    rw [steps_append_slash, hsteps, List.cons_append]
  have hafter : rest ++ steps child ≠ [] := by simp [steps_ne_nil child]
  rw [components_eq (steps_slash hsteps) (.inr (by simp)), components_eq hchild (.inr hafter),
    List.filterMap_append, List.filterMap_append, List.append_assoc, List.append_assoc]
  rfl

theorem Spells.startsWith_eq_false (h : Spells child names) : child.startsWith "/" = false := by
  obtain ⟨first, rest, hsteps, hempty, -⟩ := h.steps
  rw [String.startsWith_string_eq_false_iff]
  rintro ⟨l, hl⟩
  have hchild : child = "" ++ "/" ++ String.ofList l := by
    rw [← String.toList_inj, ← hl]
    simp
  rw [hchild, steps_append_slash] at hsteps
  exact hempty (List.cons.inj hsteps).1.symm

/-- Names that are joined to a path come after its components. -/
theorem components_join (parent : String) (h : Spells child names) :
    components (join parent child) = components parent ++ components child := by
  have hchild : components child = (steps child).filterMap component? := by
    obtain ⟨first, rest, hsteps, -, -, hnames⟩ := h.steps
    rw [h.components_eq, hsteps, hnames]
  rw [join, h.startsWith_eq_false, if_neg (by decide)]
  by_cases hroot : parent = ""
  · subst hroot
    rw [if_pos (by simp), String.empty_append]
    rfl
  · by_cases hslash : parent.endsWith "/" = true
    · have hend : "/".toList <:+ parent.toList := by
        simpa [← String.endsWith_toSlice] using hslash
      obtain ⟨l, hl⟩ := hend
      have hparent : parent = String.ofList l ++ "/" := by
        rw [← String.toList_inj, ← hl]
        simp
      rw [if_pos (by simp [hslash]), hparent, components_append_slash, hchild]
    · rw [if_neg (by simp [hroot, hslash]), components_append_slash, components_slash hroot,
        hchild]

end LocaleEditor.Files

namespace LocaleEditor

open LocaleEditor.Files

namespace LocaleFolder

variable {path name : String} {names : List String}

/-! ## 5. Paths inside a folder of locales -/

/-- Plain names are joined one after another. -/
theorem exists_pathFrom (path : String) (h : ∀ name ∈ names, isPlain name = true) :
    ∃ joined, pathFrom path names = .ok joined ∧
      components joined = components path ++ names.flatMap components := by
  induction names generalizing path with
  | nil => exact ⟨path, rfl, (List.append_nil _).symm⟩
  | cons name names ih =>
    have hname := h name List.mem_cons_self
    obtain ⟨inside, hinside⟩ := isPlain_iff.mp hname
    obtain ⟨joined, hjoined, hcomponents⟩ :=
      ih (join path name) fun n hn => h n (List.mem_cons_of_mem _ hn)
    refine ⟨joined, by rw [pathFrom, if_pos hname, hjoined], ?_⟩
    rw [hcomponents, components_join path hinside, List.append_assoc, List.flatMap_cons]

/-- The first name that is not plain is the one that is turned down. -/
theorem pathFrom_of_not_plain (path : String) (before after : List String)
    (hbefore : ∀ n ∈ before, isPlain n = true) (hname : isPlain name = false) :
    pathFrom path (before ++ name :: after) = .error (.invalidPath name) := by
  induction before generalizing path with
  | nil => rw [List.nil_append, pathFrom, hname, if_neg (by decide)]
  | cons n before ih =>
    rw [List.cons_append, pathFrom, if_pos (hbefore n List.mem_cons_self)]
    exact ih _ fun m hm => hbefore m (List.mem_cons_of_mem _ hm)

end LocaleFolder

/-- No locale and no file leads out of the folder of locales. A locale and a file have a path there
exactly when each of them spells names, and then its components are those of the folder and after
them the names of the locale and of the file. If the locale spells no names, reading the file and
listing the files both turn the locale down, and if only the file does not, reading turns the file
down. Either is so for every disk, since the disk is not looked at. -/
theorem locales_confined (f : LocaleFolder) (locale file : String) :
    ((∃ path, f.path [locale, file] = .ok path) ↔
      (∃ names, Spells locale names) ∧ ∃ names, Spells file names) ∧
    (∀ path inside below, f.path [locale, file] = .ok path → Spells locale inside →
      Spells file below → components locale = inside.map .name ∧
        components file = below.map .name ∧
        components path = components f.root ++ components locale ++ components file) ∧
    ((¬ ∃ names, Spells locale names) → ∀ disk,
      f.fileText? disk locale file = .error (.invalidPath locale) ∧
        f.files disk locale = .error (.invalidPath locale)) ∧
    ((∃ names, Spells locale names) → (¬ ∃ names, Spells file names) → ∀ disk,
      f.fileText? disk locale file = .error (.invalidPath file)) := by
  simp only [← isPlain_iff, Bool.not_eq_true]
  have hlocale (h : isPlain locale = false) (after : List String) :
      f.path (locale :: after) = .error (.invalidPath locale) :=
    LocaleFolder.pathFrom_of_not_plain f.root [] after (by simp) h
  have hfile (h : isPlain locale = true) (h' : isPlain file = false) :
      f.path [locale, file] = .error (.invalidPath file) :=
    LocaleFolder.pathFrom_of_not_plain f.root [locale] [] (by simpa using h) h'
  have hboth (h : isPlain locale = true) (h' : isPlain file = true) :
      ∃ path, f.path [locale, file] = .ok path ∧
        components path = components f.root ++ [locale, file].flatMap components :=
    LocaleFolder.exists_pathFrom f.root (by simp [h, h'])
  refine ⟨⟨?_, fun h => ?_⟩, ?_, fun h disk => ?_, fun h h' disk => ?_⟩
  · rintro ⟨path, hpath⟩
    cases h : isPlain locale with
    | false => cases hpath.symm.trans (hlocale h [file])
    | true =>
      cases h' : isPlain file with
      | false => cases hpath.symm.trans (hfile h h')
      | true => exact ⟨rfl, rfl⟩
  · obtain ⟨path, hpath, -⟩ := hboth h.1 h.2
    exact ⟨path, hpath⟩
  · intro path inside below hpath hinside hbelow
    obtain ⟨joined, hjoined, hcomponents⟩ :=
      hboth (isPlain_iff.mpr ⟨inside, hinside⟩) (isPlain_iff.mpr ⟨below, hbelow⟩)
    obtain rfl := Except.ok.inj (hpath.symm.trans hjoined)
    refine ⟨hinside.components_eq, hbelow.components_eq, ?_⟩
    rw [hcomponents, List.append_assoc]
    simp
  · constructor
    · rw [LocaleFolder.fileText?, hlocale h]
    · rw [LocaleFolder.files, hlocale h]
      rfl
  · rw [LocaleFolder.fileText?, hfile h h']

/-- A folder of locales with every file in it. -/
def allLocales : LocaleFolder := ⟨"locales/", ⟨[.any], false⟩⟩

/-- Slashes and dots inside a path do no harm, and two dots are turned down wherever they are. -/
theorem locales_confined_terms :
    (Spells "en" ["en"] ∧ Spells "legal//./terms.ts" ["legal", "terms.ts"] ∧
      ∃ path, allLocales.path ["en", "legal//./terms.ts"] = .ok path ∧
        components path = [.name "locales", .name "en", .name "legal", .name "terms.ts"]) ∧
    ((¬ ∃ names, Spells "../en" names) ∧ ∀ disk,
      allLocales.fileText? disk "../en" "terms.ts" = .error (.invalidPath "../en") ∧
        allLocales.files disk "../en" = .error (.invalidPath "../en")) ∧
    ((¬ ∃ names, Spells "legal/../.." names) ∧ ∀ disk,
      allLocales.fileText? disk "en" "legal/../.." = .error (.invalidPath "legal/../..")) := by
  have hen : Spells "en" ["en"] := ⟨"en", [], rfl, by decide, by decide, by decide, by decide, rfl⟩
  have hterms : Spells "legal//./terms.ts" ["legal", "terms.ts"] :=
    ⟨"legal", ["", ".", "terms.ts"], rfl, by decide, by decide, by decide, by decide, rfl⟩
  have hroot : components allLocales.root = [.name "locales"] := rfl
  have hfirst : ¬ ∃ names, Spells "../en" names := fun h =>
    absurd (isPlain_iff.mpr h) (by decide)
  have hlater : ¬ ∃ names, Spells "legal/../.." names := fun h =>
    absurd (isPlain_iff.mpr h) (by decide)
  obtain ⟨path, hpath⟩ :=
    (locales_confined allLocales "en" "legal//./terms.ts").1.mpr ⟨⟨_, hen⟩, ⟨_, hterms⟩⟩
  obtain ⟨hinside, hbelow, hcomponents⟩ :=
    (locales_confined allLocales "en" "legal//./terms.ts").2.1 path _ _ hpath hen hterms
  refine ⟨⟨hen, hterms, path, hpath, ?_⟩,
    ⟨hfirst, (locales_confined allLocales "../en" "terms.ts").2.2.1 hfirst⟩,
    ⟨hlater, (locales_confined allLocales "en" "legal/../..").2.2.2 ⟨_, hen⟩ hlater⟩⟩
  rw [hcomponents, hinside, hbelow, hroot]
  rfl

end LocaleEditor
