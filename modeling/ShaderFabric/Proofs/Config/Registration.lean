/-
# Configured templates are registered

A configuration names files of templates, and its rules are checked before any file is read.  The
library then cuts the blanks at the ends of each name before it asks whether the name is taken; the
rules of the configuration ask for a built-in template of the name as it is written.  So a name with
blanks at its ends can keep all rules and still be taken.

* `trimBlanks_trimBlanks` -- a name that has been cut stays as it is;
* `registerAll_eq_ok`, `registerAll_eq_error` -- when a row of templates is registered, and which of
  them is refused;
* `run_addTemplates` -- the files of a row of templates, read one after the other;
* `served_iff_trimmed` -- what this comes to for a configuration that keeps the rules.
-/
import Mathlib.Data.List.DropRight
import ShaderFabric.Command.Load
import ShaderFabric.Command.Memory
import ShaderFabric.Proofs.Checks
import ShaderFabric.Proofs.Table

namespace ShaderFabric

/-! ## 1. Names without blanks at their ends -/

/-- What is left of a text between the blanks at its ends. -/
def trimmed (cs : List Char) : List Char :=
  ((cs.dropWhile isBlank).reverse.dropWhile isBlank).reverse

theorem trimmed_trimmed (cs : List Char) : trimmed (trimmed cs) = trimmed cs := by
  have hend := List.takeWhile_append_dropWhile (p := isBlank) (l := (cs.dropWhile isBlank).reverse)
  have hhead := List.head?_dropWhile_not isBlank cs
  unfold trimmed
  generalize hkept : (cs.dropWhile isBlank).reverse.dropWhile isBlank = kept at hend
  have hlast : kept.dropWhile isBlank = kept := by
    rw [← hkept, List.dropWhile_idempotent]
  -- the first character of what is kept is that of the text without the blanks before it
  have hfirst : kept.reverse.dropWhile isBlank = kept.reverse := by
    have hsplit : cs.dropWhile isBlank =
        kept.reverse ++ ((cs.dropWhile isBlank).reverse.takeWhile isBlank).reverse := by
      rw [← List.reverse_append, hend, List.reverse_reverse]
    rw [hsplit] at hhead
    cases hrev : kept.reverse with
    | nil => rfl
    | cons c rest =>
      rw [hrev] at hhead
      exact List.dropWhile_cons_of_neg (by simpa using hhead)
  rw [hfirst, List.reverse_reverse, hlast]

/-- **Blanks are cut once.** -/
theorem trimBlanks_trimBlanks (name : String) : trimBlanks (trimBlanks name) = trimBlanks name := by
  have htwice := trimmed_trimmed name.toList
  unfold trimmed at htwice
  unfold trimBlanks
  rw [String.toList_ofList, htwice]

/-! ## 2. Registering templates -/

namespace Table

variable {α : Type}

theorem perm_insert {name : String} (value : α) : ∀ {table : Table α},
    table.find? name = none → (table.insert name value).Perm ((name, value) :: table)
  | [], _ => .refl _
  | (key, old) :: rest, h => by
    unfold find? at h
    split at h
    · cases h
    · rename_i hne
      unfold insert
      split
      · exact .refl _
      · rw [if_neg fun heq => hne heq.symm]
        exact ((perm_insert value h).cons _).trans (.swap ..)

end Table

namespace Library

/-- The template that a fabric is registered as under a name. -/
def entry (named : String × Fabric) : String × Template :=
  (trimBlanks named.1, ⟨trimBlanks named.1, named.2, .never⟩)

/-- Registers fabrics under names, one after the other.  The first one that is refused is the
answer, with its name. -/
def registerAll (library : Library) :
    List (String × Fabric) → Except (String × RegisterError) Library
  | [] => .ok library
  | (name, fabric) :: rest =>
    match library.register ⟨name, fabric, .never⟩ with
    | (.error error, _) => .error (name, error)
    | (.ok (), library) => library.registerAll rest

theorem contains_eq_false {library : Library} {name : String} :
    library.contains name = false ↔
      library.custom.find? name = none ∧ Template.builtins.find? name = none := by
  unfold contains get?
  rw [Option.isSome_eq_false_iff, Option.isNone_iff_eq_none, Option.or_eq_none_iff]

theorem contains_empty (name : String) : empty.contains name = Template.builtins.contains name :=
  rfl

/-- What has a template after one more has been added. -/
theorem contains_insert (library : Library) (name other : String) (template : Template) :
    Library.contains ⟨library.custom.insert name template⟩ other =
      (decide (name = other) || library.contains other) := by
  unfold contains get?
  rw [Table.find?_insert]
  by_cases h : name = other
  · rw [if_pos h, decide_eq_true h]
    rfl
  · rw [if_neg h, decide_eq_false h, Bool.false_or]

section Register

variable {library : Library} {name : String} {fabric : Fabric} (hname : trimBlanks name ≠ "")

include hname

theorem register_of_free (hfree : library.contains (trimBlanks name) = false) :
    library.register ⟨name, fabric, .never⟩ = (.ok (), ⟨library.custom.insert (trimBlanks name)
      (entry (name, fabric)).2⟩) := by
  unfold register
  rw [if_neg hname, if_neg (by rw [hfree]; exact Bool.false_ne_true)]
  rfl

theorem register_of_taken (htaken : library.contains (trimBlanks name) = true) :
    library.register ⟨name, fabric, .never⟩ = (.error (.taken (trimBlanks name)), library) := by
  unfold register
  rw [if_neg hname, if_pos htaken]

end Register

/-- Names that a library lacks, each once. -/
def Free (library : Library) (names : List String) : Prop :=
  names.Nodup ∧ ∀ name ∈ names, library.contains name = false

theorem free_cons {library : Library} {name : String} {names : List String} (template : Template) :
    library.Free (name :: names) ↔ library.contains name = false ∧
      Library.Free ⟨library.custom.insert name template⟩ names := by
  unfold Free
  simp only [List.nodup_cons, List.forall_mem_cons, contains_insert, Bool.or_eq_false_iff,
    decide_eq_false_iff_not]
  constructor
  · rintro ⟨⟨hnot, hnodup⟩, hname, hrest⟩
    exact ⟨hname, hnodup, fun other hother => ⟨fun heq => hnot (heq ▸ hother), hrest other hother⟩⟩
  · rintro ⟨hname, hnodup, hrest⟩
    exact ⟨⟨fun hmem => (hrest name hmem).1 rfl, hnodup⟩, hname, fun other hother =>
      (hrest other hother).2⟩

/-- **A row of templates whose names are free is registered**, each under its own name. -/
theorem registerAll_eq_ok : ∀ {named : List (String × Fabric)} {library : Library},
    (∀ entry ∈ named, trimBlanks entry.1 ≠ "") →
    library.Free (named.map fun entry => trimBlanks entry.1) →
    ∃ last, library.registerAll named = .ok last ∧
      last.custom.Perm (named.map entry ++ library.custom)
  | [], library, _, _ => ⟨library, rfl, .refl _⟩
  | (name, fabric) :: rest, library, hnames, hfree => by
    obtain ⟨hname, hrest⟩ := List.forall_mem_cons.mp hnames
    obtain ⟨hfirst, hlater⟩ := (free_cons (entry (name, fabric)).2).mp hfree
    obtain ⟨last, hlast, hperm⟩ := registerAll_eq_ok hrest hlater
    refine ⟨last, ?_, ?_⟩
    · rw [registerAll, register_of_free hname hfirst]
      exact hlast
    · have hinsert := Table.perm_insert (entry (name, fabric)).2
        (contains_eq_false.mp hfirst).1
      exact (hperm.trans (hinsert.append_left _)).trans List.perm_middle

/-- **The template that is refused** is the first one whose name is taken, by the library or by a
template before it. -/
theorem registerAll_eq_error : ∀ {named : List (String × Fabric)} {library : Library},
    (∀ entry ∈ named, trimBlanks entry.1 ≠ "") →
    ¬ library.Free (named.map fun entry => trimBlanks entry.1) →
    ∃ before name fabric after, named = before ++ (name, fabric) :: after ∧
      library.Free (before.map fun entry => trimBlanks entry.1) ∧
      (library.contains (trimBlanks name) = true ∨
        trimBlanks name ∈ before.map fun entry => trimBlanks entry.1) ∧
      library.registerAll named = .error (name, .taken (trimBlanks name))
  | [], library, _, hnot => absurd ⟨.nil, fun _ h => absurd h List.not_mem_nil⟩ hnot
  | (name, fabric) :: rest, library, hnames, hnot => by
    obtain ⟨hname, hrest⟩ := List.forall_mem_cons.mp hnames
    cases hcontains : library.contains (trimBlanks name) with
    | true =>
      refine ⟨[], name, fabric, rest, rfl, ⟨.nil, fun _ h => absurd h List.not_mem_nil⟩,
        .inl hcontains, ?_⟩
      rw [registerAll, register_of_taken hname hcontains]
    | false =>
      have hlater : ¬ Library.Free ⟨library.custom.insert (trimBlanks name)
          (entry (name, fabric)).2⟩ (rest.map fun entry => trimBlanks entry.1) :=
        fun hfree => hnot ((free_cons _).mpr ⟨hcontains, hfree⟩)
      obtain ⟨before, other, otherFabric, after, hsplit, hfree, htaken, herror⟩ :=
        registerAll_eq_error hrest hlater
      refine ⟨(name, fabric) :: before, other, otherFabric, after, ?_,
        (free_cons _).mpr ⟨hcontains, hfree⟩, ?_, ?_⟩
      · rw [hsplit, List.cons_append]
      · rw [contains_insert, Bool.or_eq_true, decide_eq_true_eq] at htaken
        rw [List.map_cons, List.mem_cons]
        rcases htaken with (heq | hlibrary) | hbefore
        · exact .inr (.inl heq.symm)
        · exact .inl hlibrary
        · exact .inr (.inr hbefore)
      · rw [registerAll, register_of_free hname hcontains]
        exact herror

end Library

/-! ## 3. Reading the files -/

/-- The file at a path can be read and is a fabric. -/
def Memory.HasFabric (memory : Memory) (path : String) (fabric : Fabric) : Prop :=
  (readFabric Host.memory path).run.run memory = (.ok fabric, memory)

/-- What a command says of a template that is not registered. -/
def refusedTemplate (refused : String × RegisterError) : Failure :=
  .because ("failed to register template '" ++ refused.1 ++ "'") [refused.2.message]

/-- A step that has an answer is followed by the next one. -/
theorem run_bind_of_ok {α β : Type} {memory next : Memory} {first : Step (StateM Memory) α}
    {answer : α} (h : first.run.run memory = (.ok answer, next))
    (rest : α → Step (StateM Memory) β) :
    (first >>= rest).run.run memory = (rest answer).run.run next := by
  rw [ExceptT.run_bind, StateT.run_bind, h]
  rfl

/-- **Reading files and registering what they hold** is registering the fabrics of the files. -/
theorem run_addTemplates {memory : Memory} {fabric : String → Fabric} :
    ∀ {templates : Table String} {library : Library},
      (∀ entry ∈ templates, memory.HasFabric entry.2 (fabric entry.2)) →
      (addTemplates Host.memory library templates).run.run memory =
        ((library.registerAll (templates.map fun entry => (entry.1, fabric entry.2))).mapError
          refusedTemplate, memory)
  | [], library, _ => rfl
  | (name, path) :: rest, library, hfiles => by
    obtain ⟨hfile, hrest⟩ := List.forall_mem_cons.mp hfiles
    rw [addTemplates, run_bind_of_ok hfile, List.map_cons, Library.registerAll]
    rcases library.register ⟨name, fabric path, .never⟩ with ⟨result, next⟩
    cases result with
    | error error => rfl
    | ok _ => exact run_addTemplates hrest

/-! ## 4. Configurations that keep the rules -/

namespace Config

theorem checkTemplate_eq_ok {name path : String} : checkTemplate name path = .ok () ↔
    trimBlanks name ≠ "" ∧ Template.builtins.find? name = none ∧ path ≠ "" := by
  unfold checkTemplate
  by_cases hname : trimBlanks name = ""
  · simp [hname]
  · cases hfind : Template.builtins.find? name with
    | some template => simp [hname]
    | none =>
      by_cases hpath : path = ""
      · simp [hname, hpath]
      · simp [hname, hpath]

theorem checkTemplates_eq_ok : ∀ {templates : Table String}, checkTemplates templates = .ok () ↔
    ∀ entry ∈ templates, checkTemplate entry.1 entry.2 = .ok ()
  | [] => by simp [checkTemplates]
  | (name, path) :: rest => by
    rw [checkTemplates, bind_eq_ok, List.forall_mem_cons, ← checkTemplates_eq_ok]
    constructor
    · rintro ⟨_, hfirst, hrest⟩
      exact ⟨hfirst, hrest⟩
    · rintro ⟨hfirst, hrest⟩
      exact ⟨(), hfirst, hrest⟩

/-- The last of the rules is that of the templates. -/
theorem checkTemplates_of_validate {config : Config} (h : config.validate = .ok ()) :
    checkTemplates config.templates = .ok () := by
  unfold validate at h
  simp only [refuse_eq_ok] at h
  obtain ⟨-, -, -, h⟩ := h
  cases hrepeat : firstRepeat [] config.textures.codecs with
  | some codec =>
    rw [hrepeat] at h
    cases h
  | none =>
    rw [hrepeat] at h
    exact (refuse_eq_ok.mp h).2

/-- The configured names as they are registered. -/
def registeredNames (config : Config) : List String := config.templates.names.map trimBlanks

/-- The fabrics of the files under the configured names. -/
def named (config : Config) (fabric : String → Fabric) : List (String × Fabric) :=
  config.templates.map fun entry => (entry.1, fabric entry.2)

theorem map_trimBlanks_named (config : Config) (fabric : String → Fabric) :
    (config.named fabric).map (fun entry => trimBlanks entry.1) = config.registeredNames := by
  simp [named, registeredNames, Table.names, Function.comp_def]

/-- A library serves configured templates: it holds one template for each of them, and each
configured name has the fabric of its own file. -/
structure Serves (config : Config) (fabric : String → Fabric) (library : Library) : Prop where
  one_each : library.custom.length = config.templates.length
  own_file : ∀ name path, (name, path) ∈ config.templates →
    ∃ template, library.get? name = some template ∧ template.fabric = fabric path

section Valid

variable {config : Config} (hvalid : config.validate = .ok ())

include hvalid

theorem rules_of_validate {name : String} (hname : name ∈ config.templates.names) :
    trimBlanks name ≠ "" ∧ Template.builtins.find? name = none := by
  obtain ⟨entry, hentry, rfl⟩ := List.mem_map.mp hname
  have hrules := checkTemplates_eq_ok.mp (checkTemplates_of_validate hvalid) entry hentry
  obtain ⟨htrim, hbuiltin, -⟩ := checkTemplate_eq_ok.mp hrules
  exact ⟨htrim, hbuiltin⟩

theorem trimBlanks_named_ne (fabric : String → Fabric) :
    ∀ entry ∈ config.named fabric, trimBlanks entry.1 ≠ "" := by
  intro entry hentry
  obtain ⟨⟨name, path⟩, hmem, rfl⟩ := List.mem_map.mp hentry
  exact (rules_of_validate hvalid (List.mem_map_of_mem hmem)).1

/-- Names without blanks at their ends are free. -/
theorem free_of_trimmed (hsorted : config.templates.Sorted)
    (htrimmed : ∀ name ∈ config.templates.names, trimBlanks name = name) :
    Library.empty.Free config.registeredNames := by
  have hnames : config.registeredNames = config.templates.names :=
    (List.map_congr_left htrimmed).trans (List.map_id _)
  rw [hnames]
  constructor
  · exact hsorted.nodup
  · intro name hname
    exact Library.contains_eq_false.mpr ⟨rfl, (rules_of_validate hvalid hname).2⟩

end Valid

end Config

/-! ## 5. What is built -/

section Build

variable {config : Config} {memory : Memory} {fabric : String → Fabric}
  (hvalid : config.validate = .ok ())
  (hfiles : ∀ entry ∈ config.templates, memory.HasFabric entry.2 (fabric entry.2))

include hvalid hfiles

/-- **Free names are registered**: the library holds the fabric of each file under the name without
the blanks at its ends, and nothing under a name that has some. -/
theorem buildLibrary_of_free (hfree : Library.empty.Free config.registeredNames) :
    ∃ library, (buildLibrary Host.memory config).run.run memory = (.ok library, memory) ∧
      library.custom.Perm ((config.named fabric).map Library.entry) ∧
      ∀ name path, (name, path) ∈ config.templates →
        library.get? (trimBlanks name) = some ⟨trimBlanks name, fabric path, .never⟩ ∧
        (library.contains name = true → trimBlanks name = name) := by
  have hcut := config.map_trimBlanks_named fabric
  obtain ⟨library, hbuild, hperm⟩ := Library.registerAll_eq_ok
    (Config.trimBlanks_named_ne hvalid fabric) (hcut ▸ hfree)
  have hcustom : library.custom.Perm ((config.named fabric).map Library.entry) := by
    simpa [Library.empty] using hperm
  have hnodup : library.custom.names.Nodup := by
    have hnames : library.custom.names.Perm config.registeredNames := by
      rw [← hcut, Table.names]
      simpa [Library.entry, Function.comp_def] using hcustom.map Prod.fst
    exact hnames.nodup_iff.mpr hfree.1
  refine ⟨library, ?_, hcustom, fun name path hmem => ⟨?_, fun hname => ?_⟩⟩
  · unfold buildLibrary
    rw [run_addTemplates hfiles]
    exact congrArg (fun built => (Except.mapError refusedTemplate built, memory)) hbuild
  · have hown : Library.entry (name, fabric path) ∈ library.custom := by
      rw [hcustom.mem_iff]
      exact List.mem_map_of_mem (List.mem_map_of_mem hmem)
    unfold Library.get?
    rw [Table.find?_eq_some_of_mem hnodup hown]
    rfl
  · -- a name that is found is that of an entry, and those have been cut
    have hbuiltin := (Config.rules_of_validate hvalid (List.mem_map_of_mem hmem)).2
    unfold Library.contains Library.get? at hname
    rw [hbuiltin, Option.or_none] at hname
    obtain ⟨template, hfind⟩ := Option.isSome_iff_exists.mp hname
    have hfound := hcustom.mem_iff.mp (Table.mem_of_find?_eq_some hfind)
    obtain ⟨other, -, hother⟩ := List.mem_map.mp hfound
    have hcutName : trimBlanks other.1 = name := congrArg Prod.fst hother
    rw [← hcutName, trimBlanks_trimBlanks]

/-- **Names that are not free are refused**, the first one that is taken with its own name and with
the name it would have had. -/
theorem buildLibrary_of_not_free (hfree : ¬ Library.empty.Free config.registeredNames) :
    ∃ before name path after, config.templates = before ++ (name, path) :: after ∧
      Library.empty.Free (before.map fun entry => trimBlanks entry.1) ∧
      (Template.builtins.contains (trimBlanks name) = true ∨
        trimBlanks name ∈ before.map fun entry => trimBlanks entry.1) ∧
      (buildLibrary Host.memory config).run.run memory =
        (.error (refusedTemplate (name, .taken (trimBlanks name))), memory) := by
  have hcut := config.map_trimBlanks_named fabric
  obtain ⟨before, name, own, after, hsplit, hbefore, htaken, hbuild⟩ :=
    Library.registerAll_eq_error (Config.trimBlanks_named_ne hvalid fabric) (hcut ▸ hfree)
  obtain ⟨first, last, htemplates, rfl, hlast⟩ := List.map_eq_append_iff.mp hsplit
  obtain ⟨⟨other, path⟩, rest, rfl, hentry, -⟩ := List.map_eq_cons_iff.mp hlast
  cases hentry
  rw [List.map_map] at hbefore htaken
  rw [Library.contains_empty] at htaken
  refine ⟨first, other, path, rest, htemplates, hbefore, htaken, ?_⟩
  unfold buildLibrary
  rw [run_addTemplates hfiles]
  exact congrArg (fun built => (Except.mapError refusedTemplate built, memory)) hbuild

/-- **A configuration that keeps the rules is served when its names have no blanks at their ends**,
and only then.  Blanks are no reason to refuse it as long as the names without them are free, but
then the names with blanks are not found; and if those names are not free, then the first one that
is taken is refused. -/
theorem served_iff_trimmed (hsorted : config.templates.Sorted) :
    ((∃ library, (buildLibrary Host.memory config).run.run memory = (.ok library, memory) ∧
        config.Serves fabric library) ↔
      ∀ name ∈ config.templates.names, trimBlanks name = name) ∧
    (Library.empty.Free config.registeredNames →
      ∃ library, (buildLibrary Host.memory config).run.run memory = (.ok library, memory) ∧
        library.custom.Perm ((config.named fabric).map Library.entry) ∧
        ∀ name path, (name, path) ∈ config.templates →
          library.get? (trimBlanks name) = some ⟨trimBlanks name, fabric path, .never⟩ ∧
          (library.contains name = true → trimBlanks name = name)) ∧
    (¬ Library.empty.Free config.registeredNames →
      ∃ before name path after, config.templates = before ++ (name, path) :: after ∧
        Library.empty.Free (before.map fun entry => trimBlanks entry.1) ∧
        (Template.builtins.contains (trimBlanks name) = true ∨
          trimBlanks name ∈ before.map fun entry => trimBlanks entry.1) ∧
        (buildLibrary Host.memory config).run.run memory =
          (.error (refusedTemplate (name, .taken (trimBlanks name))), memory)) := by
  refine ⟨⟨?_, ?_⟩, buildLibrary_of_free hvalid hfiles, buildLibrary_of_not_free hvalid hfiles⟩
  · rintro ⟨library, hbuild, hserves⟩ name hname
    obtain ⟨⟨_, path⟩, hmem, rfl⟩ := List.mem_map.mp hname
    by_cases hfree : Library.empty.Free config.registeredNames
    · obtain ⟨other, hother, -, hentries⟩ := buildLibrary_of_free hvalid hfiles hfree
      rw [hbuild] at hother
      cases hother
      obtain ⟨template, hget, -⟩ := hserves.own_file _ path hmem
      exact (hentries _ path hmem).2 (Option.isSome_iff_exists.mpr ⟨template, hget⟩)
    · obtain ⟨_, _, _, _, -, -, -, herror⟩ := buildLibrary_of_not_free hvalid hfiles hfree
      rw [hbuild] at herror
      cases herror
  · intro htrimmed
    have hfree := Config.free_of_trimmed hvalid hsorted htrimmed
    obtain ⟨library, hbuild, hperm, hentries⟩ := buildLibrary_of_free hvalid hfiles hfree
    refine ⟨library, hbuild, ?_, ?_⟩
    · rw [hperm.length_eq, List.length_map, Config.named, List.length_map]
    · intro name path hmem
      have hget := (hentries name path hmem).1
      rw [htrimmed name (List.mem_map_of_mem hmem)] at hget
      exact ⟨_, hget, rfl⟩

end Build

namespace Example

/-- A memory with two files: a fabric that says nothing, and one that is a built-in template. -/
def quarry : Memory where
  files := .ofFiles [("/a.json", .bytes "\x7b\x7d".toUTF8.toList),
    ("/b.json", .bytes "\x7b\"type\": \"Color\"\x7d".toUTF8.toList)] []
  workingDirectory := "/"

/-- What the files of the memory hold. -/
def quarried (path : String) : Fabric := if path = "a.json" then .empty else .ofType "Color"

theorem quarry_first : quarry.HasFabric "a.json" (quarried "a.json") := by
  with_unfolding_all rfl

theorem quarry_second : quarry.HasFabric "b.json" (quarried "b.json") := by
  with_unfolding_all rfl

/-- Two names without blanks at their ends. -/
def plainNames : Config := { templates := [("Moss", "a.json"), ("Slate", "b.json")] }

/-- Two names that differ in a blank at the start. -/
def twoMosses : Config := { templates := [(" Moss", "a.json"), ("Moss", "b.json")] }

/-- A name that is that of a built-in template but for the blanks. -/
def wideColor : Config := { templates := [(" Color ", "a.json")] }

/-- **Both rules can be kept by names that are taken**: one that another template has, and one that
a built-in template has. -/
theorem blanks_are_refused :
    (twoMosses.templates.Sorted ∧ twoMosses.validate = .ok () ∧
      (∀ entry ∈ twoMosses.templates, quarry.HasFabric entry.2 (quarried entry.2)) ∧
      (buildLibrary Host.memory twoMosses).run.run quarry =
        (.error (.because "failed to register template 'Moss'"
          ["template 'Moss' is already registered"]), quarry)) ∧
    (wideColor.templates.Sorted ∧ wideColor.validate = .ok () ∧
      (∀ entry ∈ wideColor.templates, quarry.HasFabric entry.2 (quarried entry.2)) ∧
      (buildLibrary Host.memory wideColor).run.run quarry =
        (.error (.because "failed to register template ' Color '"
          ["template 'Color' is already registered"]), quarry)) := by
  have htwo : ∀ entry ∈ twoMosses.templates, quarry.HasFabric entry.2 (quarried entry.2) := by
    simp [twoMosses, quarry_first, quarry_second]
  have hwide : ∀ entry ∈ wideColor.templates, quarry.HasFabric entry.2 (quarried entry.2) := by
    simp [wideColor, quarry_first]
  refine ⟨⟨by unfold Table.Sorted; decide +kernel, rfl, htwo, ?_⟩,
    ⟨by unfold Table.Sorted; decide +kernel, rfl, hwide, ?_⟩⟩
  · unfold buildLibrary
    rw [run_addTemplates htwo]
    rfl
  · unfold buildLibrary
    rw [run_addTemplates hwide]
    rfl

/-- Names without blanks are served, and the second `Moss` is refused. -/
theorem plain_names_served :
    (∃ library, (buildLibrary Host.memory plainNames).run.run quarry = (.ok library, quarry) ∧
      plainNames.Serves quarried library) ∧
    ¬ (∃ library, (buildLibrary Host.memory twoMosses).run.run quarry = (.ok library, quarry) ∧
      twoMosses.Serves quarried library) := by
  have hplain : ∀ entry ∈ plainNames.templates, quarry.HasFabric entry.2 (quarried entry.2) := by
    simp [plainNames, quarry_first, quarry_second]
  have htwo : ∀ entry ∈ twoMosses.templates, quarry.HasFabric entry.2 (quarried entry.2) := by
    simp [twoMosses, quarry_first, quarry_second]
  constructor
  · refine (served_iff_trimmed rfl hplain ?_).1.mpr ?_
    · unfold Table.Sorted; decide +kernel
    · decide +kernel
  · rw [(served_iff_trimmed rfl htwo (by unfold Table.Sorted; decide +kernel)).1]
    decide +kernel

end Example

end ShaderFabric
