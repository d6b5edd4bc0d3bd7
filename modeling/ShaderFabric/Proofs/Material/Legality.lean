/-
# The names of a program are legal

No rule makes a name of a fabric an identifier: a uniform or a sub-material may have any text as its
name.  But a name gets into a program only where a body refers to it, and what a body refers to are
words.  So whatever is composed is made of words, and the rules on underscores are what keeps two of
them from meeting where a name, its path and what stands between them are put together.

* `hasDoubleUnderscore_append`, `not_hasDoubleUnderscore_mangle`,
  `not_hasDoubleUnderscore_functionName` -- underscores that could meet, and do not;
* `infix_of_mem_words`, `surfacePrelude_lacks` -- a word of a text is a part of it, and the surface
  prelude has no part that every name of a program has;
* `IsLegal`, `isLegal_mangle`, `isLegal_functionName` -- legal names;
* `Program.Legal`, `legal_of_resolve` -- what this comes to for every node of a composed tree.
-/
import ShaderFabric.Proofs.Material.Origin

namespace ShaderFabric

/-! ## 1. Two underscores in a row -/

theorem hasDoubleUnderscore_cons (c : Char) (rest : List Char) :
    hasDoubleUnderscore (c :: rest) = true ↔
      (c = '_' ∧ rest.head? = some '_') ∨ hasDoubleUnderscore rest = true := by
  by_cases h : c = '_' ∧ rest.head? = some '_'
  · obtain ⟨rfl, hhead⟩ := h
    obtain ⟨later, rfl⟩ := List.head?_eq_some_iff.mp hhead
    simp [hasDoubleUnderscore]
  · have hskip : hasDoubleUnderscore (c :: rest) = hasDoubleUnderscore rest := by
      refine hasDoubleUnderscore.eq_2 c rest fun later hc hrest => h ⟨hc, ?_⟩
      rw [hrest]
      rfl
    rw [hskip, or_iff_right h]

/-- The check finds two underscores in a row wherever they stand. -/
theorem hasDoubleUnderscore_iff : ∀ {cs : List Char},
    hasDoubleUnderscore cs = true ↔ ['_', '_'] <:+: cs
  | [] => by simp [hasDoubleUnderscore]
  | c :: rest => by
    have hhead : ['_', '_'] <+: c :: rest ↔ c = '_' ∧ rest.head? = some '_' := by
      cases rest <;> simp [eq_comm]
    rw [hasDoubleUnderscore_cons, List.infix_cons_iff, hhead, hasDoubleUnderscore_iff]

/-- **Two texts put together** have two underscores in a row in one of them, or where they meet. -/
theorem hasDoubleUnderscore_append {ds : List Char} : ∀ {cs : List Char},
    hasDoubleUnderscore (cs ++ ds) = true ↔ hasDoubleUnderscore cs = true ∨
      hasDoubleUnderscore ds = true ∨ (cs.getLast? = some '_' ∧ ds.head? = some '_')
  | [] => by simp [hasDoubleUnderscore]
  | [c] => by
    rw [List.singleton_append, hasDoubleUnderscore_cons, hasDoubleUnderscore_cons]
    simp [hasDoubleUnderscore, or_comm]
  | c :: d :: rest => by
    rw [List.cons_append, hasDoubleUnderscore_cons, hasDoubleUnderscore_append,
      hasDoubleUnderscore_cons c, List.getLast?_cons_cons, or_assoc]
    rfl

theorem mem_of_hasDoubleUnderscore {cs : List Char} (h : hasDoubleUnderscore cs = true) :
    '_' ∈ cs :=
  (hasDoubleUnderscore_iff.mp h).subset List.mem_cons_self

section Paths

variable {path : List String} (hpath : ∀ segment ∈ path, isReservedMaterial segment = false)

include hpath

/-- An encoded path has no two underscores in a row: a segment may end in one, but a digit or
nothing comes next. -/
theorem not_hasDoubleUnderscore_encodePath :
    ¬ hasDoubleUnderscore (encodePath path).toList = true := by
  induction path with
  | nil => simp [encodePath, hasDoubleUnderscore]
  | cons segment rest ih =>
    obtain ⟨hsegment, hrest⟩ := List.forall_mem_cons.mp hpath
    rw [toList_encodePath_cons, hasDoubleUnderscore_append, hasDoubleUnderscore_append]
    rintro (hdigits | (hin | hin | ⟨-, hhead⟩) | ⟨hlast, -⟩)
    · exact Nat.underscore_not_in_toDigits (mem_of_hasDoubleUnderscore hdigits)
    · exact absurd (hin.symm.trans hsegment) (by decide)
    · exact ih hrest hin
    · obtain ⟨later, hlater⟩ := List.head?_eq_some_iff.mp hhead
      exact absurd (isDigit_of_encodePath_eq hlater) (by decide)
    · exact Nat.underscore_not_in_toDigits (List.mem_of_getLast? hlast)

/-- The identifier of a uniform has no two underscores in a row: its name does not end in one, so
that of `_r` comes alone. -/
theorem not_hasDoubleUnderscore_mangle {name : String} (hname : isReservedUniform name = false) :
    ¬ hasDoubleUnderscore (mangle name path).toList = true := by
  obtain ⟨hlast, hdouble⟩ : ¬ name.toList.getLast? = some '_' ∧
      hasDoubleUnderscore name.toList = false := by
    simpa [isReservedUniform] using hname
  rw [mangle, String.toList_append, String.toList_append, List.append_assoc,
    hasDoubleUnderscore_append, hasDoubleUnderscore_append]
  rintro (hin | (hin | hin | ⟨hend, -⟩) | ⟨hend, -⟩)
  · exact absurd (hin.symm.trans hdouble) (by decide)
  · exact absurd hin (by decide)
  · exact not_hasDoubleUnderscore_encodePath hpath hin
  · exact absurd hend (by decide)
  · exact hlast hend

/-- The function of a node has none either: behind its underscore a path starts with a digit. -/
theorem not_hasDoubleUnderscore_functionName :
    ¬ hasDoubleUnderscore (functionName path).toList = true := by
  unfold functionName
  split
  · decide
  · rw [String.toList_append, hasDoubleUnderscore_append]
    rintro (hin | hin | ⟨-, hhead⟩)
    · exact absurd hin (by decide)
    · exact not_hasDoubleUnderscore_encodePath hpath hin
    · obtain ⟨later, hlater⟩ := List.head?_eq_some_iff.mp hhead
      exact absurd (isDigit_of_encodePath_eq hlater) (by decide)

end Paths

/-! ## 2. The words of the surface prelude -/

/-- **A word of a text is a part of the text.** -/
theorem infix_of_mem_words {source : String} {word : Word} (h : word ∈ words source) :
    word.text.toList <:+: source.toList := by
  obtain ⟨text, htext, hword⟩ := mem_of_mem_wordsFrom _ _ _ h
  have hin := List.infix_of_mem_flatten (List.mem_map_of_mem (f := Lexeme.text) htext)
  rw [← List.flatMap_def, flatMap_text_lexemes] at hin
  rw [hword, String.toList_ofList]
  exact hin

/-- A text of whole lines in which a part of a line does not occur. -/
structure Lacks (part : List Char) (text : String) : Prop where
  part_of_line : '\n' ∉ part
  whole : text.toList.getLast? = some '\n'
  absent : ¬ part <:+: text.toList

namespace Lacks

variable {part : List Char}

theorem of_list {cs : List Char}
    (h : '\n' ∉ part ∧ cs.getLast? = some '\n' ∧ ¬ part <:+: cs) :
    Lacks part (String.ofList cs) where
  part_of_line := h.1
  whole := by rw [String.toList_ofList]; exact h.2.1
  absent := by rw [String.toList_ofList]; exact h.2.2

/-- A part of a line does not start in one of two texts and end in the other. -/
theorem append {text more : String} (h : Lacks part text) (hmore : Lacks part more) :
    Lacks part (text ++ more) := by
  refine ⟨h.part_of_line, ?_, ?_⟩
  · rw [String.toList_append, List.getLast?_append, hmore.whole]
    rfl
  · rw [String.toList_append, List.infix_append_iff]
    rintro (hin | hin | ⟨front, behind, hpart, hfront, hbehind⟩)
    · exact h.absent hin
    · exact hmore.absent hin
    · cases front with
      | nil =>
        rw [List.nil_append] at hpart
        exact hmore.absent (hpart ▸ hbehind.isInfix)
      | cons c cs =>
        -- the line would end inside the part
        have hlast : (c :: cs).getLast? = some '\n' := by
          rw [← h.whole]
          obtain ⟨before, htext⟩ := hfront
          rw [← htext, List.getLast?_append, List.getLast?_cons]
          rfl
        exact h.part_of_line (hpart ▸ List.mem_append_left _ (List.mem_of_getLast? hlast))

/-- A name with the part in it is no word of the text. -/
theorem ne_of_mem_words {text name : String} (h : Lacks part text) (hname : part <:+: name.toList)
    {word : Word} (hword : word ∈ words text) : word.text ≠ name := by
  rintro rfl
  exact h.absent (hname.trans (infix_of_mem_words hword))

end Lacks

/-- **The surface prelude** has neither the `_r` of every identifier nor the `getM` of every
function. -/
theorem surfacePrelude_lacks :
    Lacks ['_', 'r'] surfacePrelude ∧ Lacks ['g', 'e', 't', 'M'] surfacePrelude := by
  unfold surfacePrelude
  constructor
  all_goals
    repeat' apply Lacks.append
    all_goals exact Lacks.of_list (by decide +kernel)

/-! ## 3. Legal names -/

/-- **A legal name** is a word without two underscores in a row, which the language keeps for
itself, and none of the words of the surface prelude. -/
structure IsLegal (name : String) : Prop where
  identifier : IsIdentifier name
  single : ¬ ['_', '_'] <:+: name.toList
  fresh : ∀ word ∈ words surfacePrelude, word.text ≠ name

section Names

variable {path : List String} (hpath : ∀ segment ∈ path, IsIdentifier segment)
  (hunreserved : ∀ segment ∈ path, isReservedMaterial segment = false)

include hpath hunreserved

theorem isLegal_mangle {name : String} (hname : IsIdentifier name)
    (hfree : isReservedUniform name = false) : IsLegal (mangle name path) where
  identifier := isIdentifier_mangle hpath hname
  single := fun h =>
    not_hasDoubleUnderscore_mangle hunreserved hfree (hasDoubleUnderscore_iff.mpr h)
  fresh := fun _ => surfacePrelude_lacks.1.ne_of_mem_words (hasBreak_mangle name path)

theorem isLegal_functionName : IsLegal (functionName path) where
  identifier := isIdentifier_functionName hpath
  single := fun h =>
    not_hasDoubleUnderscore_functionName hunreserved (hasDoubleUnderscore_iff.mpr h)
  fresh := fun _ => surfacePrelude_lacks.2.ne_of_mem_words (by
    have hentry : ['g', 'e', 't', 'M'] <:+: entryPoint.toList := by decide
    unfold functionName
    split
    · exact hentry
    · rw [String.toList_append, String.toList_append, List.append_assoc]
      exact hentry.trans (List.prefix_append _ _).isInfix)

end Names

/-! ## 4. The nodes of a program -/

/-- **A node of a program with legal names**: its function and its identifiers are legal, and
whatever a fabric calls something by that is no identifier has no part in the program. -/
structure Program.Legal (program : Program) : Prop where
  function : program.emitted = true → IsLegal program.function
  mangled : ∀ uniform ∈ program.uniforms, ∀ name, uniform.mangled = some name → IsLegal name
  path : program.emitted = true → ∀ segment ∈ program.path, IsIdentifier segment
  declared : ∀ uniform ∈ program.uniforms, uniform.mangled ≠ none →
    program.emitted = true ∧ IsIdentifier uniform.name
  silent : program.emitted = false → program.text = ""

theorem legal_composeNode {node : Node} (h : node.Declares) {emitted : Bool}
    (hpath : emitted = true → ∀ segment ∈ node.path,
      IsIdentifier segment ∧ isReservedMaterial segment = false) :
    (composeNode emitted node).Legal := by
  -- an identifier is there only for a uniform that the body of an emitted node refers to
  have hbound : ∀ uniform ∈ (composeNode emitted node).uniforms, ∀ name,
      uniform.mangled = some name → emitted = true ∧ IsIdentifier uniform.name ∧
        isReservedUniform uniform.name = false ∧ name = mangle uniform.name node.path := by
    intro uniform huniform name hname
    rw [uniforms_composeNode] at huniform
    obtain ⟨declared, hdeclared, rfl⟩ := List.mem_map.mp huniform
    obtain ⟨hemitted, hused, -, rfl⟩ := mangled_composeUniform_eq_some.mp hname
    have hmentions := h.uniform_used declared hdeclared
    rw [hused] at hmentions
    exact ⟨hemitted, isIdentifier_of_mentions hmentions.symm,
      h.uniform_unreserved declared hdeclared, rfl⟩
  constructor
  case function =>
    rw [emitted_composeNode, function_composeNode]
    exact fun hemitted => isLegal_functionName (fun s hs => (hpath hemitted s hs).1)
      fun s hs => (hpath hemitted s hs).2
  case mangled =>
    intro uniform huniform name hname
    obtain ⟨hemitted, hidentifier, hfree, rfl⟩ := hbound uniform huniform name hname
    exact isLegal_mangle (fun s hs => (hpath hemitted s hs).1) (fun s hs => (hpath hemitted s hs).2)
      hidentifier hfree
  case path =>
    rw [emitted_composeNode, path_composeNode]
    exact fun hemitted segment hsegment => (hpath hemitted segment hsegment).1
  case declared =>
    intro uniform huniform hmangled
    obtain ⟨name, hname⟩ := Option.ne_none_iff_exists'.mp hmangled
    obtain ⟨hemitted, hidentifier, -⟩ := hbound uniform huniform name hname
    exact ⟨(emitted_composeNode emitted node).trans hemitted, hidentifier⟩
  case silent =>
    rw [emitted_composeNode]
    rintro rfl
    cases node
    rfl

/-- **A composer makes legal names only**, whatever names a fabric has that resolves, in either
mode. -/
theorem legal_of_resolve {library : Library} {strict : Bool} {fabric : Fabric} {root : Node}
    (h : resolve library strict fabric = .ok root) :
    ∀ program ∈ (compose root).nodes, program.Legal := by
  obtain ⟨hroot, hwf⟩ := wellFormed_resolve h
  intro program hprogram
  cases hemitted : program.emitted with
  | true =>
    have hmem : program ∈ (compose root).nodes.filter Program.emitted :=
      List.mem_filter.mpr ⟨hprogram, hemitted⟩
    rw [compose, filter_nodes_composeNode] at hmem
    obtain ⟨node, hnode, rfl⟩ := List.mem_map.mp hmem
    obtain ⟨hnodewf, rest, hpath, hrest⟩ := path_of_mem_emitted hwf hnode
    rw [hroot, List.nil_append] at hpath
    exact legal_composeNode hnodewf.own fun _ segment hsegment =>
      ⟨hrest segment (hpath ▸ hsegment),
        Material.unreserved_of_mem_emitted hroot hwf hnode segment hsegment⟩
  | false =>
    obtain ⟨origin, horigin, heq, -⟩ := mem_nodes_composeNode root true hwf
      (fun _ segment hs => absurd (hroot ▸ hs) List.not_mem_nil) program hprogram
    rw [heq, hemitted]
    exact legal_composeNode horigin.own fun hfalse => absurd hfalse Bool.false_ne_true

namespace Example

/-- Names with underscores at their ends, and names that are no identifiers. -/
def underscored : Fabric :=
  { uniforms := [("_x", .bool true), ("no name", .bool false)]
    materials := [("_a_", Fabric.ofType "Color"), ("two words", Fabric.ofType "Color")]
    components := some [("diffuse", "_a_.diffuse * float(_x)")] }

/-- The function of each node, whether it is emitted, and the identifiers of its uniforms. -/
def namesOfNodes (fabric : Fabric) : Option (List (String × Bool × List (Option String))) :=
  (resolve Library.empty false fabric).toOption.map fun root =>
    (compose root).nodes.map fun program =>
      (program.function, program.emitted, program.uniforms.map ProgramUniform.mangled)

theorem namesOfNodes_underscored : namesOfNodes underscored = some
    [("fabric_getMaterial_3_a_", true, [some "color_r3_a_"]),
     ("fabric_getMaterial_9two words", false, [none]),
     ("fabric_getMaterial", true, [some "_x_r", none])] := by
  decide +kernel

/-- The names of a fabric whose own names have underscores at their ends, or are no identifiers. -/
theorem underscored_legal : ∃ root, resolve Library.empty false underscored = .ok root ∧
    (∀ program ∈ (compose root).nodes, program.Legal) ∧
    ∃ program ∈ (compose root).nodes, program.emitted = true ∧
      program.function = "fabric_getMaterial_3_a_" ∧ IsLegal "fabric_getMaterial_3_a_" := by
  obtain ⟨root, hresolve, hnames⟩ := toOption_map_eq_some namesOfNodes_underscored
  have legal := legal_of_resolve hresolve
  have hmem : ("fabric_getMaterial_3_a_", true, [some "color_r3_a_"]) ∈
      (compose root).nodes.map fun program =>
        (program.function, program.emitted, program.uniforms.map ProgramUniform.mangled) := by
    rw [hnames]
    exact List.mem_cons_self
  obtain ⟨program, hprogram, heq⟩ := List.mem_map.mp hmem
  obtain ⟨hfunction, hemitted, -⟩ := by simpa only [Prod.mk.injEq] using heq
  exact ⟨root, hresolve, legal, program, hprogram, hemitted, hfunction,
    hfunction ▸ (legal program hprogram).function hemitted⟩

end Example

end ShaderFabric
