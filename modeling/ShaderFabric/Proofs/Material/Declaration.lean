/-
# A program declares what it refers to

Whether a node's text declares a uniform is decided by the references of the whole body, its
expressions joined by line ends.  Substitution reads each expression on its own, and puts it between
statements that it knows nothing of.  Where every expression closes the comments it opens, all of
these read the same references.

* `Body.references_eq` -- the body as a whole and its texts have the same references;
* `mem_declared_iff` -- a uniform is declared if and only if there is a reference to it;
* `references_le_bodyText` -- every reference is one to the identifier in the function;
* `declared_iff_referenced` -- what this comes to for a fabric that resolves.
-/
import ShaderFabric.Proofs.Material.Emission

namespace ShaderFabric

/-! ## 1. Identifiers of a program -/

section Paths

variable {path : List String} (hpath : ∀ segment ∈ path, IsIdentifier segment)

include hpath

theorem isWordChar_encodePath : ∀ c ∈ (encodePath path).toList, isWordChar c = true := by
  induction path with
  | nil => exact fun c hc => absurd hc List.not_mem_nil
  | cons segment rest ih =>
    intro c hc
    rw [toList_encodePath_cons] at hc
    rcases List.mem_append.mp hc with hc | hc
    · exact isWordChar_of_isDigit (Nat.isDigit_of_mem_toDigits (by decide) (by decide) hc)
    · rcases List.mem_append.mp hc with hc | hc
      · exact (hpath segment List.mem_cons_self).isWordChar c hc
      · exact ih (fun s hs => hpath s (List.mem_cons_of_mem _ hs)) c hc

theorem isIdentifier_mangle {name : String} (hname : IsIdentifier name) :
    IsIdentifier (mangle name path) := by
  have hinfix : ∀ c ∈ "_r".toList, isWordChar c = true := List.all_eq_true.mp (by decide)
  exact (hname.append hinfix).append (isWordChar_encodePath hpath)

theorem isIdentifier_functionName : IsIdentifier (functionName path) := by
  have hentry : IsIdentifier entryPoint := ⟨'f', _, rfl, by decide, List.all_eq_true.mp (by decide)⟩
  have hinfix : ∀ c ∈ "_".toList, isWordChar c = true := List.all_eq_true.mp (by decide)
  unfold functionName
  split
  · exact hentry
  · exact (hentry.append hinfix).append (isWordChar_encodePath hpath)

end Paths

/-- Letters of a selector are an identifier. -/
theorem isIdentifier_of_isSelectorText {text : String} (h : isSelectorText text = true) :
    IsIdentifier text := by
  have hletter : ∀ c : Char, (c = 'r' || c = 'g' || c = 'b' || c = 'a') = true →
      isWordStart c = true := by
    intro c hc
    simp only [Bool.or_eq_true, decide_eq_true_eq] at hc
    rcases hc with ((rfl | rfl) | rfl) | rfl <;> decide
  unfold isSelectorText at h
  simp only [Bool.and_eq_true, decide_eq_true_eq, List.all_eq_true] at h
  obtain ⟨⟨hlength, -⟩, hall⟩ := h
  cases hlist : text.toList with
  | nil =>
    rw [hlist] at hlength
    exact absurd hlength (by decide)
  | cons c rest =>
    rw [hlist] at hall
    exact ⟨c, rest, hlist, hletter c (hall c List.mem_cons_self), fun d hd =>
      isWordChar_of_isWordStart (hletter d (hall d (List.mem_cons_of_mem _ hd)))⟩

/-! ## 2. What is put in is sound -/

/-- **Whatever is put into the texts of a node** of identifiers is an identifier or a call. -/
theorem sound_replacements {node : Node} (hdeclares : node.Declares) (htidy : node.Tidy)
    (hpath : ∀ segment ∈ node.path, IsIdentifier segment) (name : String) (put : Replacement)
    (h : (replacements node).find? name = some put) : put.Sound := by
  rcases of_find?_replacements h with ⟨uniform, huniform, hused, -, rfl⟩ |
    ⟨child, hchild, hused, -, rfl⟩ | ⟨-, -, rfl⟩
  · unfold Declared.replacement
    split
    · rename_i selector hselector
      have hletters := htidy.legible uniform huniform selector hselector
      exact ⟨selector, isIdentifier_of_isSelectorText hletters, .inl rfl⟩
    · rw [hdeclares.uniform_used uniform huniform] at hused
      exact ⟨_, isIdentifier_mangle hpath (isIdentifier_of_mentions hused), .inl rfl⟩
  · have hlonger : ∀ segment ∈ node.path ++ [child.name], IsIdentifier segment := by
      intro segment hsegment
      rcases List.mem_append.mp hsegment with hsegment | hsegment
      · exact hpath segment hsegment
      · rw [List.mem_singleton.mp hsegment]
        exact hdeclares.isIdentifier_of_used hchild hused
    exact ⟨_, isIdentifier_functionName hlonger, .inr rfl⟩
  · exact ⟨_, isIdentifier_functionName hpath, .inl rfl⟩

/-! ## 3. References of a body -/

namespace Body

/-- How often the texts of a body refer to a name, not counting members. -/
def references (body : Body) (name : String) : Nat :=
  totalReferences name false body.texts

/-- **A body whose expressions close the comments they open.**  Hand-written text may end in a
comment. -/
def Closed : Body → Prop
  | components assignments => ∀ assignment ∈ assignments, ClosesComments assignment.2.toList
  | _ => True

/-- **The body as a whole** has the references of its texts. -/
theorem references_eq {body : Body} (closed : body.Closed) (name : String) :
    countReferences body.text name false = body.references name := by
  cases body with
  | plain => exact countReferences_empty
  | components assignments =>
    exact countReferences_intercalate (List.forall_mem_map.mpr closed)
  | source text => exact (Nat.add_zero _).symm

end Body

/-- A uniform that is no selector is used if and only if there is a reference to it. -/
theorem used_iff_references {node : Node} (hdeclares : node.Declares) (closed : node.body.Closed)
    {uniform : Declared Value} (h : uniform ∈ node.uniforms)
    (hbound : uniform.value.isSelector = false) :
    uniform.used = true ↔ 0 < node.body.references uniform.name := by
  rw [hdeclares.uniform_used uniform h, Body.refersToUniform, hbound, mentions,
    Body.references_eq closed, decide_eq_true_eq]

/-- What stands in place of a uniform that is no selector is its identifier. -/
theorem replacement_of_bound {uniform : Declared Value} (h : uniform.value.isSelector = false)
    (path : List String) : uniform.replacement path = ⟨mangle uniform.name path, false⟩ := by
  have hnot : uniform.value.selector? = none := by
    cases hv : uniform.value with
    | channels selector =>
      rw [hv] at h
      cases h
    | _ => rfl
  unfold Declared.replacement
  rw [hnot]

/-! ## 4. Declarations -/

theorem mem_declaredOf {uniforms : List (Declared Value)} {path : List String}
    {entry : String × Kind} :
    entry ∈ declaredOf (uniforms.map (composeUniform true path)) ↔
      ∃ uniform ∈ uniforms, uniform.used = true ∧ uniform.value.isSelector = false ∧
        entry = (mangle uniform.name path, uniform.value.kind) := by
  unfold declaredOf
  rw [List.filterMap_map, List.mem_filterMap]
  refine exists_congr fun uniform => and_congr_right fun _ => ?_
  simp only [Function.comp_apply, composeUniform, Bool.true_and]
  cases uniform.used <;> cases uniform.value.isSelector <;>
    simp [eq_comm]

/-- **A uniform is declared if and only if the body refers to it**, with its identifier and type. -/
theorem mem_declared_iff {node : Node} (hdeclares : node.Declares) (htidy : node.Tidy)
    (closed : node.body.Closed) {uniform : Declared Value} (h : uniform ∈ node.uniforms)
    (hbound : uniform.value.isSelector = false) :
    (mangle uniform.name node.path, uniform.value.kind) ∈ (composeNode true node).declared ↔
      0 < node.body.references uniform.name := by
  rw [Program.declared, uniforms_composeNode, mem_declaredOf,
    ← used_iff_references hdeclares closed h hbound]
  constructor
  · rintro ⟨other, hother, hused, -, heq⟩
    have hname : other.name = uniform.name := by
      have hmangled := (Prod.mk.inj heq).1
      unfold mangle at hmangled
      rw [String.append_left_inj, String.append_left_inj] at hmangled
      exact hmangled.symm
    have hnames : (node.uniforms.map Declared.name).Nodup :=
      (List.nodup_append.mp htidy.distinct).1
    rwa [List.inj_on_of_nodup_map hnames hother h hname] at hused
  · intro hused
    exact ⟨uniform, h, hused, hbound, rfl⟩

/-! ## 5. References of a function -/

section Functions

variable {name : String}

/-- A line without a comment in front of a text takes no reference away. -/
theorem le_countReferences_line {line : String} (hslash : '/' ∉ line.toList) (rest : String) :
    countReferences rest name false ≤ countReferences (line ++ "\n" ++ rest) name false := by
  rw [show "\n" = String.singleton '\n' from rfl, countReferences_after hslash .newline]
  exact Nat.le_add_left _ _

/-- Texts that change without losing a reference. -/
theorem totalReferences_le_map {f : String → String} {other : String}
    (h : ∀ text, countReferences text name false ≤ countReferences (f text) other false) :
    ∀ texts : List String,
      totalReferences name false texts ≤ totalReferences other false (texts.map f)
  | [] => Nat.le_refl _
  | text :: rest => Nat.add_le_add (h text) (totalReferences_le_map h rest)

/-- The line of an expression has the references of the expression. -/
theorem le_countReferences_assignmentLine {replaced : Table Replacement}
    {assignment : Component × String}
    (closed : ClosesComments (substitute replaced assignment.2).toList) (rest : String) :
    countReferences (substitute replaced assignment.2) name false +
        countReferences rest name false ≤
      countReferences (assignmentLine replaced assignment ++ rest) name false := by
  obtain ⟨component, expression⟩ := assignment
  have hslash : '/' ∉ ("    material." ++ component.name ++ " =").toList := by
    cases component <;> decide
  have hclosed : ClosesComments (substitute replaced expression ++ ";").toList := by
    rw [String.toList_append]
    exact closed.snoc .semicolon
  have hline : assignmentLine replaced (component, expression) ++ rest =
      ("    material." ++ component.name ++ " =") ++ String.singleton ' ' ++
        (substitute replaced expression ++ ";" ++ "\n" ++ rest) := by
    have hblank : (" = " : String) = " =" ++ String.singleton ' ' := rfl
    have hend : (";\n" : String) = ";" ++ "\n" := rfl
    unfold assignmentLine
    rw [hblank, hend]
    simp only [String.append_assoc]
  rw [hline, countReferences_after hslash .blank, countReferences_line hclosed,
    show (";" : String) = String.singleton ';' from rfl, countReferences_snoc .semicolon]
  exact Nat.le_add_left _ _

theorem le_countReferences_assignments {replaced : Table Replacement} (rest : String) :
    ∀ {assignments : List (Component × String)},
      (∀ assignment ∈ assignments, ClosesComments (substitute replaced assignment.2).toList) →
      totalReferences name false ((assignments.map Prod.snd).map (substitute replaced)) ≤
        countReferences (String.join (assignments.map (assignmentLine replaced)) ++ rest) name false
  | [], _ => Nat.zero_le _
  | assignment :: later, closed => by
    have hfirst := closed assignment List.mem_cons_self
    have hlater := le_countReferences_assignments rest
      fun other h => closed other (List.mem_cons_of_mem _ h)
    rw [List.map_cons, List.map_cons, totalReferences, List.map_cons, String.join_cons,
      String.append_assoc]
    exact (Nat.add_le_add_left hlater _).trans (le_countReferences_assignmentLine hfirst _)

end Functions

/-- What stands before the statements of a function, without the line end. -/
def functionStart (function : String) : String :=
  "fabric_material " ++ function ++ ("(fabric_materialInput materialInput)\n\x7b\n"
    ++ "    fabric_material material = fabric_getDefaultMaterial(materialInput);")

theorem functionHead_eq (function : String) :
    functionHead function ++
        "    fabric_material material = fabric_getDefaultMaterial(materialInput);\n" =
      functionStart function ++ "\n" := by
  have hend :
      ("    fabric_material material = fabric_getDefaultMaterial(materialInput);\n" : String) =
        "    fabric_material material = fabric_getDefaultMaterial(materialInput);" ++ "\n" := rfl
  unfold functionHead functionStart
  rw [hend]
  simp only [String.append_assoc]

theorem slash_not_mem_functionStart {function : String} (h : IsIdentifier function) :
    '/' ∉ (functionStart function).toList := by
  have hbefore : '/' ∉ "fabric_material ".toList := by decide
  have hafter : '/' ∉ ("(fabric_materialInput materialInput)\n\x7b\n"
      ++ "    fabric_material material = fabric_getDefaultMaterial(materialInput);").toList := by
    decide +kernel
  have hfunction : '/' ∉ function.toList := fun hmem =>
    absurd (h.isWordChar '/' hmem) (by decide)
  unfold functionStart
  rw [String.toList_append, String.toList_append, List.mem_append, List.mem_append]
  exact not_or.mpr ⟨not_or.mpr ⟨hbefore, hfunction⟩, hafter⟩

/-- **The function of a body** has the references of its texts, as these are after substitution. -/
theorem references_le_bodyText {node : Node} {name identifier : String}
    (hpath : ∀ segment ∈ node.path, IsIdentifier segment)
    (hsubstituted : ∀ text, countReferences text name false ≤
      countReferences (substitute (replacements node) text) identifier false)
    (closed : ∀ text : String, ClosesComments text.toList →
      ClosesComments (substitute (replacements node) text).toList)
    (hbody : node.body.Closed) :
    node.body.references name ≤ countReferences node.bodyText identifier false := by
  unfold Body.references Node.bodyText
  cases hcase : node.body with
  | plain => exact Nat.zero_le _
  | source text => exact hsubstituted text
  | components assignments =>
    rw [hcase] at hbody
    have hslash := slash_not_mem_functionStart (isIdentifier_functionName hpath)
    dsimp only
    rw [functionHead_eq, String.append_assoc]
    calc totalReferences name false (assignments.map Prod.snd)
        ≤ totalReferences identifier false
            ((assignments.map Prod.snd).map (substitute (replacements node))) :=
          totalReferences_le_map hsubstituted _
      _ ≤ countReferences (String.join (assignments.map (assignmentLine (replacements node)))
            ++ "    return material;\n\x7d\n") identifier false :=
          le_countReferences_assignments _ fun assignment h =>
            closed assignment.2 (hbody assignment h)
      _ ≤ _ := le_countReferences_line hslash _

/-- **Every reference is one to the identifier**, in the function that comes after the
declarations. -/
theorem references_le_function {node : Node} (hdeclares : node.Declares) (htidy : node.Tidy)
    (hpath : ∀ segment ∈ node.path, IsIdentifier segment) (closed : node.body.Closed)
    {uniform : Declared Value} (h : uniform ∈ node.uniforms)
    (hbound : uniform.value.isSelector = false) (hentry : uniform.name ≠ entryPoint)
    {ending : String} (hending : ending = "" ∨ ending = "\n") :
    node.body.references uniform.name ≤
      countReferences (node.bodyText ++ ending) (mangle uniform.name node.path) false := by
  rcases Nat.eq_zero_or_pos (node.body.references uniform.name) with hnone | hsome
  · rw [hnone]
    exact Nat.zero_le _
  · have hused := (used_iff_references hdeclares closed h hbound).mpr hsome
    have hname : IsIdentifier uniform.name := by
      rw [hdeclares.uniform_used uniform h] at hused
      exact isIdentifier_of_mentions hused
    have sound := fun name put hput =>
      (sound_replacements hdeclares htidy hpath name put hput).isReference
    have hfind : (replacements node).find? uniform.name =
        some ⟨mangle uniform.name node.path, false⟩ := by
      rw [replacements_find?_uniform htidy.distinct h hused fun _ => hentry,
        replacement_of_bound hbound]
    have hbody := references_le_bodyText hpath
      (countReferences_le_substitute sound hfind (isIdentifier_mangle hpath hname))
      (fun _ => closesComments_substitute sound) closed
    rcases hending with rfl | rfl
    · rwa [String.append_empty]
    · exact hbody.trans (countReferences_snoc .newline node.bodyText).ge

/-! ## 6. Whole programs -/

/-- **A program declares exactly the uniforms it refers to.**  Take an emitted node of what a fabric
resolves to, with expressions that close the comments they open and no uniform named like the entry
point.  Its text is declarations and a function.  A uniform that is no channel selector is declared
if and only if there is a reference to it in the body, and the function refers to its identifier at
least as often. -/
theorem declared_iff_referenced {library : Library} (hlibrary : library.Ordered) {strict : Bool}
    {fabric : Fabric} (hfabric : fabric.Ordered) {root : Node}
    (h : resolve library strict fabric = .ok root) :
    (compose root).nodes.filter Program.emitted = root.emitted.map (composeNode true) ∧
    ∀ node ∈ root.emitted, node.body.Closed →
      (∀ uniform ∈ node.uniforms, uniform.name ≠ entryPoint) →
      ∃ function, (composeNode true node).text =
          String.join ((composeNode true node).declared.map canonicalLine) ++ function ∧
        ∀ uniform ∈ node.uniforms, uniform.value.isSelector = false →
          ((mangle uniform.name node.path, uniform.value.kind) ∈ (composeNode true node).declared ↔
            0 < node.body.references uniform.name) ∧
          node.body.references uniform.name ≤
            countReferences function (mangle uniform.name node.path) false := by
  obtain ⟨hroot, hwf⟩ := wellFormed_resolve h
  have htidy := tidy_resolve hlibrary hfabric h
  refine ⟨filter_nodes_composeNode root, fun node hnode closed hentry => ?_⟩
  obtain ⟨hnodewf, rest, hpath, hrest⟩ := path_of_mem_emitted hwf hnode
  rw [hroot, List.nil_append] at hpath
  subst hpath
  have hdeclares := hnodewf.own
  have hnodetidy := tidy_of_mem_emitted htidy hnode
  obtain ⟨ending, hending, htext⟩ := text_composeNode node
  refine ⟨node.bodyText ++ ending, ?_, fun uniform huniform hbound => ⟨?_, ?_⟩⟩
  · rw [htext, String.append_assoc]
  · exact mem_declared_iff hdeclares hnodetidy closed huniform hbound
  · exact references_le_function hdeclares hnodetidy hrest closed huniform hbound
      (hentry uniform huniform) hending

namespace Example

/-- Expressions with comments, one up to the end of its line, and with a member and a number that
look like the uniform. -/
def measured : Fabric :=
  { uniforms := [("depth", .bool true), ("idle", .bool true)]
    components := some [("alpha", "float(depth) /* depth */ + scale.depth // depth"),
      ("shininess", "2.depth * float(!depth)")] }

theorem measured_ordered : measured.Ordered :=
  .intro (by unfold Table.Sorted; decide) .nil fun _ _ h => absurd h List.not_mem_nil

/-- What the fabric resolves to has its two uniforms and its two expressions. -/
theorem resolve_measured : ∃ root, resolve Library.empty false measured = .ok root ∧
    root.uniforms.map (fun uniform => (uniform.name, uniform.value)) =
      [("depth", .bool true), ("idle", .bool true)] ∧
    root.body = .components [(.alpha, "float(depth) /* depth */ + scale.depth // depth"),
      (.shininess, "2.depth * float(!depth)")] := by
  have hmade : (resolve Library.empty false measured).toOption.map (fun root =>
      (root.uniforms.map (fun uniform => (uniform.name, uniform.value)), root.body)) =
        some ([("depth", .bool true), ("idle", .bool true)],
          .components [(.alpha, "float(depth) /* depth */ + scale.depth // depth"),
            (.shininess, "2.depth * float(!depth)")]) := by
    decide
  obtain ⟨root, hroot, hparts⟩ := toOption_map_eq_some hmade
  exact ⟨root, hroot, Prod.mk.inj hparts⟩

/-- Of two uniforms the one with two references is declared, and the function has two at least. -/
theorem measured_declares : Library.empty.Ordered ∧ measured.Ordered ∧
    ∃ root, resolve Library.empty false measured = .ok root ∧ root ∈ root.emitted ∧
      root.body.Closed ∧ (∀ uniform ∈ root.uniforms, uniform.name ≠ entryPoint) ∧
      ∃ function, (composeNode true root).text =
          String.join ((composeNode true root).declared.map canonicalLine) ++ function ∧
        ("depth_r", Kind.bool) ∈ (composeNode true root).declared ∧
        ("idle_r", Kind.bool) ∉ (composeNode true root).declared ∧
        2 ≤ countReferences function "depth_r" false := by
  refine ⟨Library.ordered_empty, measured_ordered, ?_⟩
  obtain ⟨root, hroot, huniforms, hbody⟩ := resolve_measured
  have hpath := (wellFormed_resolve hroot).1
  have hmem := root.self_mem_emitted
  have closed : root.body.Closed := by
    rw [hbody]
    have hclosed : ∀ assignment ∈ [(Component.alpha,
        "float(depth) /* depth */ + scale.depth // depth"),
        (Component.shininess, "2.depth * float(!depth)")],
          ClosesComments assignment.2.toList := by
      decide +kernel
    exact hclosed
  have hreferences : root.body.references "depth" = 2 ∧ root.body.references "idle" = 0 := by
    rw [hbody]
    decide +kernel
  have hentry : ∀ uniform ∈ root.uniforms, uniform.name ≠ entryPoint := by
    intro uniform huniform
    have hname : (uniform.name, uniform.value) ∈
        [("depth", Value.bool true), ("idle", .bool true)] :=
      huniforms ▸ List.mem_map_of_mem huniform
    rcases List.mem_cons.mp hname with heq | hname
    · rw [(Prod.mk.inj heq).1]
      decide +kernel
    · rw [(Prod.mk.inj (List.mem_singleton.mp hname)).1]
      decide +kernel
  have huniform : ∀ name, (name, Value.bool true) ∈
      [("depth", Value.bool true), ("idle", Value.bool true)] →
        ∃ uniform ∈ root.uniforms, uniform.name = name ∧ uniform.value = .bool true := by
    intro name hname
    rw [← huniforms] at hname
    obtain ⟨uniform, hmem, heq⟩ := List.mem_map.mp hname
    exact ⟨uniform, hmem, Prod.mk.inj heq⟩
  obtain ⟨function, htext, hall⟩ :=
    (declared_iff_referenced Library.ordered_empty measured_ordered hroot).2 root hmem closed hentry
  obtain ⟨depth, hdepth, hdepthName, hdepthValue⟩ := huniform "depth" (by simp)
  obtain ⟨idle, hidle, hidleName, hidleValue⟩ := huniform "idle" (by simp)
  obtain ⟨hdeclared, hcount⟩ := hall depth hdepth (by rw [hdepthValue]; rfl)
  obtain ⟨hundeclared, -⟩ := hall idle hidle (by rw [hidleValue]; rfl)
  rw [hdepthName, hdepthValue, hpath, hreferences.1] at hdeclared
  rw [hdepthName, hpath, hreferences.1] at hcount
  rw [hidleName, hidleValue, hpath, hreferences.2] at hundeclared
  refine ⟨root, hroot, hmem, closed, hentry, function, htext, ?_, ?_, hcount⟩
  · exact hdeclared.mpr (by decide)
  · exact fun h => absurd (hundeclared.mp h) (by decide)

end Example

end ShaderFabric
