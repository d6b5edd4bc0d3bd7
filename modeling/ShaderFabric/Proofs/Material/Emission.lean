/-
# The order of a program

The nodes that are part of a program are those that can be reached from the root by sub-materials
that are referred to.  Their texts stand one after the other, each after those of the node's
sub-materials, and every node has a function of its own.  So whatever a text calls has been written
before.

* `Node.emitted` -- the nodes of the program in their order, which is that of `compose`
  (`filter_nodes_composeNode`, `source_composeNode`);
* `pairwise_functionName` -- different nodes have different functions;
* `mem_before_of_emitted` -- sub-materials come before;
* `text_composeNode_pieces` -- what the text of a node is put together from, its calls among it;
* `program_in_order` -- what this comes to for a fabric that resolves.
-/
import ShaderFabric.Proofs.Material.Distinct
import ShaderFabric.Proofs.Material.Naming
import ShaderFabric.Proofs.Text.Substitution

namespace ShaderFabric

/-! ## 1. The nodes of a program -/

namespace Node

mutual

/-- The nodes that are part of the program of a node, sub-materials first. -/
def emitted : Node → List Node
  | ⟨path, typeName, uniforms, materials, body, translucency⟩ =>
    emittedBelow materials ++ [⟨path, typeName, uniforms, materials, body, translucency⟩]

def emittedBelow : List (Declared Node) → List Node
  | [] => []
  | ⟨_, node, used⟩ :: rest => (if used then emitted node else []) ++ emittedBelow rest

end

theorem emittedBelow_eq_flatMap : ∀ materials : List (Declared Node),
    emittedBelow materials =
      (materials.filter Declared.used).flatMap fun child => child.value.emitted
  | [] => rfl
  | ⟨name, node, used⟩ :: rest => by
    rw [emittedBelow, emittedBelow_eq_flatMap rest]
    cases used with
    | true => rfl
    | false => rfl

theorem emitted_eq (node : Node) : node.emitted =
    ((node.materials.filter Declared.used).flatMap fun child => child.value.emitted) ++ [node] := by
  cases node
  rw [emitted, emittedBelow_eq_flatMap]

theorem self_mem_emitted (node : Node) : node ∈ node.emitted := by
  rw [emitted_eq]
  exact List.mem_append_right _ (List.mem_singleton.mpr rfl)

/-- What holds of a node holds of the nodes of its program if it passes on to sub-materials. -/
theorem emitted_induct {P : Node → Prop}
    (pass : ∀ node, P node → ∀ child ∈ node.materials, child.used = true → P child.value)
    (node : Node) : P node → ∀ n ∈ node.emitted, P n := by
  induction node using Node.induct with
  | step node ih =>
    intro h n hn
    rw [emitted_eq] at hn
    rcases List.mem_append.mp hn with hn | hn
    · obtain ⟨child, hchild, hn⟩ := List.mem_flatMap.mp hn
      obtain ⟨hchild, hused⟩ := List.mem_filter.mp hchild
      exact ih child hchild (pass node h child hchild hused) n hn
    · rw [List.mem_singleton.mp hn]
      exact h

end Node

/-! ## 2. The program of a node -/

/-- Below a node that is not part of the program nothing is. -/
theorem nodes_composeNode_false (node : Node) :
    ∀ program ∈ (composeNode false node).nodes, program.emitted = false := by
  induction node using Node.induct with
  | step node ih =>
    intro program hmem
    rw [Program.nodes_eq, materials_composeNode, List.flatMap_map] at hmem
    rcases List.mem_append.mp hmem with hmem | hmem
    · obtain ⟨child, hchild, hmem⟩ := List.mem_flatMap.mp hmem
      exact ih child hchild program hmem
    · rw [List.mem_singleton.mp hmem, emitted_composeNode]

mutual

/-- **The programs that are emitted** are those of the emitted nodes. -/
theorem filter_nodes_composeNode : ∀ node : Node,
    (composeNode true node).nodes.filter Program.emitted = node.emitted.map (composeNode true)
  | ⟨path, typeName, uniforms, materials, body, translucency⟩ => by
    show (Program.nodesBelow (composeChildren true materials) ++
      [composeNode true ⟨path, typeName, uniforms, materials, body, translucency⟩]).filter
        Program.emitted = _
    rw [List.filter_append, filter_nodesBelow_composeChildren materials, Node.emitted,
      List.map_append]
    rfl

theorem filter_nodesBelow_composeChildren : ∀ materials : List (Declared Node),
    (Program.nodesBelow (composeChildren true materials)).filter Program.emitted =
      (Node.emittedBelow materials).map (composeNode true)
  | [] => rfl
  | ⟨_, node, used⟩ :: rest => by
    rw [composeChildren, Program.nodesBelow, List.filter_append,
      filter_nodesBelow_composeChildren rest, Node.emittedBelow, List.map_append]
    cases used with
    | true => exact congrArg (· ++ _) (filter_nodes_composeNode node)
    | false =>
      refine congrArg (· ++ _) (List.filter_eq_nil_iff.mpr fun program hmem => ?_)
      rw [nodes_composeNode_false node program hmem]
      exact Bool.false_ne_true

end

/-- The text of a node, behind those of its sub-materials. -/
theorem source_composeNode_eq (emitted : Bool) (node : Node) :
    (composeNode emitted node).source =
      Program.sources (composeNode emitted node).materials ++ (composeNode emitted node).text := by
  cases node
  rfl

mutual

theorem source_composeNode_false : ∀ node : Node, (composeNode false node).source = ""
  | ⟨_, _, _, materials, _, _⟩ => by
    rw [source_composeNode_eq]
    exact congrArg (· ++ "") (sources_composeChildren_false materials)

theorem sources_composeChildren_false : ∀ materials : List (Declared Node),
    Program.sources (composeChildren false materials) = ""
  | [] => rfl
  | ⟨_, node, _⟩ :: rest => by
    rw [composeChildren, Program.sources, Bool.false_and, source_composeNode_false node,
      sources_composeChildren_false rest]
    rfl

end

mutual

/-- **The source of a node** is the texts of its emitted nodes, in their order. -/
theorem source_composeNode : ∀ node : Node,
    (composeNode true node).source =
      String.join (node.emitted.map fun n => (composeNode true n).text)
  | ⟨path, typeName, uniforms, materials, body, translucency⟩ => by
    have hbelow := sources_composeChildren materials
    rw [source_composeNode_eq, Node.emitted, List.map_append, String.join_append, ← hbelow,
      List.map_cons, List.map_nil, String.join_cons, String.join_nil, String.append_empty]
    rfl

theorem sources_composeChildren : ∀ materials : List (Declared Node),
    Program.sources (composeChildren true materials) =
      String.join ((Node.emittedBelow materials).map fun n => (composeNode true n).text)
  | [] => rfl
  | ⟨_, node, used⟩ :: rest => by
    rw [composeChildren, Program.sources, sources_composeChildren rest, Node.emittedBelow,
      List.map_append, String.join_append]
    cases used with
    | true => exact congrArg (· ++ _) (source_composeNode node)
    | false => exact congrArg (· ++ _) (source_composeNode_false node)

end

/-! ## 3. Functions -/

/-- Names of sub-materials have no two encodings. -/
theorem functionName_injective {path other : List String}
    (hpath : ∀ segment ∈ path, IsIdentifier segment)
    (hother : ∀ segment ∈ other, IsIdentifier segment)
    (h : functionName path = functionName other) : path = other := by
  have hlonger : ∀ rest : String, entryPoint ≠ entryPoint ++ "_" ++ rest := by
    intro rest heq
    have hlength := congrArg String.length heq
    rw [String.length_append, String.length_append] at hlength
    have : "_".length = 1 := rfl
    omega
  cases path with
  | nil =>
    cases other with
    | nil => rfl
    | cons segment rest => exact absurd h (hlonger _)
  | cons segment rest =>
    cases other with
    | nil => exact absurd h.symm (hlonger _)
    | cons segment' rest' =>
      exact encodePath_injective hpath hother ((String.append_right_inj (entryPoint ++ "_")).mp h)

/-- The path of an emitted node goes on from that of the root by identifiers. -/
theorem path_of_mem_emitted {root : Node} (hwf : root.WellFormed) {node : Node}
    (h : node ∈ root.emitted) : node.WellFormed ∧ ∃ rest, node.path = root.path ++ rest ∧
      ∀ segment ∈ rest, IsIdentifier segment := by
  have hself : root.WellFormed ∧ ∃ rest, root.path = root.path ++ rest ∧
      ∀ segment ∈ rest, IsIdentifier segment :=
    ⟨hwf, [], (List.append_nil _).symm, fun _ hs => absurd hs List.not_mem_nil⟩
  refine Node.emitted_induct (P := fun node => node.WellFormed ∧ ∃ rest,
    node.path = root.path ++ rest ∧ ∀ segment ∈ rest, IsIdentifier segment) ?_ root hself node h
  rintro node ⟨hnode, rest, hpath, hrest⟩ child hchild hused
  refine ⟨hnode.child hchild, rest ++ [child.name], ?_, fun segment hsegment => ?_⟩
  · rw [hnode.own.child_path child hchild, hpath, List.append_assoc]
  · rcases List.mem_append.mp hsegment with hsegment | hsegment
    · exact hrest segment hsegment
    · rw [List.mem_singleton.mp hsegment]
      exact hnode.own.isIdentifier_of_used hchild hused

theorem tidy_of_mem_emitted {root : Node} (htidy : root.All Node.Tidy) {node : Node}
    (h : node ∈ root.emitted) : node.Tidy :=
  (Node.emitted_induct (fun _ hall _ hchild _ => hall.child hchild) root htidy node h).own

/-- **Emitted nodes have different paths.** -/
theorem pairwise_path (root : Node) (hwf : root.WellFormed) (htidy : root.All Node.Tidy) :
    root.emitted.Pairwise fun n m => n.path ≠ m.path := by
  induction root using Node.induct with
  | step root ih =>
    rw [Node.emitted_eq]
    refine List.pairwise_append.mpr
      ⟨List.pairwise_flatMap.mpr ⟨?_, ?_⟩, List.pairwise_singleton _ _, ?_⟩
    · intro child hchild
      obtain ⟨hchild, -⟩ := List.mem_filter.mp hchild
      exact ih child hchild (hwf.child hchild) (htidy.child hchild)
    · -- the nodes below two sub-materials differ in the names of these
      have hnames : (root.materials.map Declared.name).Nodup :=
        (List.nodup_append.mp htidy.own.distinct).2.1
      have hdistinct : root.materials.Pairwise fun a b => a.name ≠ b.name :=
        List.pairwise_map.mp hnames
      refine (hdistinct.filter _).imp_of_mem fun {a b} ha hb hne n hn m hm heq => ?_
      obtain ⟨ha, -⟩ := List.mem_filter.mp ha
      obtain ⟨hb, -⟩ := List.mem_filter.mp hb
      obtain ⟨-, rest, hn, -⟩ := path_of_mem_emitted (hwf.child ha) hn
      obtain ⟨-, rest', hm, -⟩ := path_of_mem_emitted (hwf.child hb) hm
      rw [hn, hm, hwf.own.child_path a ha, hwf.own.child_path b hb, List.append_assoc,
        List.append_assoc] at heq
      exact hne (List.cons.inj (List.append_cancel_left heq)).1
    · intro n hn m hm heq
      obtain ⟨child, hchild, hn⟩ := List.mem_flatMap.mp hn
      obtain ⟨hchild, -⟩ := List.mem_filter.mp hchild
      obtain ⟨-, rest, hpath, -⟩ := path_of_mem_emitted (hwf.child hchild) hn
      rw [List.mem_singleton.mp hm, hpath, hwf.own.child_path child hchild,
        List.append_assoc] at heq
      have hlength := congrArg List.length heq
      rw [List.length_append] at hlength
      simp at hlength

/-- **Emitted nodes have different functions.** -/
theorem pairwise_functionName {root : Node} (hroot : root.path = []) (hwf : root.WellFormed)
    (htidy : root.All Node.Tidy) :
    root.emitted.Pairwise fun n m => functionName n.path ≠ functionName m.path := by
  refine (pairwise_path root hwf htidy).imp_of_mem fun {n m} hn hm hne heq => hne ?_
  obtain ⟨-, rest, hn, hrest⟩ := path_of_mem_emitted hwf hn
  obtain ⟨-, rest', hm, hrest'⟩ := path_of_mem_emitted hwf hm
  rw [hroot, List.nil_append] at hn hm
  exact functionName_injective (hn ▸ hrest) (hm ▸ hrest') heq

/-! ## 4. The order -/

/-- A sub-material stands somewhere before its node. -/
theorem sublist_emitted (root : Node) : ∀ node ∈ root.emitted, ∀ child ∈ node.materials,
    child.used = true → [child.value, node].Sublist root.emitted := by
  induction root using Node.induct with
  | step root ih =>
    intro node hnode child hchild hused
    rw [Node.emitted_eq] at hnode ⊢
    rcases List.mem_append.mp hnode with hnode | hnode
    · obtain ⟨origin, horigin, hnode⟩ := List.mem_flatMap.mp hnode
      have hsub := ih origin (List.mem_filter.mp horigin).1 node hnode child hchild hused
      obtain ⟨first, last, heq⟩ := List.append_of_mem horigin
      rw [heq, List.flatMap_append, List.flatMap_cons, List.append_assoc, List.append_assoc]
      exact (hsub.trans (List.sublist_append_left _ _)).trans (List.sublist_append_right _ _)
    · obtain rfl := List.mem_singleton.mp hnode
      refine List.Sublist.append (List.singleton_sublist.mpr ?_) (List.Sublist.refl [node])
      exact List.mem_flatMap.mpr
        ⟨child, List.mem_filter.mpr ⟨hchild, hused⟩, child.value.self_mem_emitted⟩

/-- **A sub-material that is referred to comes before its node.** -/
theorem mem_before_of_emitted {root : Node} (hwf : root.WellFormed) (htidy : root.All Node.Tidy)
    {before after : List Node} {node : Node} (hsplit : root.emitted = before ++ node :: after)
    {child : Declared Node} (hchild : child ∈ node.materials) (hused : child.used = true) :
    child.value ∈ before := by
  have hpaths := pairwise_path root hwf htidy
  have hsub := sublist_emitted root node
    (hsplit ▸ List.mem_append_right _ List.mem_cons_self) child hchild hused
  rw [hsplit] at hpaths hsub
  obtain ⟨-, hafter, hbefore⟩ := List.pairwise_append.mp hpaths
  obtain ⟨first, second, heq, hfirst, hsecond⟩ := List.sublist_append_iff.mp hsub
  -- the node itself is in neither part, so the sub-material alone is in the first
  match first, heq with
  | [], heq =>
    subst heq
    have hmem : node ∈ after := List.singleton_sublist.mp hsecond.tail
    exact absurd rfl ((List.pairwise_cons.mp hafter).1 node hmem)
  | [_], heq =>
    cases heq
    exact List.singleton_sublist.mp hfirst
  | _ :: _ :: _, heq =>
    obtain ⟨rfl, rfl, -⟩ : _ ∧ _ ∧ _ := by simpa using heq
    have hmem := hfirst.subset (List.mem_cons_of_mem _ List.mem_cons_self)
    exact absurd rfl (hbefore _ hmem _ List.mem_cons_self)

/-! ## 5. Calls -/

/-- The texts of a body, each of which is substituted in on its own. -/
def Body.texts : Body → List String
  | plain => []
  | components assignments => assignments.map Prod.snd
  | source text => [text]

/-- The pieces of the statement that assigns a component. -/
def assignmentPieces (replaced : Table Replacement) (assignment : Component × String) :
    List Piece :=
  .kept ("    material." ++ assignment.1.name ++ " = ").toList ::
    (pieces replaced assignment.2 ++ [.kept ";\n".toList])

/-- The pieces of a node's function: those of the texts of its body, and what is written around
them. -/
def Node.bodyPieces (node : Node) : List Piece :=
  match node.body with
  | .source text => pieces (replacements node) text
  | .components assignments =>
    .kept (functionHead (functionName node.path)
        ++ "    fabric_material material = fabric_getDefaultMaterial(materialInput);\n").toList ::
      (assignments.flatMap (assignmentPieces (replacements node))
        ++ [.kept "    return material;\n\x7d\n".toList])
  | .plain =>
    [.kept (functionHead (functionName node.path)
      ++ "    return fabric_getDefaultMaterial(materialInput);\n\x7d\n").toList]

theorem toList_assignmentLine (replaced : Table Replacement) (assignment : Component × String) :
    (assignmentLine replaced assignment).toList =
      (assignmentPieces replaced assignment).flatMap Piece.text := by
  unfold assignmentLine
  simp only [substitute_eq_pieces, assignmentPieces, String.toList_append, String.toList_ofList,
    List.flatMap_cons, List.flatMap_append, List.flatMap_nil, Piece.text, List.append_assoc,
    List.append_nil]

/-- **A node's function is its pieces.** -/
theorem toList_bodyText (node : Node) :
    node.bodyText.toList = node.bodyPieces.flatMap Piece.text := by
  unfold Node.bodyText Node.bodyPieces
  cases node.body with
  | source text =>
    dsimp only
    rw [substitute_eq_pieces, String.toList_ofList]
  | plain => exact (List.append_nil _).symm
  | components assignments =>
    have hlines : (String.join (assignments.map (assignmentLine (replacements node)))).toList =
        (assignments.flatMap (assignmentPieces (replacements node))).flatMap Piece.text := by
      induction assignments with
      | nil => rfl
      | cons assignment rest ih =>
        rw [List.map_cons, String.join_cons, String.toList_append, ih, List.flatMap_cons,
          List.flatMap_append, toList_assignmentLine]
    dsimp only
    rw [String.toList_append, String.toList_append, hlines, List.flatMap_cons, List.flatMap_append,
      List.append_assoc]
    rfl

/-- What is put into a node's function is what is put into the texts of its body. -/
theorem filterMap_entry_bodyPieces (node : Node) :
    node.bodyPieces.filterMap Piece.entry? =
      node.body.texts.flatMap (insertions (replacements node)) := by
  unfold Node.bodyPieces Body.texts
  cases node.body with
  | source text => exact (List.append_nil _).symm
  | plain => rfl
  | components assignments =>
    have hassignment : ∀ assignment : Component × String,
        (assignmentPieces (replacements node) assignment).filterMap Piece.entry? =
          insertions (replacements node) assignment.2 := by
      intro assignment
      rw [assignmentPieces, List.filterMap_cons_none rfl, List.filterMap_append]
      exact List.append_nil _
    have hlines : (assignments.flatMap (assignmentPieces (replacements node))).filterMap
        Piece.entry? =
          (assignments.map Prod.snd).flatMap (insertions (replacements node)) := by
      rw [List.filterMap_flatMap, List.flatMap_map]
      exact List.flatMap_congr fun assignment _ => hassignment assignment
    dsimp only
    rw [List.filterMap_cons_none rfl, List.filterMap_append, hlines]
    exact List.append_nil _

/-- The text of a node, with its function in pieces. -/
theorem text_composeNode_pieces (node : Node) :
    ∃ ending, (ending = "" ∨ ending = "\n") ∧ (composeNode true node).text =
      String.join ((composeNode true node).declared.map canonicalLine)
        ++ String.ofList (node.bodyPieces.flatMap Piece.text) ++ ending := by
  rw [← toList_bodyText, String.ofList_toList]
  exact text_composeNode node

/-- **What stands in place of a sub-material's name** is the call of its function, but for a
sub-material with the name of the entry point. -/
theorem call_of_find? {node : Node} (hdeclares : node.Declares) (htidy : node.Tidy)
    {child : Declared Node} (hchild : child ∈ node.materials) {put : Replacement}
    (h : (replacements node).find? child.name = some put) :
    (child.used = true ∧ put.text = functionName child.value.path ++ "(materialInput)") ∨
      (node.renames = true ∧ child.name = entryPoint ∧ put.text = functionName node.path) := by
  rcases of_find?_replacements h with ⟨uniform, huniform, -, hname, -⟩ |
    ⟨other, hother, hused, hname, hput⟩ | ⟨hrenames, hname, hput⟩
  · exact absurd hname (hdeclares.names_disjoint uniform huniform child hchild)
  · have hnames : (node.materials.map Declared.name).Nodup :=
      (List.nodup_append.mp htidy.distinct).2.1
    obtain rfl : other = child := List.inj_on_of_nodup_map hnames hother hchild hname
    refine .inl ⟨hused, ?_⟩
    rw [hput, hdeclares.child_path other hother]
    rfl
  · exact .inr ⟨hrenames, hname, congrArg Replacement.text hput⟩

/-! ## 6. Whole programs -/

/-- **A program is in order.**  Of the program of a fabric that resolves:

* the nodes that are emitted have different functions;
* the source is the texts of these nodes, each once, every one after those of the sub-materials
  that its node refers to;
* the text of a node is its declarations and its function, and this is written in pieces: those
  that were kept, and those put in for words of the texts of its body;
* whatever is put in for a sub-material's name is the call of a function whose node comes before.
  Only in hand-written text below the root, where the entry point is the function of the text
  itself, a sub-material of that name is no call. -/
theorem program_in_order {library : Library} (hlibrary : library.Ordered) {strict : Bool}
    {fabric : Fabric} (hfabric : fabric.Ordered) {root : Node}
    (h : resolve library strict fabric = .ok root) :
    (compose root).nodes.filter Program.emitted = root.emitted.map (composeNode true) ∧
    ((compose root).functions.map Prod.snd).Nodup ∧
    (compose root).source =
      String.join (((compose root).nodes.filter Program.emitted).map Program.text) ∧
    ∀ before node after, root.emitted = before ++ node :: after →
      (∀ child ∈ node.materials, child.used = true → child.value ∈ before) ∧
      (∃ ending, (ending = "" ∨ ending = "\n") ∧ (composeNode true node).text =
        String.join ((composeNode true node).declared.map canonicalLine)
          ++ String.ofList (node.bodyPieces.flatMap Piece.text) ++ ending) ∧
      node.bodyPieces.filterMap Piece.entry? =
        node.body.texts.flatMap (insertions (replacements node)) ∧
      ∀ text ∈ node.body.texts, ∀ entry ∈ insertions (replacements node) text,
        ∀ child ∈ node.materials, child.name = entry.1 →
          (child.value ∈ before ∧
            entry.2.text = functionName child.value.path ++ "(materialInput)") ∨
          (node.renames = true ∧ entry.1 = entryPoint ∧
            entry.2.text = functionName node.path) := by
  obtain ⟨hroot, hwf⟩ := wellFormed_resolve h
  have htidy := tidy_resolve hlibrary hfabric h
  have hemitted : (compose root).nodes.filter Program.emitted =
      root.emitted.map (composeNode true) := filter_nodes_composeNode root
  refine ⟨hemitted, ?_, ?_, fun before node after hsplit => ?_⟩
  · have hfunctions : (compose root).functions.map Prod.snd =
        root.emitted.map fun node => functionName node.path := by
      unfold Program.functions
      rw [hemitted, List.map_map, List.map_map]
      exact List.map_congr_left fun node _ => function_composeNode true node
    rw [hfunctions]
    exact List.pairwise_map.mpr (pairwise_functionName hroot hwf htidy)
  · rw [hemitted, List.map_map]
    exact source_composeNode root
  · have hmem : node ∈ root.emitted := hsplit ▸ List.mem_append_right _ List.mem_cons_self
    refine ⟨fun child hchild hused => mem_before_of_emitted hwf htidy hsplit hchild hused,
      text_composeNode_pieces node, filterMap_entry_bodyPieces node, ?_⟩
    intro text _ entry hentry child hchild hname
    have hnode := (path_of_mem_emitted hwf hmem).1.own
    have hfind := find?_of_mem_insertions hentry
    rw [← hname] at hfind ⊢
    rcases call_of_find? hnode (tidy_of_mem_emitted htidy hmem) hchild hfind with
      ⟨hused, hput⟩ | hrenamed
    · exact .inl ⟨mem_before_of_emitted hwf htidy hsplit hchild hused, hput⟩
    · exact .inr hrenamed

namespace Example

/-- Hand-written text that calls a sub-material of its own. -/
def glass : Fabric :=
  { materials := [("tint", Fabric.ofType "Color")]
    source := some ("fabric_material fabric_getMaterial(fabric_materialInput materialInput)\n"
      ++ "\x7b fabric_material m = tint; m.alpha = 0.5; return m; \x7d") }

/-- A node above that text, with another sub-material that nothing refers to. -/
def glazed : Fabric :=
  { materials := [("dust", Fabric.ofType "Color"), ("glass_1", glass)]
    components := some [("diffuse", "glass_1.diffuse"), ("alpha", "glass_1.alpha")] }

theorem glass_ordered : glass.Ordered := by
  refine .intro .nil (List.pairwise_singleton _ _) fun key child hmem => ?_
  cases List.mem_singleton.mp hmem
  exact .ofType "Color"

theorem glazed_ordered : glazed.Ordered := by
  refine .intro .nil (by unfold Table.Sorted; decide) fun key child hmem => ?_
  rcases List.mem_cons.mp hmem with heq | hmem
  · cases heq
    exact .ofType "Color"
  · cases List.mem_singleton.mp hmem
    exact glass_ordered

/-- Of each emitted node its path, its sub-materials, and the words that are replaced. -/
def callSites (root : Node) : List (List String × List String × List String) :=
  root.emitted.map fun node =>
    (node.path, node.materials.map Declared.name,
      node.body.texts.flatMap fun text => (insertions (replacements node) text).map Prod.fst)

/-- What stands in the hand-written text for its sub-material is the call of the function that has
been written before it. -/
theorem glazed_in_order : Library.empty.Ordered ∧ glazed.Ordered ∧
    ∃ root before node after child put, resolve Library.empty false glazed = .ok root ∧
      (compose root).functions.map Prod.snd =
        ["fabric_getMaterial_7glass_14tint", "fabric_getMaterial_7glass_1",
          "fabric_getMaterial"] ∧
      (compose root).source =
        String.join (((compose root).nodes.filter Program.emitted).map Program.text) ∧
      root.emitted = before ++ node :: after ∧ node.path = ["glass_1"] ∧
      child ∈ node.materials ∧ child.name = "tint" ∧
      ("tint", put) ∈ node.bodyPieces.filterMap Piece.entry? ∧
      child.value ∈ before ∧ put.text = functionName child.value.path ++ "(materialInput)" := by
  refine ⟨Library.ordered_empty, glazed_ordered, ?_⟩
  have hsummary : (resolve Library.empty false glazed).toOption.map
      (fun root => ((compose root).functions.map Prod.snd, callSites root)) =
        some (["fabric_getMaterial_7glass_14tint", "fabric_getMaterial_7glass_1",
          "fabric_getMaterial"],
          [(["glass_1", "tint"], [], ["color", "color"]),
            (["glass_1"], ["tint"], ["fabric_getMaterial", "tint"]),
            ([], ["dust", "glass_1"], ["glass_1", "glass_1"])]) := by
    decide +kernel
  obtain ⟨root, hroot, hfound⟩ := toOption_map_eq_some hsummary
  obtain ⟨hfunctions, hsites⟩ := Prod.mk.inj hfound
  obtain ⟨tint, rest, hemitted, -, hrest⟩ := List.map_eq_cons_iff.mp hsites
  obtain ⟨node, after, rfl, hnode, -⟩ := List.map_eq_cons_iff.mp hrest
  obtain ⟨hpath, hnode⟩ := Prod.mk.inj hnode
  obtain ⟨hnames, hwords⟩ := Prod.mk.inj hnode
  obtain ⟨child, hmaterials, hchild⟩ := List.map_eq_singleton_iff.mp hnames
  have hmem : child ∈ node.materials := hmaterials ▸ List.mem_singleton_self child
  have htint : "tint" ∈ ["fabric_getMaterial", "tint"] := by simp
  rw [← hwords] at htint
  obtain ⟨text, htext, hword⟩ := List.mem_flatMap.mp htint
  obtain ⟨⟨word, put⟩, hentry, rfl⟩ := List.mem_map.mp hword
  -- the general theorem, at the node of the hand-written text
  obtain ⟨-, -, hsource, hnodes⟩ := program_in_order Library.ordered_empty glazed_ordered hroot
  obtain ⟨-, -, hput, hcalls⟩ := hnodes [tint] node after hemitted
  rcases hcalls text htext _ hentry child hmem hchild with ⟨hbefore, hcall⟩ | ⟨-, hname, -⟩
  · refine ⟨root, [tint], node, after, child, put, hroot, hfunctions, hsource, hemitted, hpath,
      hmem, hchild, ?_, hbefore, hcall⟩
    rw [hput]
    exact List.mem_flatMap.mpr ⟨text, htext, hentry⟩
  · have hother : "tint" ≠ entryPoint := by decide
    exact absurd hname hother

end Example

end ShaderFabric
