/-
# Comments in expressions

An expression is put into a statement of one line as it is written, with its references replaced.
Replacing a reference starts and ends no comment, so the comments of an expression are the same in
the function as they are on their own, as long as the expression closes them.  The one exception is
a comment that only the end of its line closes: the semicolon that the composer writes right after
the expression becomes part of it.  The line end after the semicolon closes it.

* `commented` -- the characters of a text, each with whether it is in a comment;
* `commented_statement` -- a text that closes its comments, in front of a semicolon and a line end;
* `commented_text` -- the text of a node is commented like its expressions, and nowhere else but in
  the semicolons after line comments;
* `commented_emitted` -- what this comes to for a fabric that resolves.
-/
import ShaderFabric.Proofs.Material.Declaration

namespace ShaderFabric

/-! ## 1. Characters in comments -/

namespace Lexeme

/-- A comment of any kind. -/
def isComment : Lexeme → Bool
  | lineComment _ | blockComment _ | openComment _ => true
  | _ => false

/-- A comment that ends with its line. -/
def isLineComment : Lexeme → Bool
  | lineComment _ => true
  | _ => false

/-- The characters of a lexeme, each with whether it is in a comment. -/
def commented (lexeme : Lexeme) : List (Char × Bool) :=
  lexeme.text.map fun c => (c, lexeme.isComment)

end Lexeme

/-- **The characters of a text, each with whether it is in a comment.** -/
def commented (cs : List Char) : List (Char × Bool) := (lexemes cs).flatMap Lexeme.commented

/-- Characters outside of comments. -/
def plain (cs : List Char) : List (Char × Bool) := cs.map fun c => (c, false)

/-- Whether a text ends in a comment that ends with its line. -/
def endsInLineComment (text : String) : Bool :=
  (lexemes text.toList).getLast?.any Lexeme.isLineComment

theorem plain_append (cs next : List Char) : plain (cs ++ next) = plain cs ++ plain next :=
  List.map_append

/-- Nothing but the comments is added to a text. -/
theorem map_fst_commented (cs : List Char) : (commented cs).map Prod.fst = cs := by
  have hlexeme : ∀ lexeme : Lexeme, lexeme.commented.map Prod.fst = lexeme.text := by
    intro lexeme
    rw [Lexeme.commented, List.map_map]
    exact List.map_id _
  rw [commented, List.map_flatMap]
  simp only [hlexeme, flatMap_text_lexemes]

/-- Without a slash there are no comments. -/
theorem isComment_of_not_mem {cs : List Char} (hslash : '/' ∉ cs) {lexeme : Lexeme}
    (h : lexeme ∈ lexemes cs) : lexeme.isComment = false := by
  have htrailing := isTrailing_of_not_mem hslash h
  have formed := formed_of_mem_lexemes h
  cases lexeme with
  | lineComment => cases htrailing
  | openComment => cases htrailing
  | blockComment text =>
    obtain ⟨inner, rfl, -⟩ := formed
    refine absurd ?_ hslash
    rw [← flatMap_text_lexemes cs]
    exact List.mem_flatMap.mpr ⟨_, h, List.mem_cons_self⟩
  | _ => rfl

theorem commented_of_not_mem {cs : List Char} (hslash : '/' ∉ cs) : commented cs = plain cs := by
  have hlexeme : ∀ lexeme ∈ lexemes cs, lexeme.commented = lexeme.text.map fun c => (c, false) := by
    intro lexeme h
    rw [Lexeme.commented, isComment_of_not_mem hslash h]
  rw [commented, List.flatMap_congr hlexeme, ← List.map_flatMap, flatMap_text_lexemes]
  rfl

/-! ## 2. Texts put together -/

theorem commented_separator {c : Char} (separator : IsSeparator c) (next : List Char) :
    commented (c :: next) = (c, false) :: commented next := by
  rw [commented, separator.lexemes_cons]
  rfl

/-- A text without a slash, up to a separator, in front of another one. -/
theorem commented_after {cs : List Char} (hslash : '/' ∉ cs) {c : Char} (separator : IsSeparator c)
    (next : List Char) :
    commented (cs ++ c :: next) = plain cs ++ (c, false) :: commented next := by
  rw [commented, lexemes_after hslash separator, List.flatMap_append,
    ← commented_of_not_mem hslash]
  rfl

/-- **A longer last lexeme.**  If more characters go on with the last lexeme of a text and end
there, all lexemes before it stay. -/
theorem lexemes_extend {last longer : Lexeme} {more next : List Char} (formed : longer.Formed)
    (htext : longer.text = last.text ++ more) (hends : longer.EndsBefore next.head?) :
    ∀ {front : List Lexeme} {cs : List Char}, lexemes cs = front ++ [last] →
      lexemes (cs ++ (more ++ next)) = front ++ longer :: lexemes next
  | [], cs, h => by
    have hcs : cs = last.text := by
      rw [← flatMap_text_lexemes cs, h, List.nil_append, List.flatMap_singleton]
    rw [hcs, ← List.append_assoc, ← htext, List.nil_append]
    exact lexemes_text_append formed hends
  | first :: front, [], h => by
    rw [lexemes] at h
    cases h
  | first :: front, c :: rest, h => by
    obtain ⟨hformed, hfollows⟩ := formed_cutLexeme c rest
    have hcut := text_cutLexeme c rest
    rw [lexemes_cons, List.cons_append] at h
    obtain ⟨rfl, hafter⟩ := List.cons.inj h
    have hnonempty : (cutLexeme c rest).2 ≠ [] := by
      intro hnil
      rw [hnil, lexemes] at hafter
      simp at hafter
    have hhead : ((cutLexeme c rest).2 ++ (more ++ next)).head? = (cutLexeme c rest).2.head? :=
      List.head?_append_of_ne_nil _ hnonempty
    rw [← hcut, List.append_assoc, lexemes_text_append hformed (by rwa [hhead]),
      lexemes_extend formed htext hends hafter, List.cons_append]

/-- A line comment takes in whatever is no line end. -/
theorem Lexeme.Formed.lineComment_snoc {text : List Char} (formed : (lineComment text).Formed)
    {c : Char} (hc : c ≠ '\n') : (lineComment (text ++ [c])).Formed := by
  obtain ⟨rest, rfl, hrest⟩ := formed
  refine ⟨rest ++ [c], rfl, fun d hd => ?_⟩
  obtain hd | hd := List.mem_append.mp hd
  · exact hrest d hd
  · rw [List.mem_singleton.mp hd]
    exact hc

/-- **A statement**: after a text that closes the comments it opens, a semicolon is in a comment if
and only if the text ends in a line comment; what comes after the line end is not changed. -/
theorem commented_statement {text : String} (closed : ClosesComments text.toList)
    (next : List Char) :
    commented (text.toList ++ ';' :: '\n' :: next) =
      commented text.toList
        ++ (';', endsInLineComment text) :: ('\n', false) :: commented next := by
  have hline := commented_separator .newline next
  unfold endsInLineComment
  cases hlast : (lexemes text.toList).getLast? with
  | none =>
    have hends : lexemes (text.toList ++ ';' :: '\n' :: next) =
        lexemes text.toList ++ lexemes (';' :: '\n' :: next) :=
      lexemes_append fun last h => by cases hlast.symm.trans h
    rw [commented, hends, List.flatMap_append, ← commented, ← commented,
      commented_separator .semicolon, hline]
    rfl
  | some last =>
    have hmem := List.mem_of_getLast? hlast
    cases hkind : last.isLineComment with
    | false =>
      have htrailing : last.isTrailing = false := by
        have hopen := closed last hmem
        cases last with
        | lineComment => cases hkind
        | openComment => cases hopen
        | _ => rfl
      have hends : lexemes (text.toList ++ ';' :: '\n' :: next) =
          lexemes text.toList ++ lexemes (';' :: '\n' :: next) :=
        lexemes_append fun other h => by
          obtain rfl := Option.some.inj (hlast.symm.trans h)
          exact IsSeparator.semicolon.endsBefore htrailing
      rw [commented, hends, List.flatMap_append, ← commented, ← commented,
        commented_separator .semicolon, hline, Option.any_some, hkind]
    | true =>
      cases last with
      | lineComment comment =>
        obtain ⟨front, hfront⟩ := List.getLast?_eq_some_iff.mp hlast
        have formed := (formed_of_mem_lexemes hmem).lineComment_snoc (c := ';') (by decide)
        have hends : (Lexeme.lineComment (comment ++ [';'])).EndsBefore ('\n' :: next).head? :=
          fun c hc => (Option.some.inj hc).symm
        have hextend := lexemes_extend formed rfl hends hfront
        have hlonger : (Lexeme.lineComment (comment ++ [';'])).commented =
            (Lexeme.lineComment comment).commented ++ [(';', true)] := by
          simp [Lexeme.commented, Lexeme.text, Lexeme.isComment]
        rw [commented, commented, ← List.singleton_append, hextend, hfront, List.flatMap_append,
          List.flatMap_cons, ← commented, hline, hlonger]
        simp [Lexeme.isLineComment]
      | _ => cases hkind

/-! ## 3. Comments after substitution -/

section Substitution

variable {replaced : Table Replacement}
  (hreplaced : ∀ name put, replaced.find? name = some put → put.IsReference)

include hreplaced

/-- What stands in place of a lexeme ends in a line comment only if it is the lexeme itself. -/
theorem getLast?_substituted (afterPeriod : Bool) (lexeme : Lexeme) :
    ∃ last, (substituted replaced afterPeriod lexeme).getLast? = some last ∧
      last.isLineComment = lexeme.isLineComment := by
  unfold substituted
  cases hput : insertion replaced afterPeriod lexeme with
  | none => exact ⟨lexeme, rfl, rfl⟩
  | some put =>
    obtain ⟨name, rest, hcut, hrest, -⟩ :=
      lexemes_of_isReference (isReference_of_insertion hreplaced hput)
    cases lexeme with
    | word text =>
      dsimp only
      rw [hcut]
      obtain rfl | ⟨given, rfl⟩ := hrest
      · exact ⟨.word name, rfl, rfl⟩
      · exact ⟨.mark ')', rfl, rfl⟩
    | _ => cases hput

theorem getLast?_substitutedFrom : ∀ (ls : List Lexeme) (afterPeriod : Bool),
    (substitutedFrom replaced afterPeriod ls).getLast?.any Lexeme.isLineComment =
      ls.getLast?.any Lexeme.isLineComment
  | [], _ => rfl
  | [lexeme], afterPeriod => by
    obtain ⟨last, hlast, hkind⟩ := getLast?_substituted hreplaced afterPeriod lexeme
    rw [substitutedFrom, substitutedFrom, List.append_nil, hlast, Option.any_some, hkind]
    rfl
  | lexeme :: next :: rest, afterPeriod => by
    have hrest := getLast?_substitutedFrom (next :: rest) lexeme.isPeriod
    have hnonempty : substitutedFrom replaced lexeme.isPeriod (next :: rest) ≠ [] := by
      obtain ⟨last, hlast, -⟩ := getLast?_substituted hreplaced lexeme.isPeriod next
      rw [substitutedFrom]
      refine List.append_ne_nil_of_left_ne_nil (fun hnil => ?_) _
      rw [hnil] at hlast
      cases hlast
    rw [substitutedFrom, List.getLast?_append_of_ne_nil _ hnonempty, hrest]
    rfl

/-- **An expression ends in a line comment** after substitution if it did before. -/
theorem endsInLineComment_substitute (source : String) :
    endsInLineComment (substitute replaced source) = endsInLineComment source := by
  rw [endsInLineComment, lexemes_substitute hreplaced]
  exact getLast?_substitutedFrom hreplaced _ false

/-- The statement of an expression, each character with whether it is in a comment. -/
def commentedAssignment (replaced : Table Replacement) (assignment : Component × String) :
    List (Char × Bool) :=
  plain ("    material." ++ assignment.1.name ++ " = ").toList
    ++ commented (substitute replaced assignment.2).toList
    ++ [(';', endsInLineComment assignment.2), ('\n', false)]

theorem commented_assignmentLine {assignment : Component × String}
    (closed : ClosesComments assignment.2.toList) (next : List Char) :
    commented ((assignmentLine replaced assignment).toList ++ next) =
      commentedAssignment replaced assignment ++ commented next := by
  obtain ⟨component, expression⟩ := assignment
  have hslash : '/' ∉ ("    material." ++ component.name ++ " =").toList := by
    cases component <;> decide
  have hstart : ("    material." ++ component.name ++ " = ").toList =
      ("    material." ++ component.name ++ " =").toList ++ [' '] := by
    have hend : " = ".toList = " =".toList ++ [' '] := rfl
    rw [String.toList_append, hend, ← List.append_assoc, ← String.toList_append]
  have hline : (assignmentLine replaced (component, expression)).toList ++ next =
      ("    material." ++ component.name ++ " =").toList ++
        ' ' :: ((substitute replaced expression).toList ++ ';' :: '\n' :: next) := by
    unfold assignmentLine
    simp only [String.toList_append (s := _ ++ substitute replaced expression),
      String.toList_append (t := substitute replaced expression), hstart]
    simp
  rw [hline, commented_after hslash .blank,
    commented_statement (closesComments_substitute hreplaced closed),
    endsInLineComment_substitute hreplaced, commentedAssignment, hstart, plain_append]
  simp [plain]

theorem commented_assignments (next : List Char) :
    ∀ {assignments : List (Component × String)},
      (∀ assignment ∈ assignments, ClosesComments assignment.2.toList) →
        commented ((String.join (assignments.map (assignmentLine replaced))).toList ++ next) =
          assignments.flatMap (commentedAssignment replaced) ++ commented next
  | [], _ => rfl
  | assignment :: later, closed => by
    have hlater := commented_assignments next fun other h => closed other (List.mem_cons_of_mem _ h)
    rw [List.map_cons, String.join_cons, String.toList_append, List.append_assoc,
      commented_assignmentLine hreplaced (closed assignment List.mem_cons_self), hlater,
      List.flatMap_cons, List.append_assoc]

end Substitution

/-! ## 4. The text of a node -/

/-- What stands in the text of a node before its first statement: its declarations and the start of
its function. -/
def Node.head (node : Node) : String :=
  String.join ((composeNode true node).declared.map canonicalLine
    ++ [functionStart (functionName node.path) ++ "\n"])

/-- What stands in the text of a node after its last statement. -/
def functionEnd : String := "    return material;\n\x7d\n"

/-- Lines without a comment. -/
theorem commented_lines (next : List Char) : ∀ {lines : List String},
    (∀ line ∈ lines, ∃ start, '/' ∉ start.toList ∧ line = start ++ "\n") →
      commented ((String.join lines).toList ++ next) =
        plain (String.join lines).toList ++ commented next
  | [], _ => rfl
  | line :: rest, hlines => by
    obtain ⟨start, hslash, rfl⟩ := hlines line List.mem_cons_self
    have hrest := commented_lines next fun other h => hlines other (List.mem_cons_of_mem _ h)
    have hline : (start ++ "\n").toList = start.toList ++ ['\n'] := String.toList_append
    rw [String.join_cons, String.toList_append, plain_append, hline, List.append_assoc,
      List.append_assoc, List.singleton_append, commented_after hslash .newline, hrest,
      plain_append]
    simp [plain]

/-- The line that declares an identifier has no comment. -/
theorem canonicalLine_slashless {entry : String × Kind} (h : IsIdentifier entry.1) :
    ∃ start, '/' ∉ start.toList ∧ canonicalLine entry = start ++ "\n" := by
  obtain ⟨name, kind⟩ := entry
  have hkind : '/' ∉ ("uniform " ++ kind.glslName ++ " ").toList := by
    cases kind <;> decide
  have hname : '/' ∉ name.toList := fun hmem => absurd (h.isWordChar '/' hmem) (by decide)
  refine ⟨"uniform " ++ kind.glslName ++ " " ++ name ++ ";", ?_, ?_⟩
  · rw [String.toList_append, String.toList_append (t := name), List.mem_append, List.mem_append]
    exact not_or.mpr ⟨not_or.mpr ⟨hkind, hname⟩, by decide⟩
  · have hend : (";\n" : String) = ";" ++ "\n" := rfl
    simp only [canonicalLine, hend, String.append_assoc]

/-- The identifiers that a node declares. -/
theorem isIdentifier_of_mem_declared {node : Node} (hdeclares : node.Declares)
    (hpath : ∀ segment ∈ node.path, IsIdentifier segment) {entry : String × Kind}
    (h : entry ∈ (composeNode true node).declared) : IsIdentifier entry.1 := by
  rw [Program.declared, uniforms_composeNode, mem_declaredOf] at h
  obtain ⟨uniform, huniform, hused, -, rfl⟩ := h
  rw [hdeclares.uniform_used uniform huniform] at hused
  exact isIdentifier_mangle hpath (isIdentifier_of_mentions hused)

/-- The text of a node whose body is expressions. -/
theorem text_of_components {node : Node} {assignments : List (Component × String)}
    (hbody : node.body = .components assignments) :
    (composeNode true node).text = node.head
      ++ String.join (assignments.map (assignmentLine (replacements node))) ++ functionEnd := by
  have htext : (composeNode true node).text =
      nodeText node (node.uniforms.map (composeUniform true node.path)) := by
    cases node
    rfl
  rw [htext, nodeText, hbody, Node.head, Program.declared, uniforms_composeNode,
    join_declarationLine, String.join_append, ← functionHead_eq]
  simp [functionEnd, String.append_assoc]

/-- **The text of a node is commented like its expressions**, each on its own, and nowhere else but
in the semicolons after expressions that end in a line comment. -/
theorem commented_text {node : Node} (hdeclares : node.Declares) (htidy : node.Tidy)
    (hpath : ∀ segment ∈ node.path, IsIdentifier segment)
    {assignments : List (Component × String)} (hbody : node.body = .components assignments)
    (closed : ∀ assignment ∈ assignments, ClosesComments assignment.2.toList) :
    commented (composeNode true node).text.toList = plain node.head.toList
      ++ assignments.flatMap (commentedAssignment (replacements node))
      ++ plain functionEnd.toList := by
  have sound := fun name put hput =>
    (sound_replacements hdeclares htidy hpath name put hput).isReference
  have hlines : ∀ line ∈ (composeNode true node).declared.map canonicalLine
      ++ [functionStart (functionName node.path) ++ "\n"],
      ∃ start, '/' ∉ start.toList ∧ line = start ++ "\n" := by
    refine List.forall_mem_append.mpr ⟨List.forall_mem_map.mpr fun entry h => ?_, ?_⟩
    · exact canonicalLine_slashless (isIdentifier_of_mem_declared hdeclares hpath h)
    · exact List.forall_mem_singleton.mpr
        ⟨_, slash_not_mem_functionStart (isIdentifier_functionName hpath), rfl⟩
  have hend : commented functionEnd.toList = plain functionEnd.toList :=
    commented_of_not_mem (by decide)
  rw [text_of_components hbody, String.toList_append, String.toList_append, List.append_assoc,
    Node.head, commented_lines _ hlines, commented_assignments sound _ closed, hend,
    List.append_assoc]

/-! ## 5. Whole programs -/

/-- The text of an emitted node of what a fabric resolves to. -/
theorem commented_of_mem_emitted {library : Library} (hlibrary : library.Ordered) {strict : Bool}
    {fabric : Fabric} (hfabric : fabric.Ordered) {root : Node}
    (h : resolve library strict fabric = .ok root) {node : Node} (hnode : node ∈ root.emitted)
    {assignments : List (Component × String)} (hbody : node.body = .components assignments)
    (closed : ∀ assignment ∈ assignments, ClosesComments assignment.2.toList) :
    commented (composeNode true node).text.toList = plain node.head.toList
      ++ assignments.flatMap (commentedAssignment (replacements node))
      ++ plain functionEnd.toList := by
  obtain ⟨hroot, hwf⟩ := wellFormed_resolve h
  have htidy := tidy_resolve hlibrary hfabric h
  obtain ⟨hnodewf, rest, hpath, hrest⟩ := path_of_mem_emitted hwf hnode
  rw [hroot, List.nil_append] at hpath
  subst hpath
  exact commented_text hnodewf.own (tidy_of_mem_emitted htidy hnode) hrest hbody closed

/-- **What the composer writes is outside of comments**, but for some semicolons.  Whether it is in a
comment is told of each character of a text, and nothing else.  Take an emitted node of what a fabric resolves to, whose body is expressions that close the block comments they
open.  Its text is what stands before the statements, one statement for each expression, and the end
of its function.  An expression has the comments in it that it has on its own; everything else is in
no comment, except that the semicolon after an expression is in one if and only if the expression
ends in a line comment. -/
theorem commented_emitted {library : Library} (hlibrary : library.Ordered) {strict : Bool}
    {fabric : Fabric} (hfabric : fabric.Ordered) {root : Node}
    (h : resolve library strict fabric = .ok root) :
    (compose root).nodes.filter Program.emitted = root.emitted.map (composeNode true) ∧
    (∀ text : String, (commented text.toList).map Prod.fst = text.toList) ∧
    ∀ node ∈ root.emitted, ∀ assignments, node.body = .components assignments →
      (∀ assignment ∈ assignments, ClosesComments assignment.2.toList) →
      (composeNode true node).text = node.head
          ++ String.join (assignments.map (assignmentLine (replacements node))) ++ functionEnd ∧
        commented (composeNode true node).text.toList = plain node.head.toList
          ++ (assignments.flatMap fun assignment =>
            plain ("    material." ++ assignment.1.name ++ " = ").toList
              ++ commented (substitute (replacements node) assignment.2).toList
              ++ [(';', endsInLineComment assignment.2), ('\n', false)])
          ++ plain functionEnd.toList :=
  ⟨filter_nodes_composeNode root, fun _ => map_fst_commented _, fun _ hnode _ hbody closed =>
    ⟨text_of_components hbody, commented_of_mem_emitted hlibrary hfabric h hnode hbody closed⟩⟩

/-- Without replacements a text stays. -/
theorem substituteFrom_empty : ∀ (ls : List Lexeme) (afterPeriod : Bool),
    substituteFrom [] afterPeriod ls = ls.flatMap Lexeme.text
  | [], _ => rfl
  | lexeme :: rest, afterPeriod => by
    have hlexeme : substituteLexeme [] afterPeriod lexeme = lexeme.text := by
      cases lexeme <;> rfl
    rw [substituteFrom, hlexeme, substituteFrom_empty rest, List.flatMap_cons]

theorem substitute_empty (source : String) : substitute [] source = source := by
  rw [substitute, substituteFrom_empty, flatMap_text_lexemes, String.ofList_toList]

namespace Example

/-- Of two expressions, the first with a block comment and a line comment, the second without: the
semicolon of the first is in a comment, that of the second is not. -/
theorem measured_commented : Library.empty.Ordered ∧ measured.Ordered ∧
    ∃ root, resolve Library.empty false measured = .ok root ∧ root ∈ root.emitted ∧
      commented (composeNode true root).text.toList = plain root.head.toList
        ++ [(Component.alpha, "float(depth) /* depth */ + scale.depth // depth"),
            (Component.shininess, "2.depth * float(!depth)")].flatMap
          (commentedAssignment (replacements root))
        ++ plain functionEnd.toList ∧
      endsInLineComment "float(depth) /* depth */ + scale.depth // depth" = true ∧
      endsInLineComment "2.depth * float(!depth)" = false := by
  refine ⟨Library.ordered_empty, measured_ordered, ?_⟩
  obtain ⟨root, hroot, -, hbody⟩ := resolve_measured
  obtain ⟨closed, hfirst, hsecond⟩ : (∀ assignment ∈ [(Component.alpha,
      "float(depth) /* depth */ + scale.depth // depth"),
      (Component.shininess, "2.depth * float(!depth)")], ClosesComments assignment.2.toList) ∧
      endsInLineComment "float(depth) /* depth */ + scale.depth // depth" = true ∧
      endsInLineComment "2.depth * float(!depth)" = false := by
    decide +kernel
  obtain ⟨-, -, hall⟩ := commented_emitted Library.ordered_empty measured_ordered hroot
  obtain ⟨-, htext⟩ := hall root root.self_mem_emitted _ hbody closed
  exact ⟨root, hroot, root.self_mem_emitted, htext, hfirst, hsecond⟩

/-- One expression that ends in a line comment. -/
def remarked : Fabric := { components := some [("alpha", "1.0 // one")] }

theorem remarked_ordered : remarked.Ordered :=
  .intro .nil .nil fun _ _ h => absurd h List.not_mem_nil

/-- What the fabric resolves to has its expression and nothing else. -/
theorem resolve_remarked : ∃ root, resolve Library.empty true remarked = .ok root ∧
    root.uniforms = [] ∧ root.materials = [] ∧
    root.body = .components [(.alpha, "1.0 // one")] := by
  have hmade : (resolve Library.empty true remarked).toOption.map (fun root =>
      (root.uniforms, root.materials.map Declared.name, root.body)) =
        some ([], [], .components [(.alpha, "1.0 // one")]) := by
    decide +kernel
  obtain ⟨root, hroot, hparts⟩ := toOption_map_eq_some hmade
  simp only [Prod.mk.injEq, List.map_eq_nil_iff] at hparts
  exact ⟨root, hroot, hparts⟩

/-- A number, a blank and a comment. -/
theorem lexemes_remarked : lexemes "1.0 // one".toList =
    [.number "1.0".toList, .mark ' ', .lineComment "// one".toList] := by
  have hnumber : cutLexeme '1' ".0 // one".toList = (.number "1.0".toList, " // one".toList) := rfl
  have hblank : cutLexeme ' ' "// one".toList = (.mark ' ', "// one".toList) := rfl
  have hcomment : cutLexeme '/' "/ one".toList = (.lineComment "// one".toList, []) := rfl
  show lexemes ('1' :: ".0 // one".toList) = _
  rw [lexemes_cons, hnumber]
  show _ :: lexemes (' ' :: "// one".toList) = _
  rw [lexemes_cons, hblank]
  show _ :: _ :: lexemes ('/' :: "/ one".toList) = _
  rw [lexemes_cons, hcomment, lexemes]

/-- **The semicolon of a statement in the comment of its expression**: the statement does not
end. -/
theorem remarked_takes_semicolon :
    ClosesComments "1.0 // one".toList ∧
    ∃ root, resolve Library.empty true remarked = .ok root ∧ root ∈ root.emitted ∧
      root.body = .components [(.alpha, "1.0 // one")] ∧
      (composeNode true root).text = root.head ++ "    material.alpha = 1.0 // one;\n"
        ++ functionEnd ∧
      commented (composeNode true root).text.toList = plain root.head.toList
        ++ (plain "    material.alpha = 1.0 ".toList
          ++ "// one;".toList.map (fun c => (c, true)) ++ [('\n', false)])
        ++ plain functionEnd.toList := by
  obtain ⟨root, hroot, huniforms, hmaterials, hbody⟩ := resolve_remarked
  have closed : ClosesComments "1.0 // one".toList := by
    unfold ClosesComments
    rw [lexemes_remarked]
    decide
  have hcommented := commented_of_mem_emitted Library.ordered_empty remarked_ordered hroot
    root.self_mem_emitted hbody (List.forall_mem_singleton.mpr closed)
  have hnone : replacements root = [] := by
    simp only [replacements, hbody, huniforms, hmaterials]
    rfl
  have hexpression : commented "1.0 // one".toList =
      plain "1.0 ".toList ++ "// one".toList.map (fun c => (c, true)) := by
    rw [commented, lexemes_remarked]
    rfl
  have hends : endsInLineComment "1.0 // one" = true := by
    rw [endsInLineComment, lexemes_remarked]
    rfl
  refine ⟨closed, root, hroot, root.self_mem_emitted, hbody, ?_, ?_⟩
  · have hline : assignmentLine [] (.alpha, "1.0 // one") =
        "    material." ++ "alpha" ++ " = " ++ substitute [] "1.0 // one" ++ ";\n" := rfl
    rw [text_of_components hbody, hnone, List.map_singleton, hline, substitute_empty]
    simp
  · rw [hcommented, hnone, List.flatMap_singleton, commentedAssignment, substitute_empty,
      hexpression, hends]
    rfl

end Example

end ShaderFabric
