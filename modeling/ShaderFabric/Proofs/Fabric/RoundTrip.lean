/-
# Fabrics are read back

What has been read can be written, and is read again as what it was.  Reading forgets nothing that
writing could not repeat: numbers have been widened, repeated names merged and members put in order
by the time there is a fabric, and all of this comes to the same when it is done twice.

* `Document.tidy_tidy`, `Document.readable_tidy` -- data that has been put in order;
* `Literal.Written`, `Fabric.Written` -- what is read, of literals and of fabrics
  (`written_ofDocument`);
* `Turns` -- one member after the other, on the way back;
* `readBack` -- the way there and back.
-/
import ShaderFabric.Proofs.Fabric.Reading

namespace ShaderFabric

/-! ## 1. Data in order -/

namespace Document

theorem mem_tidyItems {left : Document} : ∀ {items : List Document},
    left ∈ tidyItems items → ∃ item ∈ items, left = item.tidy
  | [], h => absurd h List.not_mem_nil
  | item :: rest, h => by
    rcases List.mem_cons.mp h with rfl | h
    · exact ⟨item, List.mem_cons_self, rfl⟩
    · obtain ⟨item, hmem, heq⟩ := mem_tidyItems h
      exact ⟨item, List.mem_cons_of_mem _ hmem, heq⟩

theorem mem_tidyMembers {name : String} {left : Document} : ∀ {members : List (String × Document)},
    (name, left) ∈ tidyMembers members → ∃ value, (name, value) ∈ members ∧ left = value.tidy
  | [], h => absurd h List.not_mem_nil
  | (key, value) :: rest, h => by
    rcases List.mem_cons.mp h with heq | h
    · cases heq
      exact ⟨value, List.mem_cons_self, rfl⟩
    · obtain ⟨value, hmem, heq⟩ := mem_tidyMembers h
      exact ⟨value, List.mem_cons_of_mem _ hmem, heq⟩

theorem tidyMembers_of_tidy : ∀ {members : List (String × Document)},
    (∀ name value, (name, value) ∈ members → value.tidy = value) → tidyMembers members = members
  | [], _ => rfl
  | (name, value) :: rest, h => by
    rw [tidyMembers, h name value List.mem_cons_self,
      tidyMembers_of_tidy fun key other hmem => h key other (List.mem_cons_of_mem _ hmem)]

theorem mem_ofList_tidyMembers {members : List (String × Document)} {name : String}
    {left : Document} (h : (name, left) ∈ Table.ofList (tidyMembers members)) :
    ∃ value, (name, value) ∈ members ∧ left = value.tidy :=
  mem_tidyMembers (Table.mem_of_mem_ofList h)

mutual

/-- **Data is put in order once.** -/
theorem tidy_tidy : ∀ document : Document, document.tidy.tidy = document.tidy
  | .float x => by
    rw [tidy]
    split
    · rename_i hfinite
      rw [tidy, if_pos hfinite]
    · rfl
  | .list items => by rw [tidy, tidy, tidyItems_tidyItems items]
  | .object members => by
    have hfixed : ∀ name left, (name, left) ∈ Table.ofList (tidyMembers members) →
        left.tidy = left := by
      intro name left h
      obtain ⟨value, hmem, rfl⟩ := mem_ofList_tidyMembers h
      exact tidy_tidy_of_mem members name value hmem
    rw [tidy, tidy, tidyMembers_of_tidy hfixed, Table.ofList_of_sorted (Table.sorted_ofList _)]
  | .null | .bool _ | .int _ | .text _ | .unread => rfl

theorem tidyItems_tidyItems : ∀ items : List Document,
    tidyItems (tidyItems items) = tidyItems items
  | [] => rfl
  | item :: rest => by rw [tidyItems, tidyItems, tidy_tidy item, tidyItems_tidyItems rest]

theorem tidy_tidy_of_mem : ∀ (members : List (String × Document)) (name : String)
    (value : Document), (name, value) ∈ members → value.tidy.tidy = value.tidy
  | [], _, _, h => absurd h List.not_mem_nil
  | (key, first) :: rest, name, value, h => by
    rcases List.mem_cons.mp h with heq | h
    · cases heq
      exact tidy_tidy first
    · exact tidy_tidy_of_mem rest name value h

end

theorem readableMembers_iff : ∀ {members : List (String × Document)},
    readableMembers members = true ↔ ∀ name value, (name, value) ∈ members → value.readable = true
  | [] => ⟨fun _ _ _ h => absurd h List.not_mem_nil, fun _ => rfl⟩
  | (name, value) :: rest => by
    rw [readableMembers, Bool.and_eq_true, readableMembers_iff]
    constructor
    · rintro ⟨hfirst, hrest⟩ key other h
      rcases List.mem_cons.mp h with heq | h
      · cases heq
        exact hfirst
      · exact hrest key other h
    · exact fun h => ⟨h name value List.mem_cons_self,
        fun key other hmem => h key other (List.mem_cons_of_mem _ hmem)⟩

mutual

/-- What can be read can be read when it has been put in order. -/
theorem readable_tidy : ∀ document : Document, document.readable = true →
    document.tidy.readable = true
  | .float x, _ => by
    rw [tidy]
    split
    · rfl
    · rfl
  | .list items, h => by
    rw [tidy, readable]
    exact readableItems_tidyItems items h
  | .object members, h => by
    rw [tidy, readable, readableMembers_iff]
    intro name left hleft
    obtain ⟨value, hmem, rfl⟩ := mem_ofList_tidyMembers hleft
    exact readable_tidy_of_mem members name value h hmem
  | .null, _ | .bool _, _ | .int _, _ | .text _, _ => rfl

theorem readableItems_tidyItems : ∀ items : List Document, readableItems items = true →
    readableItems (tidyItems items) = true
  | [], _ => rfl
  | item :: rest, h => by
    obtain ⟨hfirst, hrest⟩ := Bool.and_eq_true_iff.mp h
    rw [tidyItems, readableItems, readable_tidy item hfirst, readableItems_tidyItems rest hrest]
    rfl

theorem readable_tidy_of_mem : ∀ (members : List (String × Document)) (name : String)
    (value : Document), readableMembers members = true → (name, value) ∈ members →
      value.tidy.readable = true
  | [], _, _, _, hmem => absurd hmem List.not_mem_nil
  | (key, first) :: rest, name, value, h, hmem => by
    obtain ⟨hfirst, hrest⟩ := Bool.and_eq_true_iff.mp h
    rcases List.mem_cons.mp hmem with heq | hmem
    · cases heq
      exact readable_tidy first hfirst
    · exact readable_tidy_of_mem rest name value hrest hmem

end

end Document

/-! ## 2. Literals -/

namespace Literal

/-- A literal that has been read: no image, no place with headers, and with its fields in order. -/
def Written : Literal → Prop
  | .bool _ | .number _ | .sequence _ | .text _ => True
  | .object fields => Table.Sorted fields
  | .location _ | .image _ => False

theorem written_ofDocument {document : Document} {literal : Literal}
    (h : ofDocument document = .ok literal) : literal.Written := by
  cases document with
  | null | unread => cases h
  | bool value | int value | float value | text value =>
    cases h
    trivial
  | list items =>
    obtain ⟨values, -, h⟩ := bind_eq_ok.mp h
    cases h
    trivial
  | object members =>
    obtain ⟨fields, -, h⟩ := bind_eq_ok.mp h
    cases h
    exact Table.sorted_ofList fields

theorem mapM_numberOf : ∀ values : List Double,
    (values.map Document.float).mapM numberOf = .ok values
  | [] => rfl
  | value :: rest => by
    rw [List.map_cons, List.mapM_cons, mapM_numberOf rest]
    rfl

theorem fieldsOf_mapValues : ∀ fields : Table Field,
    fieldsOf (fields.mapValues fieldDocument) = .ok fields
  | [] => rfl
  | (name, field) :: rest => by
    have hfield : fieldOf (fieldDocument field) = .ok field := by
      cases field <;> rfl
    show (fieldOf (fieldDocument field) >>= fun read =>
      fieldsOf (Table.mapValues fieldDocument rest) >>= fun fields =>
        .ok ((name, read) :: fields)) = _
    rw [hfield, fieldsOf_mapValues rest]
    rfl

/-- **A literal that has been read is written, and read back.** -/
theorem readBack {literal : Literal} (h : literal.Written) :
    ∃ document, literal.toDocument? = some document ∧ ofDocument document = .ok literal := by
  cases literal with
  | location place | image image => exact absurd h id
  | bool value | number value | text value => exact ⟨_, rfl, rfl⟩
  | sequence values =>
    refine ⟨_, rfl, ?_⟩
    rw [ofDocument, mapM_numberOf]
    rfl
  | object fields =>
    refine ⟨_, rfl, ?_⟩
    rw [ofDocument, fieldsOf_mapValues]
    exact congrArg (fun table => Except.ok (Literal.object table)) (Table.ofList_of_sorted h)

end Literal

namespace Fabric

theorem readBack_uniforms : ∀ {uniforms : Table Literal},
    (∀ name literal, (name, literal) ∈ uniforms → literal.Written) →
      ∃ members, uniformDocuments uniforms = .ok members ∧
        Table.Rel (ReadAs Literal.ofDocument) members uniforms
  | [], _ => ⟨[], rfl, .nil⟩
  | (name, literal) :: rest, h => by
    obtain ⟨document, hdocument, hread⟩ := Literal.readBack (h name literal List.mem_cons_self)
    obtain ⟨members, hmembers, hrel⟩ :=
      readBack_uniforms fun key other hmem => h key other (List.mem_cons_of_mem _ hmem)
    refine ⟨(name, document) :: members, ?_, .cons hread hrel⟩
    rw [uniformDocuments, hdocument, hmembers]
    rfl

/-! ## 3. Components -/

theorem setComponent_eq_append {name expression : String} : ∀ {entries : List (String × String)},
    name ∉ entries.map Prod.fst →
      setComponent name expression entries = entries ++ [(name, expression)]
  | [], _ => rfl
  | (key, old) :: rest, h => by
    obtain ⟨hkey, hrest⟩ := not_or.mp (mt List.mem_cons.mpr h)
    rw [setComponent, if_neg (Ne.symm hkey), setComponent_eq_append hrest]
    rfl

/-- A component that is set keeps its place, or is the last one. -/
theorem map_fst_setComponent {name expression : String} : ∀ entries : List (String × String),
    (setComponent name expression entries).map Prod.fst =
      if name ∈ entries.map Prod.fst then entries.map Prod.fst
      else entries.map Prod.fst ++ [name]
  | [] => rfl
  | (key, old) :: rest => by
    rw [setComponent]
    split
    · rename_i hkey
      rw [if_pos (by rw [hkey]; exact List.mem_cons_self)]
      rfl
    · rename_i hkey
      have hiff : name ∈ key :: rest.map Prod.fst ↔ name ∈ rest.map Prod.fst :=
        List.mem_cons.trans (or_iff_right (Ne.symm hkey))
      rw [List.map_cons, List.map_cons, map_fst_setComponent rest]
      simp only [hiff]
      split
      · rfl
      · rfl

theorem nodup_componentsOf : ∀ {members : List (String × Document)}
    {read entries : List (String × String)}, componentsOf read members = .ok entries →
      (read.map Prod.fst).Nodup → (entries.map Prod.fst).Nodup
  | [], _, _, h, hread => by
    cases h
    exact hread
  | (name, .text expression) :: rest, read, entries, h, hread => by
    rw [componentsOf] at h
    refine nodup_componentsOf h ?_
    rw [map_fst_setComponent]
    split
    · exact hread
    · rename_i hname
      exact List.nodup_append.mpr ⟨hread, List.nodup_singleton name, by
        rintro key hkey other hother rfl
        exact hname (List.mem_singleton.mp hother ▸ hkey)⟩

/-- **Components are read back in their order.** -/
theorem componentsOf_texts : ∀ {entries read : List (String × String)},
    ((read ++ entries).map Prod.fst).Nodup →
      componentsOf read (entries.map fun entry => (entry.1, .text entry.2)) =
        .ok (read ++ entries)
  | [], read, _ => by rw [List.append_nil]; rfl
  | (name, expression) :: rest, read, h => by
    have hname : name ∉ read.map Prod.fst := by
      rw [List.map_append] at h
      exact fun hmem => (List.nodup_append.mp h).2.2 name hmem name List.mem_cons_self rfl
    rw [List.append_cons] at h ⊢
    rw [← componentsOf_texts h, ← setComponent_eq_append hname]
    rfl

/-! ## 4. Fabrics -/

/-- **A fabric that has been read**: with its uniforms, its sub-materials and its members without a
meaning in order, and each component once, and so below it. -/
inductive Written : Fabric → Prop
  | intro {fabric : Fabric} (uniforms : Table.Sorted fabric.uniforms)
    (literals : ∀ name literal, (name, literal) ∈ fabric.uniforms → literal.Written)
    (materials : Table.Sorted fabric.materials)
    (below : ∀ entry ∈ fabric.materials, entry.2.Written)
    (components : ∀ entries, fabric.components = some entries → (entries.map Prod.fst).Nodup)
    (unknown : Table.Sorted fabric.unknown)
    (left : ∀ name value, (name, value) ∈ fabric.unknown →
      name ∉ knownMembers ∧ value.readable = true ∧ value.tidy = value) : fabric.Written

theorem written_ofDocument {fabric : Fabric} : ∀ {document : Document},
    ofDocument document = .ok fabric → fabric.Written := by
  induction fabric using Fabric.induct with
  | step fabric ih =>
    intro document h
    obtain ⟨members, -, made⟩ := made_ofDocument h
    obtain ⟨huniforms, hliterals⟩ := made.uniform
    obtain ⟨hmaterials, hbelow⟩ := made.material
    refine .intro huniforms (fun name literal hmem => ?_) hmaterials (fun entry hmem => ?_)
      (fun entries hentries => ?_) made.sorted fun name value hmem => ?_
    · obtain ⟨_, _, -, -, hliteral⟩ := hliterals name literal hmem
      exact Literal.written_ofDocument hliteral
    · obtain ⟨_, _, -, -, hchild⟩ := hbelow entry.1 entry.2 hmem
      exact ih entry hmem hchild
    · rcases made.components with hnone | ⟨value, -, hvalue⟩
      · rw [hnone] at hentries
        cases hentries
      · rw [hentries] at hvalue
        cases value with
        | object values =>
          obtain ⟨_, hread, heq⟩ := map_eq_ok hvalue
          cases heq
          exact nodup_componentsOf hread List.nodup_nil
        | _ => cases hvalue
    · obtain ⟨hname, before, -, hreadable, rfl⟩ := made.unknown name value hmem
      exact ⟨hname, before.readable_tidy hreadable, before.tidy_tidy⟩

theorem readBack_materials : ∀ {materials : Table Fabric},
    (∀ entry ∈ materials, ∃ document, toDocument entry.2 = .ok document ∧
      ofDocument document = .ok entry.2) →
      ∃ members, materialDocuments materials = .ok members ∧
        Table.Rel (ReadAs ofDocument) members materials
  | [], _ => ⟨[], by rw [materialDocuments], .nil⟩
  | (name, child) :: rest, h => by
    obtain ⟨⟨document, hdocument, hread⟩, hrest⟩ := List.forall_mem_cons.mp h
    obtain ⟨members, hmembers, hrel⟩ := readBack_materials hrest
    refine ⟨(name, document) :: members, ?_, .cons hread hrel⟩
    rw [materialDocuments, hdocument, hmembers]
    rfl

/-! ## 5. One member after the other -/

/-- Reading a `segment` makes `next` of `fabric`, wherever no other members with a meaning have been
seen before than those of `done`; afterwards none but those of `done'` have been. -/
def Turns (done : List String) (fabric : Fabric) (segment : List (String × Document))
    (done' : List String) (next : Fabric) : Prop :=
  ∀ seen, seen ⊆ done → ∃ seen', seen' ⊆ done' ∧
    ∀ rest, ofMembers seen fabric (segment ++ rest) = ofMembers seen' next rest

theorem Turns.append {done done' done'' : List String} {fabric next last : Fabric}
    {segment segment' : List (String × Document)} (h : Turns done fabric segment done' next)
    (h' : Turns done' next segment' done'' last) :
    Turns done fabric (segment ++ segment') done'' last := by
  intro seen hseen
  obtain ⟨seen', hseen', heq⟩ := h seen hseen
  obtain ⟨seen'', hseen'', heq'⟩ := h' seen' hseen'
  exact ⟨seen'', hseen'', fun rest => by rw [List.append_assoc, heq, heq']⟩

section Segments

variable {done : List String} {name : String} {fabric next : Fabric}

/-- What is left out changes nothing. -/
theorem turns_nil : Turns done fabric [] (name :: done) fabric :=
  fun seen hseen => ⟨seen, fun _ hmem => List.mem_cons_of_mem _ (hseen hmem), fun _ => rfl⟩

/-- A member that has not been seen before. -/
theorem turns_member (hname : name ∉ done) {value : Document}
    (h : memberOf fabric name value = .ok next) :
    Turns done fabric [(name, value)] (name :: done) next := by
  intro seen hseen
  refine ⟨name :: seen, List.cons_subset_cons name hseen, fun rest => ?_⟩
  rw [List.singleton_append, ofMembers_cons, if_neg fun hboth => hname (hseen hboth.2), h]
  rfl

end Segments

/-- Members without a meaning are kept as they are, if they are in order. -/
theorem ofMembers_unknown : ∀ {unknown : List (String × Document)},
    (∀ name value, (name, value) ∈ unknown →
      name ∉ knownMembers ∧ value.readable = true ∧ value.tidy = value) →
    ∀ (seen : List String) (fabric : Fabric), ofMembers seen fabric unknown =
      .ok { fabric with unknown := Table.override fabric.unknown unknown }
  | [], _, seen, fabric => by
    rw [ofMembers]
    cases fabric
    rfl
  | (name, value) :: rest, h, seen, fabric => by
    obtain ⟨hname, hreadable, htidy⟩ := h name value List.mem_cons_self
    have hother : memberOf fabric name value = .ok (fabric.withUnknown name value) := by
      have hdistinct := hname
      simp only [knownMembers, List.mem_cons, List.not_mem_nil, or_false, not_or] at hdistinct
      obtain ⟨h₁, h₂, h₃, h₄, h₅⟩ := hdistinct
      rw [memberOf, if_neg h₁, if_neg h₂, if_neg h₃, if_neg h₄, if_neg h₅, if_pos hreadable, htidy]
    rw [ofMembers_cons, if_neg fun hboth => hname hboth.1, hother]
    exact ofMembers_unknown (fun key other hmem => h key other (List.mem_cons_of_mem _ hmem)) _ _

/-! ## 6. There and back -/

/-- The members of an object, unless there are none. -/
def tableMember (name : String) (members : List (String × Document)) : List (String × Document) :=
  if members.isEmpty then [] else [(name, .object members)]

def componentMember : Option (List (String × String)) → List (String × Document)
  | some entries => [("components", .object (entries.map fun entry => (entry.1, .text entry.2)))]
  | none => []

/-- The members that a fabric is written with, its uniforms and its sub-materials as data. -/
def members (fabric : Fabric) (own children : List (String × Document)) :
    List (String × Document) :=
  optionalMember "type" fabric.typeName ++ (tableMember "uniforms" own ++
    (tableMember "materials" children ++ (componentMember fabric.components ++
      (optionalMember "source" fabric.source ++ fabric.unknown))))

/-- **What is written.** -/
theorem toDocument_eq_ok {fabric : Fabric} {document : Document} :
    fabric.toDocument = .ok document ↔ ∃ own children, uniformDocuments fabric.uniforms = .ok own ∧
      materialDocuments fabric.materials = .ok children ∧
      document = .object (fabric.members own children) := by
  obtain ⟨typeName, uniforms, materials, components, source, unknown⟩ := fabric
  simp only [toDocument, bind_eq_ok, pure_eq_ok, List.append_assoc]
  constructor
  · rintro ⟨own, hown, children, hchildren, rfl⟩
    refine ⟨own, children, hown, hchildren, ?_⟩
    cases components <;> rfl
  · rintro ⟨own, children, hown, hchildren, rfl⟩
    refine ⟨own, hown, children, hchildren, ?_⟩
    cases components <;> rfl

section Turning

variable {done : List String} {uniforms : Table Literal} {materials : Table Fabric}

theorem turns_type (typeName : Option String) :
    Turns [] {} (optionalMember "type" typeName) ["type"] { typeName } := by
  cases typeName with
  | none => exact turns_nil
  | some text => exact turns_member List.not_mem_nil rfl

theorem turns_uniforms (typeName : Option String) {own : List (String × Document)}
    (h : Table.Rel (ReadAs Literal.ofDocument) own uniforms) (hsorted : Table.Sorted uniforms) :
    Turns ["type"] { typeName } (tableMember "uniforms" own) ["uniforms", "type"]
      { typeName, uniforms } := by
  cases h with
  | nil => exact turns_nil
  | cons hfirst hrest =>
    refine turns_member (by decide) ?_
    show (fun uniforms : Table Literal => ({ typeName, uniforms } : Fabric)) <$>
      uniformTable (.object _) = _
    rw [uniformTable, uniformsOf_eq, tableOf_of_sorted (.cons hfirst hrest) hsorted]
    rfl

theorem turns_materials (typeName : Option String) {children : List (String × Document)}
    (h : Table.Rel (ReadAs ofDocument) children materials) (hsorted : Table.Sorted materials) :
    Turns ["uniforms", "type"] { typeName, uniforms } (tableMember "materials" children)
      ["materials", "uniforms", "type"] { typeName, uniforms, materials } := by
  cases h with
  | nil => exact turns_nil
  | cons hfirst hrest =>
    refine turns_member (by decide) ?_
    show (fun materials : Table Fabric => ({ typeName, uniforms, materials } : Fabric)) <$>
      materialsOf (.object _) = _
    rw [materialsOf, childrenOf_eq, tableOf_of_sorted (.cons hfirst hrest) hsorted]
    rfl

theorem turns_components (typeName : Option String) (components : Option (List (String × String)))
    (h : ∀ entries, components = some entries → (entries.map Prod.fst).Nodup) :
    Turns ["materials", "uniforms", "type"] { typeName, uniforms, materials }
      (componentMember components) ["components", "materials", "uniforms", "type"]
      { typeName, uniforms, materials, components } := by
  cases components with
  | none => exact turns_nil
  | some entries =>
    refine turns_member (by decide) ?_
    show (fun components => ({ typeName, uniforms, materials, components } : Fabric)) <$>
      componentList (.object _) = _
    have hnodup : (([] ++ entries).map Prod.fst).Nodup := h entries rfl
    rw [componentList, componentsOf_texts hnodup]
    rfl

theorem turns_source (typeName : Option String) (components : Option (List (String × String)))
    (source : Option String) :
    Turns ["components", "materials", "uniforms", "type"]
      { typeName, uniforms, materials, components } (optionalMember "source" source)
      ["source", "components", "materials", "uniforms", "type"]
      { typeName, uniforms, materials, components, source } := by
  cases source with
  | none => exact turns_nil
  | some text => exact turns_member (by decide) rfl

end Turning

/-- **Members are read back** if the data of the tables is. -/
theorem ofMembers_members {fabric : Fabric} (written : fabric.Written)
    {own children : List (String × Document)}
    (hown : Table.Rel (ReadAs Literal.ofDocument) own fabric.uniforms)
    (hchildren : Table.Rel (ReadAs ofDocument) children fabric.materials) :
    ofMembers [] {} (fabric.members own children) = .ok fabric := by
  obtain ⟨huniforms, -, hmaterials, -, hcomponents, hunknown, hleft⟩ := written
  obtain ⟨typeName, uniforms, materials, components, source, unknown⟩ := fabric
  obtain ⟨seen, -, hall⟩ := ((((turns_type typeName).append
    (turns_uniforms typeName hown huniforms)).append
    (turns_materials typeName hchildren hmaterials)).append
    (turns_components typeName components hcomponents)).append
    (turns_source typeName components source) [] (List.Subset.refl _)
  have hmembers := hall unknown
  simp only [List.append_assoc] at hmembers
  rw [members, hmembers, ofMembers_unknown hleft]
  dsimp only
  exact congrArg (fun unknown => Except.ok
    (⟨typeName, uniforms, materials, components, source, unknown⟩ : Fabric))
    (Table.ofList_of_sorted hunknown)

/-- **A fabric that has been read is written, and read back.** -/
theorem readBack {fabric : Fabric} : fabric.Written →
    ∃ document, fabric.toDocument = .ok document ∧ ofDocument document = .ok fabric := by
  induction fabric using Fabric.induct with
  | step fabric ih =>
    intro written
    have parts := written
    obtain ⟨-, hliterals, -, hbelow, -, -, -⟩ := parts
    obtain ⟨own, hown, hownrel⟩ := readBack_uniforms hliterals
    obtain ⟨children, hchildren, hchildrel⟩ :=
      readBack_materials fun entry hmem => ih entry hmem (hbelow entry hmem)
    refine ⟨.object (fabric.members own children),
      toDocument_eq_ok.mpr ⟨own, children, hown, hchildren, rfl⟩, ?_⟩
    rw [ofDocument]
    exact ofMembers_members written hownrel hchildrel

end Fabric

end ShaderFabric
