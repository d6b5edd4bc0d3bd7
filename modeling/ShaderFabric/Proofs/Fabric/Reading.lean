/-
# What a fabric is read from

A fabric is read member by member, each of them refused or put into the fabric read so far.  What
this comes to does not depend on the way there: every part of a fabric that has been read is that of
one member, and what is read into a table is the members of an object, each by itself.

* `Fabric.induct` -- induction over the sub-materials of a fabric;
* `memberOf`, `ofMembers_cons` -- one member at a time;
* `tableOf_eq_ok` -- tables, entry by entry;
* `made_ofDocument` -- where each part of a fabric comes from;
* `ofJson_eq_ok` -- texts.
-/
import ShaderFabric.Fabric.Written
import ShaderFabric.Proofs.Checks
import ShaderFabric.Proofs.Table

namespace ShaderFabric

namespace Fabric

/-! ## 1. Sub-materials -/

mutual

theorem induct_aux {P : Fabric → Prop}
    (step : ∀ fabric : Fabric, (∀ entry ∈ fabric.materials, P entry.2) → P fabric) :
    ∀ fabric : Fabric, P fabric
  | ⟨typeName, uniforms, materials, components, source, unknown⟩ =>
    step ⟨typeName, uniforms, materials, components, source, unknown⟩
      (induct_materials step materials)

theorem induct_materials {P : Fabric → Prop}
    (step : ∀ fabric : Fabric, (∀ entry ∈ fabric.materials, P entry.2) → P fabric) :
    ∀ materials : List (String × Fabric), ∀ entry ∈ materials, P entry.2
  | [], _, h => absurd h List.not_mem_nil
  | (_, child) :: rest, entry, h => by
    rcases List.mem_cons.mp h with rfl | h
    · exact induct_aux step child
    · exact induct_materials step rest entry h

end

/-- What holds of a fabric as soon as it holds of its sub-materials holds of every fabric. -/
@[elab_as_elim]
theorem induct {P : Fabric → Prop}
    (step : ∀ fabric : Fabric, (∀ entry ∈ fabric.materials, P entry.2) → P fabric)
    (fabric : Fabric) : P fabric := induct_aux step fabric

/-! ## 2. Tables -/

/-- A document that is read as a value. -/
def ReadAs {α : Type} (decode : Document → Except Fault α) (document : Document) (value : α) :
    Prop := decode document = .ok value

/-- Members that are read into a table, each by itself. -/
def tableOf {α : Type} (decode : Document → Except Fault α) (read : Table α) :
    List (String × Document) → Except Fault (Table α)
  | [] => .ok read
  | (name, document) :: rest =>
    decode document >>= fun value => tableOf decode (read.insert name value) rest

theorem uniformsOf_eq : ∀ (members : List (String × Document)) (read : Table Literal),
    uniformsOf read members = tableOf Literal.ofDocument read members
  | [], _ => rfl
  | (_, _) :: rest, read => by
    rw [uniformsOf, tableOf]
    exact congrArg _ (funext fun _ => uniformsOf_eq rest _)

theorem childrenOf_eq : ∀ (members : List (String × Document)) (read : Table Fabric),
    childrenOf read members = tableOf ofDocument read members
  | [], _ => by rw [childrenOf, tableOf]
  | (_, _) :: rest, read => by
    rw [childrenOf, tableOf]
    exact congrArg _ (funext fun _ => childrenOf_eq rest _)

section Tables

variable {α : Type} {decode : Document → Except Fault α}

/-- **What is read into a table** is what each member is read as, laid over the table. -/
theorem tableOf_eq_ok {table : Table α} : ∀ {members : List (String × Document)} {read : Table α},
    tableOf decode read members = .ok table ↔
      ∃ entries, Table.Rel (ReadAs decode) members entries ∧ table = Table.override read entries
  | [], read => by
    constructor
    · intro h
      cases h
      exact ⟨[], .nil, rfl⟩
    · rintro ⟨_, ⟨⟩, rfl⟩
      rfl
  | (name, document) :: rest, read => by
    rw [tableOf, bind_eq_ok]
    constructor
    · rintro ⟨value, hvalue, h⟩
      obtain ⟨entries, hentries, rfl⟩ := tableOf_eq_ok.mp h
      exact ⟨(name, value) :: entries, .cons hvalue hentries, rfl⟩
    · rintro ⟨_, hentries, rfl⟩
      cases hentries with
      | cons hvalue hentries => exact ⟨_, hvalue, tableOf_eq_ok.mpr ⟨_, hentries, rfl⟩⟩

/-- A table that has been read is in order, and every entry has been read from a member. -/
theorem sorted_tableOf {members : List (String × Document)} {table : Table α}
    (h : tableOf decode [] members = .ok table) : table.Sorted ∧
      ∀ name value, (name, value) ∈ table →
        ∃ document, (name, document) ∈ members ∧ decode document = .ok value := by
  obtain ⟨entries, hentries, rfl⟩ := tableOf_eq_ok.mp h
  refine ⟨Table.sorted_override .nil, fun name value hmem => ?_⟩
  rcases Table.mem_override hmem with hmem | hmem
  · exact absurd hmem List.not_mem_nil
  · exact hentries.exists_of_mem hmem

/-- Members that are read as a table in order are read into it. -/
theorem tableOf_of_sorted {members : List (String × Document)} {table : Table α}
    (h : Table.Rel (ReadAs decode) members table) (hsorted : table.Sorted) :
    tableOf decode [] members = .ok table :=
  tableOf_eq_ok.mpr ⟨table, h, (Table.ofList_of_sorted hsorted).symm⟩

end Tables

/-! ## 3. Members -/

/-- The fabric with one more member. -/
def memberOf (fabric : Fabric) (name : String) (value : Document) : Except Fault Fabric :=
  if name = "type" then
    (fun typeName => { fabric with typeName }) <$> optionalText value
  else if name = "uniforms" then
    (fun uniforms => { fabric with uniforms }) <$> uniformTable value
  else if name = "materials" then
    (fun materials => { fabric with materials }) <$> materialsOf value
  else if name = "components" then
    (fun components => { fabric with components }) <$> componentList value
  else if name = "source" then
    (fun source => { fabric with source }) <$> optionalText value
  else if value.readable then .ok (fabric.withUnknown name value.tidy)
  else .error .form

/-- **Members are read one after the other**, those with a meaning once. -/
theorem ofMembers_cons (seen : List String) (fabric : Fabric) (name : String) (value : Document)
    (rest : List (String × Document)) :
    ofMembers seen fabric ((name, value) :: rest) =
      if name ∈ knownMembers ∧ name ∈ seen then .error .form
      else memberOf fabric name value >>= fun next => ofMembers (name :: seen) next rest := by
  rw [ofMembers]
  split
  · rfl
  · unfold memberOf
    simp only [apply_ite fun taken : Except Fault Fabric =>
      taken >>= fun next => ofMembers (name :: seen) next rest]
    rfl

/-! ## 4. Fabrics -/

/-- **What each part of a fabric has been read from**, among some members. -/
structure Made (members : List (String × Document)) (fabric : Fabric) : Prop where
  uniforms : fabric.uniforms = [] ∨
    ∃ value, ("uniforms", value) ∈ members ∧ uniformTable value = .ok fabric.uniforms
  materials : fabric.materials = [] ∨
    ∃ value, ("materials", value) ∈ members ∧ materialsOf value = .ok fabric.materials
  components : fabric.components = none ∨
    ∃ value, ("components", value) ∈ members ∧ componentList value = .ok fabric.components
  sorted : Table.Sorted fabric.unknown
  unknown : ∀ name left, (name, left) ∈ fabric.unknown → name ∉ knownMembers ∧
    ∃ value, (name, value) ∈ members ∧ value.readable = true ∧ left = value.tidy

theorem made_memberOf {members : List (String × Document)} {fabric next : Fabric} {name : String}
    {value : Document} (h : memberOf fabric name value = .ok next) (made : Made members fabric)
    (hmem : (name, value) ∈ members) : Made members next := by
  unfold memberOf at h
  split at h
  · obtain ⟨_, -, rfl⟩ := map_eq_ok h
    exact ⟨made.uniforms, made.materials, made.components, made.sorted, made.unknown⟩
  · rename_i htype
    split at h
    · rename_i hname
      obtain ⟨uniforms, huniforms, rfl⟩ := map_eq_ok h
      exact ⟨.inr ⟨value, hname ▸ hmem, huniforms⟩, made.materials, made.components, made.sorted,
        made.unknown⟩
    · rename_i huniforms
      split at h
      · rename_i hname
        obtain ⟨materials, hmaterials, rfl⟩ := map_eq_ok h
        exact ⟨made.uniforms, .inr ⟨value, hname ▸ hmem, hmaterials⟩, made.components, made.sorted,
          made.unknown⟩
      · rename_i hmaterials
        split at h
        · rename_i hname
          obtain ⟨components, hcomponents, rfl⟩ := map_eq_ok h
          exact ⟨made.uniforms, made.materials, .inr ⟨value, hname ▸ hmem, hcomponents⟩,
            made.sorted, made.unknown⟩
        · rename_i hcomponents
          split at h
          · obtain ⟨_, -, rfl⟩ := map_eq_ok h
            exact ⟨made.uniforms, made.materials, made.components, made.sorted, made.unknown⟩
          · rename_i hsource
            split at h
            · rename_i hreadable
              cases h
              refine ⟨made.uniforms, made.materials, made.components,
                Table.sorted_insert made.sorted name value.tidy, fun key left hleft => ?_⟩
              rcases Table.mem_insert hleft with heq | hleft
              · cases heq
                have hknown : name ∉ knownMembers := by
                  simp only [knownMembers, List.mem_cons, List.not_mem_nil, or_false, not_or]
                  exact ⟨htype, huniforms, hmaterials, hcomponents, hsource⟩
                exact ⟨hknown, value, hmem, hreadable, rfl⟩
              · exact made.unknown key left hleft
            · cases h

theorem made_ofMembers {all : List (String × Document)} : ∀ {members : List (String × Document)}
    {seen : List String} {fabric result : Fabric}, ofMembers seen fabric members = .ok result →
      (∀ member ∈ members, member ∈ all) → Made all fabric → Made all result
  | [], _, _, _, h, _, made => by
    rw [ofMembers] at h
    cases h
    exact made
  | (name, value) :: rest, seen, fabric, result, h, hall, made => by
    obtain ⟨hfirst, hrest⟩ := List.forall_mem_cons.mp hall
    rw [ofMembers_cons] at h
    split at h
    · cases h
    · obtain ⟨next, hnext, h⟩ := bind_eq_ok.mp h
      exact made_ofMembers h hrest (made_memberOf hnext made hfirst)

/-- **Every part of a fabric that has been read is that of one member.** -/
theorem made_ofDocument {document : Document} {fabric : Fabric}
    (h : ofDocument document = .ok fabric) :
    ∃ members, document = .object members ∧ Made members fabric := by
  cases document with
  | object members =>
    rw [ofDocument] at h
    have hnone : Made members {} := ⟨.inl rfl, .inl rfl, .inl rfl, .nil, nofun⟩
    exact ⟨members, rfl, made_ofMembers h (fun _ hmem => hmem) hnone⟩
  | _ => cases h

/-- The uniforms that have been read, and what each has been read from. -/
theorem Made.uniform {members : List (String × Document)} {fabric : Fabric}
    (made : Made members fabric) : Table.Sorted fabric.uniforms ∧
      ∀ name literal, (name, literal) ∈ fabric.uniforms →
        ∃ values value, ("uniforms", .object values) ∈ members ∧ (name, value) ∈ values ∧
          Literal.ofDocument value = .ok literal := by
  rcases made.uniforms with hnone | ⟨value, hvalue, h⟩
  · rw [hnone]
    exact ⟨.nil, nofun⟩
  · cases value with
    | object values =>
      rw [uniformTable, uniformsOf_eq] at h
      obtain ⟨hsorted, hread⟩ := sorted_tableOf h
      refine ⟨hsorted, fun name literal hmem => ?_⟩
      obtain ⟨document, hdocument, hliteral⟩ := hread name literal hmem
      exact ⟨values, document, hvalue, hdocument, hliteral⟩
    | _ => cases h

/-- The sub-materials that have been read, and what each has been read from. -/
theorem Made.material {members : List (String × Document)} {fabric : Fabric}
    (made : Made members fabric) : Table.Sorted fabric.materials ∧
      ∀ name child, (name, child) ∈ fabric.materials →
        ∃ values value, ("materials", .object values) ∈ members ∧ (name, value) ∈ values ∧
          ofDocument value = .ok child := by
  rcases made.materials with hnone | ⟨value, hvalue, h⟩
  · rw [hnone]
    exact ⟨.nil, nofun⟩
  · cases value with
    | object values =>
      rw [materialsOf, childrenOf_eq] at h
      obtain ⟨hsorted, hread⟩ := sorted_tableOf h
      refine ⟨hsorted, fun name child hmem => ?_⟩
      obtain ⟨document, hdocument, hchild⟩ := hread name child hmem
      exact ⟨values, document, hvalue, hdocument, hchild⟩
    | _ => cases h

/-- **A text describes a fabric** if it is read to its end, as data that does. -/
theorem ofJson_eq_ok {text : String} {fabric : Fabric} : ofJson text = .ok fabric ↔
    ofDocument (Json.read text).document = .ok fabric ∧ (Json.read text).complete = true := by
  unfold ofJson
  dsimp only
  cases (Json.read text).complete with
  | true => simp
  | false => simp [bind_eq_ok, throw_ne_ok]

end Fabric

end ShaderFabric
