/-
# Fabrics in JSON

A fabric that has been read from a JSON text can be written as one, and the text that is written is
read as the same fabric.  As trees of data this is `Fabric.readBack`.  For texts there is a limit to
keep: a text holds no more than 127 containers inside one another, whole numbers of sixty-four bits
and finite floats, and what is written must keep to this as what was read did.

It does, because writing puts no data deeper than reading has found it (`Document.Replaces`): a
literal stands where it stood, repeated names and nulls are gone, and empty tables are left out.

* `Document.Plain.tidy`, `Document.isFinite_of_mem_floats` -- plain data;
* `Literal.replaces_toDocument`, `Fabric.replaces_toDocument` -- what is written for what was read;
* `Fabric.json_lossless` -- texts.
-/
import ShaderFabric.Proofs.Fabric.RoundTrip
import ShaderFabric.Proofs.Json.RoundTrip

namespace ShaderFabric

open Json (ReadsBack depthLimit)

/-! ## 1. Plain data -/

namespace Document

/-- Data that is put in order stays plain. -/
theorem Plain.tidy : ∀ {depth : Nat} {document : Document}, Plain depth document →
    Plain depth document.tidy
  | _, .null, h | _, .bool _, h | _, .int _, h | _, .text _, h => h
  | _, .unread, h => absurd h Plain.ne_unread
  | _, .float x, h => by
    rw [Document.tidy, if_pos h.isFinite]
    exact h
  | 0, .list _, h | 0, .object _, h => h.elim
  | _ + 1, .list _, h => fun left hleft => by
    obtain ⟨item, hmem, rfl⟩ := mem_tidyItems hleft
    exact (h item hmem).tidy
  | _ + 1, .object _, h => fun name left hleft => by
    obtain ⟨value, hmem, rfl⟩ := mem_ofList_tidyMembers hleft
    exact (h name value hmem).tidy

mutual

/-- The floats of plain data are finite. -/
theorem isFinite_of_mem_floats : ∀ {document : Document} {depth : Nat} {x : Double},
    document.Plain depth → x ∈ document.floats → x.isFinite = true
  | .float _, _, _, h, hmem => List.mem_singleton.mp hmem ▸ h.isFinite
  | .list _, _, _, h, hmem => by
    obtain ⟨_, -, hitems⟩ := h.list
    exact isFinite_of_mem_itemFloats hitems hmem
  | .object _, _, _, h, hmem => by
    obtain ⟨_, -, hmembers⟩ := h.object
    exact isFinite_of_mem_memberFloats hmembers hmem

theorem isFinite_of_mem_itemFloats : ∀ {items : List Document} {depth : Nat} {x : Double},
    (∀ item ∈ items, item.Plain depth) → x ∈ itemFloats items → x.isFinite = true
  | item :: rest, _, _, h, hmem => by
    obtain ⟨hfirst, hrest⟩ := List.forall_mem_cons.mp h
    rcases List.mem_append.mp hmem with hmem | hmem
    · exact isFinite_of_mem_floats hfirst hmem
    · exact isFinite_of_mem_itemFloats hrest hmem

theorem isFinite_of_mem_memberFloats : ∀ {members : List (String × Document)} {depth : Nat}
    {x : Double}, (∀ name value, (name, value) ∈ members → value.Plain depth) →
      x ∈ memberFloats members → x.isFinite = true
  | (name, value) :: rest, _, _, h, hmem => by
    rcases List.mem_append.mp hmem with hmem | hmem
    · exact isFinite_of_mem_floats (h name value List.mem_cons_self) hmem
    · exact isFinite_of_mem_memberFloats
        (fun key other hother => h key other (List.mem_cons_of_mem _ hother)) hmem

end

/-- Data that a text can hold wherever it can hold other data. -/
def Replaces (document before : Document) : Prop :=
  ∀ depth, before.Plain depth → document.Plain depth

end Document

/-! ## 2. Literals -/

namespace Literal

open Document (Replaces)

theorem replaces_numberOf {before : Document} {x : Double} (h : numberOf before = .ok x) :
    Replaces (.float x) before := by
  intro depth hplain
  cases before with
  | int value =>
    cases h
    have hvalue := hplain.int
    have hlargest : Json.largestWord = 2 ^ 64 - 1 := rfl
    exact .float (Double.isFinite_ofInt (by omega))
  | float value =>
    cases h
    exact hplain
  | _ => cases h

theorem replaces_fieldOf {before : Document} {field : Field} (h : fieldOf before = .ok field) :
    Replaces (fieldDocument field) before := by
  cases before with
  | int value =>
    cases h
    exact replaces_numberOf rfl
  | float value =>
    cases h
    exact replaces_numberOf rfl
  | text value =>
    cases h
    exact fun _ h => h
  | _ => cases h

/-- A number of a sequence has been read from an item. -/
theorem mem_of_mapM_numberOf {x : Double} : ∀ {items : List Document} {values : List Double},
    items.mapM numberOf = .ok values → x ∈ values → ∃ item ∈ items, numberOf item = .ok x
  | [], _, h, hmem => by
    cases h
    cases hmem
  | item :: rest, values, h, hmem => by
    rw [List.mapM_cons] at h
    obtain ⟨first, hfirst, h⟩ := bind_eq_ok.mp h
    obtain ⟨others, hothers, h⟩ := bind_eq_ok.mp h
    cases h
    rcases List.mem_cons.mp hmem with rfl | hmem
    · exact ⟨item, List.mem_cons_self, hfirst⟩
    · obtain ⟨item, hitem, hx⟩ := mem_of_mapM_numberOf hothers hmem
      exact ⟨item, List.mem_cons_of_mem _ hitem, hx⟩

/-- A field has been read from a member. -/
theorem rel_fieldsOf : ∀ {members : List (String × Document)} {fields : List (String × Field)},
    fieldsOf members = .ok fields →
      Table.Rel (fun value field => fieldOf value = .ok field) members fields
  | [], _, h => by
    cases h
    exact .nil
  | (name, value) :: rest, _, h => by
    obtain ⟨field, hfield, h⟩ := bind_eq_ok.mp h
    obtain ⟨fields, hfields, h⟩ := bind_eq_ok.mp h
    cases h
    exact .cons hfield (rel_fieldsOf hfields)

/-- **A literal is written where it can stand in for what it was read from.** -/
theorem replaces_toDocument {before document : Document} {literal : Literal}
    (hread : ofDocument before = .ok literal) (hwritten : literal.toDocument? = some document) :
    document.Replaces before := by
  cases before with
  | null | unread => cases hread
  | bool value | text value =>
    cases hread
    cases hwritten
    exact fun _ h => h
  | int value | float value =>
    cases hread
    cases hwritten
    exact replaces_numberOf rfl
  | list items =>
    obtain ⟨values, hvalues, hread⟩ := bind_eq_ok.mp hread
    cases hread
    cases hwritten
    intro depth hplain
    obtain ⟨below, rfl, hitems⟩ := hplain.list
    intro left hleft
    obtain ⟨x, hx, rfl⟩ := List.mem_map.mp hleft
    obtain ⟨item, hitem, hnumber⟩ := mem_of_mapM_numberOf hvalues hx
    exact replaces_numberOf hnumber below (hitems item hitem)
  | object members =>
    obtain ⟨fields, hfields, hread⟩ := bind_eq_ok.mp hread
    cases hread
    cases hwritten
    intro depth hplain
    obtain ⟨below, rfl, hmembers⟩ := hplain.object
    intro name left hleft
    obtain ⟨⟨key, field⟩, hfield, heq⟩ := List.mem_map.mp hleft
    cases heq
    obtain ⟨value, hvalue, hread⟩ := (rel_fieldsOf hfields).exists_of_mem
      (Table.mem_of_mem_ofList hfield)
    exact replaces_fieldOf hread below (hmembers _ value hvalue)

end Literal

/-! ## 3. Fabrics -/

namespace Fabric

open Document (Replaces)

theorem rel_uniformDocuments : ∀ {uniforms : Table Literal} {own : List (String × Document)},
    uniformDocuments uniforms = .ok own →
      Table.Rel (fun literal document => literal.toDocument? = some document) uniforms own
  | [], _, h => by
    cases h
    exact .nil
  | (name, literal) :: rest, _, h => by
    rw [uniformDocuments] at h
    split at h
    · cases h
    · rename_i document hdocument
      obtain ⟨others, hothers, h⟩ := bind_eq_ok.mp h
      cases h
      exact .cons hdocument (rel_uniformDocuments hothers)

theorem rel_materialDocuments : ∀ {materials : Table Fabric} {children : List (String × Document)},
    materialDocuments materials = .ok children →
      Table.Rel (fun child document => toDocument child = .ok document) materials children
  | [], _, h => by
    rw [materialDocuments] at h
    cases h
    exact .nil
  | (name, child) :: rest, _, h => by
    rw [materialDocuments] at h
    obtain ⟨document, hdocument, h⟩ := bind_eq_ok.mp h
    obtain ⟨others, hothers, h⟩ := bind_eq_ok.mp h
    cases h
    exact .cons hdocument (rel_materialDocuments hothers)

section Members

variable {members : List (String × Document)} {below : Nat}

theorem plain_optionalMember {name key : String} {value : Document} : ∀ {text : Option String},
    (key, value) ∈ optionalMember name text → value.Plain below
  | none, h => absurd h List.not_mem_nil
  | some _, h => by
    cases List.mem_singleton.mp h
    exact .text

variable (hplain : ∀ name value, (name, value) ∈ members → value.Plain below)

include hplain

/-- A table that is written has been read from an object: it is left out when it is empty. -/
theorem plain_tableMember {name key : String} {value : Document} {table : List (String × Document)}
    (h : ∀ key document, (key, document) ∈ table → ∃ values value,
      (name, .object values) ∈ members ∧ (key, value) ∈ values ∧ document.Replaces value)
    (hmem : (key, value) ∈ tableMember name table) : value.Plain below := by
  cases table with
  | nil => exact absurd hmem List.not_mem_nil
  | cons entry rest =>
    cases List.mem_singleton.mp hmem
    obtain ⟨values, _, hvalues, -, -⟩ := h entry.1 entry.2 List.mem_cons_self
    obtain ⟨depth, rfl, -⟩ := (hplain _ _ hvalues).object
    intro key document hdocument
    obtain ⟨values, value, hvalues, hvalue, hreplaces⟩ := h key document hdocument
    obtain ⟨_, heq, hbelow⟩ := (hplain _ _ hvalues).object
    cases heq
    exact hreplaces depth (hbelow key value hvalue)

theorem plain_componentMember {fabric : Fabric} (made : Made members fabric) {key : String}
    {value : Document} (hmem : (key, value) ∈ componentMember fabric.components) :
    value.Plain below := by
  rcases made.components with hnone | ⟨before, hbefore, hread⟩
  · rw [hnone] at hmem
    exact absurd hmem List.not_mem_nil
  · cases before with
    | object values =>
      obtain ⟨entries, -, hentries⟩ := map_eq_ok hread
      rw [← hentries] at hmem
      cases List.mem_singleton.mp hmem
      obtain ⟨depth, rfl, -⟩ := (hplain _ _ hbefore).object
      intro name text htext
      obtain ⟨entry, -, heq⟩ := List.mem_map.mp htext
      cases heq
      exact .text
    | _ => cases hread

end Members

/-- **A fabric is written where it can stand in for what it was read from.** -/
theorem replaces_toDocument {fabric : Fabric} : ∀ {before document : Document},
    ofDocument before = .ok fabric → fabric.toDocument = .ok document →
      document.Replaces before := by
  induction fabric using Fabric.induct with
  | step fabric ih =>
    intro before document hread hwritten
    obtain ⟨members, rfl, made⟩ := made_ofDocument hread
    obtain ⟨own, children, hown, hchildren, rfl⟩ := toDocument_eq_ok.mp hwritten
    intro depth hplain
    obtain ⟨below, rfl, hmembers⟩ := hplain.object
    have huniforms : ∀ key document, (key, document) ∈ own → ∃ values value,
        ("uniforms", .object values) ∈ members ∧ (key, value) ∈ values ∧
          document.Replaces value := by
      intro key document hdocument
      obtain ⟨literal, hliteral, htext⟩ := (rel_uniformDocuments hown).exists_of_mem hdocument
      obtain ⟨values, value, hvalues, hvalue, hread⟩ := made.uniform.2 key literal hliteral
      exact ⟨values, value, hvalues, hvalue, Literal.replaces_toDocument hread htext⟩
    have hmaterials : ∀ key document, (key, document) ∈ children → ∃ values value,
        ("materials", .object values) ∈ members ∧ (key, value) ∈ values ∧
          document.Replaces value := by
      intro key document hdocument
      obtain ⟨child, hchild, htext⟩ := (rel_materialDocuments hchildren).exists_of_mem hdocument
      obtain ⟨values, value, hvalues, hvalue, hread⟩ := made.material.2 key child hchild
      exact ⟨values, value, hvalues, hvalue, ih (key, child) hchild hread htext⟩
    intro key value hmem
    rw [Fabric.members] at hmem
    simp only [List.mem_append] at hmem
    rcases hmem with h | h | h | h | h | h
    · exact plain_optionalMember h
    · exact plain_tableMember hmembers huniforms h
    · exact plain_tableMember hmembers hmaterials h
    · exact plain_componentMember hmembers made h
    · exact plain_optionalMember h
    · obtain ⟨-, other, hother, -, rfl⟩ := made.unknown key value h
      exact (hmembers key other hother).tidy

/-! ## 4. Texts -/

/-- **What is read from a JSON text is lossless.**  A fabric that a text describes is written as
data that is read as this very fabric, and as the text of this data.  The text is read as the same
data and describes the same fabric again, if the finite floats in it are read as they are
written. -/
theorem json_lossless {text : String} {fabric : Fabric} (h : ofJson text = .ok fabric) :
    ∃ document, fabric.toDocument = .ok document ∧ ofDocument document = .ok fabric ∧
      fabric.toJson = .ok (Json.pretty document) ∧
      ((∀ x ∈ document.floats, x.isFinite = true → ReadsBack x) →
        Json.read (Json.pretty document) = ⟨document, true⟩ ∧
        ofJson (Json.pretty document) = .ok fabric) := by
  obtain ⟨hread, hcomplete⟩ := ofJson_eq_ok.mp h
  obtain ⟨document, hdocument, hback⟩ := readBack (written_ofDocument hread)
  have hplain : document.Plain depthLimit :=
    replaces_toDocument hread hdocument depthLimit (Json.plain_read hcomplete)
  refine ⟨document, hdocument, hback, ?_, fun hfloats => ?_⟩
  · rw [toJson, hdocument]
    rfl
  · have htext : Json.read (Json.pretty document) = ⟨document, true⟩ := Json.read_pretty hplain
      fun x hmem => hfloats x hmem (Document.isFinite_of_mem_floats hplain hmem)
    refine ⟨htext, ofJson_eq_ok.mpr ?_⟩
    rw [htext]
    exact ⟨hback, rfl⟩

namespace Example

/-- A fabric with a null, a repeated name, numbers to be widened, a sub-material and a member
without a meaning. -/
def marble : String :=
  "\x7b\"n\":[-1],\"type\":null,\"uniforms\":\x7b\"b\":1,\"a\":\x7b\"x\":0.5\x7d,\"b\":[2]\x7d," ++
    "\"materials\":\x7b\"m\":\x7b\"source\":\"s\"\x7d\x7d,\"components\":\x7b\"z\":\"a\",\"y\":\"b\"\x7d\x7d"

/-- What is written for it. -/
def polished : String :=
  "\x7b\n  \"uniforms\": \x7b\n    \"a\": \x7b\n      \"x\": 0.5\n    \x7d,\n    \"b\": [\n      2.0\n" ++
    "    ]\n  \x7d,\n  \"materials\": \x7b\n    \"m\": \x7b\n      \"source\": \"s\"\n    \x7d\n  \x7d,\n" ++
    "  \"components\": \x7b\n    \"z\": \"a\",\n    \"y\": \"b\"\n  \x7d,\n  \"n\": [\n    -1\n  ]\n\x7d"

/-- The text of some data, and whether every float in it is read as it is written. -/
def shown (document : Document) : String × Bool :=
  (Json.pretty document, decide (∀ x ∈ document.floats, ReadsBack x))

/-- **It is written in order, and read as the same fabric again.** -/
theorem marble_lossless : ∃ fabric, ofJson marble = .ok fabric ∧ fabric.toJson = .ok polished ∧
    ofJson polished = .ok fabric := by
  have hshown : (ofJson marble).toOption.map (fun fabric => fabric.toDocument.toOption.map shown) =
      some (some (polished, true)) := by
    decide +kernel
  cases hfabric : ofJson marble with
  | error fault =>
    rw [hfabric] at hshown
    cases hshown
  | ok fabric =>
    obtain ⟨document, hdocument, -, hjson, hback⟩ := json_lossless hfabric
    rw [hfabric] at hshown
    have hdata : fabric.toDocument.toOption.map shown = some (polished, true) :=
      Option.some.inj hshown
    rw [hdocument] at hdata
    obtain ⟨htext, hfloats⟩ := Prod.mk.inj (Option.some.inj hdata)
    rw [htext] at hjson hback
    exact ⟨fabric, rfl, hjson, (hback fun x hmem _ => of_decide_eq_true hfloats x hmem).2⟩

end Example

end Fabric

end ShaderFabric
