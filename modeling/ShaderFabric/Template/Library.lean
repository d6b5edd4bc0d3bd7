/-
# Libraries of templates

A library holds templates of its own besides the built-in ones.  A name can be registered once, and
never one of a built-in template.

Component `fabric`: `TemplateLibrary` with `register_template`, `get`, `names`.
-/
import ShaderFabric.Template.Builtin
import ShaderFabric.Text.Blank

namespace ShaderFabric

/-- Templates by name, besides the built-in ones. -/
structure Library where
  custom : Table Template

/-- Why a template is not registered. -/
inductive RegisterError
  | emptyName
  | taken (name : String)
  deriving Repr, DecidableEq

/-- What a report says of a refused template. -/
def RegisterError.message : RegisterError → String
  | emptyName => "template names must not be empty"
  | taken name => "template '" ++ name ++ "' is already registered"

namespace Library

def empty : Library := ⟨[]⟩

/-- The template of a name, one's own before the built-in. -/
def get? (library : Library) (name : String) : Option Template :=
  (library.custom.find? name).or (Template.builtins.find? name)

def contains (library : Library) (name : String) : Bool := (library.get? name).isSome

/-- The names of one's own templates in order, then those of the built-in ones. -/
def names (library : Library) : List String := library.custom.names ++ Template.builtins.names

/-- Registers a template, and gives the library afterwards; blanks at the ends of the name are
cut. -/
def register (library : Library) (template : Template) : Except RegisterError Unit × Library :=
  let name := trimBlanks template.name
  if name = "" then (.error .emptyName, library)
  else if library.contains name then (.error (.taken name), library)
  else (.ok (), ⟨library.custom.insert name { template with name }⟩)

/-- How many templates there are. -/
def size (library : Library) : Nat := library.names.length

/-- How many nodes all the templates have. -/
def nodeCount (library : Library) : Nat :=
  (library.custom ++ Template.builtins).foldr (fun entry count => entry.2.fabric.size + count) 0

end Library

end ShaderFabric
