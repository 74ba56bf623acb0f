import HaxeBindings.Proofs.Member.EnumerationOrder
import HaxeBindings.Proofs.Member.Keys

/-!
# The parts of a declaration

A method is declared on one line.  This file takes the line apart again: into the
modifiers, the name, the generic parameters, the parameters with their types, and the
type of the result (`MethodDeclaration`).

* `text_declared` --- the parts of the declaration of a method, written one after the
  other, are its line;
* `Mapping.Keeps` --- the methods that are declared: of those with one name and one key
  the first;
* `exists_group_of_keeps` --- the line of such a method stands in one of the groups of
  its type.
-/

namespace HaxeBindings

open Text Schema Name

/-- The parts of the declaration of a method. -/
structure MethodDeclaration where
  modifiers : Text
  name : Text
  generics : List Text
  /-- The parameters, each with its name and its type. -/
  parameters : List (Text × Text)
  result : Text
  deriving DecidableEq

/-- The parts one after the other. -/
def MethodDeclaration.text (d : MethodDeclaration) : Text :=
  d.modifiers ++ "function ".toList ++ d.name ++ genericList d.generics ++ '(' ::
    join ", ".toList (d.parameters.map fun p => p.1 ++ ':' :: p.2) ++ "):".toList ++ d.result ++
    [';']

namespace Mapping

variable (m : Mapping)

/-- The declaration of a method after its upgrade, when its types are mapped. -/
def declared (overloaded : Bool) (method : Method) : MethodDeclaration :=
  let upgraded := method.upgraded m
  { modifiers := method.modifiers ++ overloadWord overloaded
    name := memberIdentifier method.name
    generics := upgraded.mentionedParameters
    parameters := (parameterNames upgraded.parameters).zip
      (upgraded.parameters.map fun p => m.target p.type)
    result := m.target upgraded.returnType }

/-- A parameter list is written from the names and the types of its parameters. -/
theorem formatParameters_answer (ps : List Parameter) : Id.run (formatParameters m.answer ps) =
    join ", ".toList (((parameterNames ps).zip (ps.map fun p => m.target p.type)).map
      fun p => p.1 ++ ':' :: p.2) := by
  have htypes : parameterTypes m.answer ps = ps.map fun p => m.target p.type := mapM_id _ ps
  have hformat : Id.run (formatParameters m.answer ps) = join ", ".toList (List.zipWith
      (fun name type => name ++ ':' :: type) (parameterNames ps) (parameterTypes m.answer ps)) :=
    rfl
  rw [hformat, htypes, List.map_zip_eq_zipWith]
  rfl

/-- **A declaration is written from its parts.** -/
theorem text_declared (overloaded : Bool) (method : Method) :
    (m.declared overloaded method).text = m.declaration overloaded method := by
  rw [declaration_eq]
  unfold MethodDeclaration.text declared bareDeclaration target
  simp only [formatParameters_answer, target, List.append_assoc, List.cons_append]

/-- The positions of a declaration are those of the method. -/
theorem length_parameters_declared (overloaded : Bool) (method : Method) :
    (m.declared overloaded method).parameters.length = method.parameters.length := by
  simp [declared, Method.upgraded, parameterNames]

/-! ## Declared methods -/

/-- The method has a name, and of the methods with that name and its key it is the first. -/
def Keeps (methods : List Method) (method : Method) : Prop :=
  strip method.name ≠ [] ∧ methods.find? (fun other =>
    strip other.name = strip method.name ∧ m.signature other = m.signature method) = some method

instance (methods : List Method) (method : Method) : Decidable (m.Keeps methods method) :=
  inferInstanceAs (Decidable (_ ∧ _))

variable {m}

theorem Keeps.mem {methods : List Method} {method : Method} (h : m.Keeps methods method) :
    method ∈ methods :=
  List.mem_of_find?_eq_some h.2

/-- **A method that is kept is declared in the group of its name.** -/
theorem exists_group_of_keeps {methods : List Method} {method : Method}
    (h : m.Keeps methods method) :
    ∃ g ∈ m.groupsOf methods, m.declaration g.overloaded method ∈ g.lines := by
  have hname : strip method.name ∈ methodNames methods :=
    mem_methodNames.mpr ⟨h.1, method, h.mem, rfl⟩
  have hselected : method ∈ m.selectedMethods (methodsNamed (strip method.name) methods) := by
    rw [selectedMethods, Sorted.mem_select, methodsNamed, List.find?_filter]
    simp only [decide_eq_true_eq]
    exact h.2
  exact ⟨_, List.mem_map_of_mem hname, List.mem_map_of_mem hselected⟩

end Mapping
end HaxeBindings
