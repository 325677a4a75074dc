import QuizVariants.Problem.Definition

/-! Registries of problems.
A registry finds definitions by name, in the order in which the names were first used.
-/

namespace QuizVariants

/-- Definitions by name. -/
abbrev Registry := Table Definition

namespace Registry

/-- The name under which a definition is registered: its own identifier where no other name is
given. -/
def key (definition : Definition) (name : String) : String :=
  if name == "" then definition.problemId else name

/-- Registers a definition; gives the one that had the name before. -/
def add (registry : Registry) (definition : Definition) (name : String)
    : Option Definition × Registry :=
  let key := key definition name
  (registry.get? key, registry.insert key definition)

end Registry

end QuizVariants
