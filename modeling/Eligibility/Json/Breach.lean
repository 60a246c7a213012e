namespace Eligibility

/-- The two ways in which a text is no JSON: it goes on in a wrong way, or it ends too early. -/
inductive Flaw where
  | malformed
  | truncated
deriving DecidableEq

/-- A point from which a text is no JSON. Its flaw depends on what is done there: a value is read, a
value that nothing asks for is passed over, or an array should end. -/
structure Breach where
  reading : Flaw
  skipping : Flaw
  ending : Flaw
deriving DecidableEq

/-- A breach that has the same flaw whatever is done. -/
def Breach.of (flaw : Flaw) : Breach :=
  ⟨flaw, flaw, flaw⟩

/-- A breach behind the name of a member. Reading does not get beyond a name that is no text. -/
def Breach.behind (name : Option String) (breach : Breach) : Breach :=
  match name with
  | some _ => breach
  | none => { breach with reading := .malformed }

end Eligibility
