namespace Eligibility

/-- The fields of a record that a rule may mention. -/
inductive Field where
  | age
  | department
  | salary
  | experience
deriving DecidableEq

def Field.all : List Field :=
  [.age, .department, .salary, .experience]

def Field.name : Field → String
  | .age => "age"
  | .department => "department"
  | .salary => "salary"
  | .experience => "experience"

def Field.ofName? (name : String) : Option Field :=
  all.find? fun field => field.name = name

theorem Field.ofName?_name (field : Field) : ofName? field.name = some field := by
  cases field <;> decide

theorem Field.name_of_ofName? {name : String} {field : Field} (h : ofName? name = some field) :
    name = field.name := by
  have hf := List.find?_some h
  exact (of_decide_eq_true hf).symm

end Eligibility
