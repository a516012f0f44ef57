/-!
The operations that a resource handler offers, and the classes that stand for them.
-/

namespace ProviderGen.Java

inductive Operation where
  | create
  | read
  | update
  | delete
  | list
  deriving DecidableEq

namespace Operation

/-- All operations, in the order in which their handlers are declared. -/
def all : List Operation := [create, read, update, delete, list]

theorem mem_all (op : Operation) : op ∈ all := by cases op <;> decide

def name : Operation → String
  | create => "Create"
  | read => "Read"
  | update => "Update"
  | delete => "Delete"
  | list => "List"

/-- The constant by which a handler is looked up. -/
def action : Operation → String
  | create => "CREATE"
  | read => "READ"
  | update => "UPDATE"
  | delete => "DELETE"
  | list => "LIST"

/-- Whether a handler hands back a page of models instead of one model. -/
def returnsPage : Operation → Bool
  | list => true
  | _ => false

def handlerClass (op : Operation) : String := op.name ++ "Handler"

def testClass (op : Operation) : String := op.name ++ "HandlerTest"

def ofName? (name : String) : Option Operation := all.find? (·.name == name)

end Operation

end ProviderGen.Java
