/-!
# Aliases

A plan binds rows to aliases: a model and a number, so that one model can be bound many times.
-/

namespace NestedQuery

structure Alias where
  model : String
  index : Nat
deriving DecidableEq

/-- the model and the number with an underscore between them -/
def Alias.text (a : Alias) : String := s!"{a.model}_{a.index}"

end NestedQuery
