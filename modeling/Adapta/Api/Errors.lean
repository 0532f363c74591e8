/-!
# Errors at the boundary

The classes of `adapta/domain/errors.py` that the serving routes raise, with the message the
client is sent.  What is logged beside it is left out.
-/

namespace Adapta.Api

inductive DomainError where
  | invalidRequest (message : String)
  | unauthorized (message : String)
  | forbidden (message : String)
  | notFound (message : String)
  | conflict (message : String)
  | modelNotFound (message : String)
  | timeout (message : String)
  | inferenceFailed (message : String)
  | rateLimited (message : String)
  /-- An exception that is no `DomainError`, or a class of its own. -/
  | other
deriving DecidableEq, Repr

end Adapta.Api
