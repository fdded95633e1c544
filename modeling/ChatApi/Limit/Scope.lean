/-!
# What a request is limited by
-/

namespace ChatApi.Limit

inductive Scope
  /-- The bucket of its route and the limit of the account. -/
  | all
  /-- The bucket of its route only. -/
  | routeOnly
  /-- Nothing. -/
  | exempt
  deriving DecidableEq, Repr, Inhabited

end ChatApi.Limit
