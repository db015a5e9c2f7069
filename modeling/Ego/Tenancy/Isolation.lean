import Ego.EventSource.Isolation
import Ego.DurableState.Isolation
import Ego.Saga.Isolation

/-! # Tenant isolation of the three actors -/

namespace Ego.Tenancy
open Persistence Protocol Lib
open Enginetest (Command AccountEvent accountConfig turnAt)

end Ego.Tenancy
