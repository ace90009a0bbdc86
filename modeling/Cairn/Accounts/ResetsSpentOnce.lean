import Cairn.Accounts.ResetHistory

/-!
Owns that a banked reset is spent at most once per exhaustion: every refresh of an account
keeps the law of its history, wherever its calls fail or the process stops.

Does not own what a refresh makes of the usage it reads.
-/

set_option autoImplicit false

namespace Cairn.Accounts

open Cairn.Library.Faults
open Cairn.Library.Faults.Effect

variable {bank : Bank} {answers : Answers} {account : Account} {attempt : ResetAttempt}
  {current : Reading}

/-! ### The calls -/

end Cairn.Accounts
