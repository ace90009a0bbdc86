/-!
Owns the failure value of the installation backend (`error.rs`): an HTTP status
and the message shown to the caller.
-/

set_option autoImplicit false

namespace Cairn

/-- `Error`: the status and message a request is answered with. -/
structure Error where
  status : Nat
  message : String
deriving DecidableEq, Repr

namespace Error

/-- `Error::bad`. -/
def bad (message : String) : Error := ⟨400, message⟩

/-- `Error::forbidden`. -/
def forbidden (message : String) : Error := ⟨403, message⟩

/-- `Error::not_found`. -/
def notFound (message : String) : Error := ⟨404, message⟩

/-- `Error::conflict`. -/
def conflict (message : String) : Error := ⟨409, message⟩

/-- `Error::unavailable`. -/
def unavailable (message : String) : Error := ⟨503, message⟩

/-- `Error::internal`. -/
def internal : Error := ⟨500, "An internal error occurred. Check the server logs."⟩

/-- How `From<rusqlite::Error>` reports a violated table constraint. -/
def constraint : Error :=
  conflict "This operation conflicts with an existing record or active run."

end Error

end Cairn
