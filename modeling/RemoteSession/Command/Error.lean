import RemoteSession.Service.Error
import RemoteSession.Storage.CursorStore

/-!
# Failed commands

Why a command failed, what it then says and with which code it ends: 2 for a
mistake in the configuration, 3 for a rejected credential, 1 for all else.
-/

namespace RemoteSession

/-- Why a command failed. -/
inductive CommandError where
  | config (error : ConfigError)
  | service (error : ServiceError)
  | cursors (error : CursorError)
  | io (error : IoError)
  | logging (detail : String)
  | sessionNotFound (id : String)
  | unhealthy
  | runtime (detail : String)
deriving DecidableEq, Repr

namespace CommandError

/-- The message of an error. -/
def message : CommandError → String
  | .config e => e.message
  | .service e => e.message
  | .cursors e => "cursor store: " ++ e.message
  | .io e => "io error: " ++ e.message
  | .logging detail => "logging initialization failed: " ++ detail
  | .sessionNotFound id => "no session with id '" ++ id ++ "'"
  | .unhealthy => "server is not healthy"
  | .runtime detail => "terminal runtime error: " ++ detail

/-- The code with which the program ends. -/
def exitCode : CommandError → Nat
  | .config _ => 2
  | .service e => if e.isUnauthorized then 3 else 1
  | _ => 1

end CommandError

end RemoteSession
