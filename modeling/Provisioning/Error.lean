import Provisioning.Filter.Error
import Provisioning.Text.Quoted

/-! # What can go wrong

Three families of failure: a storage backend fails, a callback of a consumer or a listener
fails, and an administrative call is refused.  Each is a cause with its data; the wording is
in one function per family.
-/
namespace Provisioning

/-- A failure of a storage backend. -/
inductive StorageError where
  | io (id message : String)
  | notFound (id : String)
  | corrupt (id reason : String)
  | noBackend
  deriving DecidableEq, Repr

/-- What a storage failure reports. -/
def StorageError.message : StorageError → String
  | io id message => "storage I/O failed for '" ++ id ++ "': " ++ message
  | notFound id => "no stored dictionary for '" ++ id ++ "'"
  | corrupt id reason => "corrupt dictionary '" ++ id ++ "': " ++ reason
  | noBackend => "no persistence backend available"

/-- A failure of a callback: the receiver refused the properties, perhaps naming one, or
something else went wrong. -/
inductive CallbackError where
  | rejected (property : Option String) (reason : String)
  | unexpected (message : String)
  deriving DecidableEq, Repr

/-- What a failed callback reports. -/
def CallbackError.message : CallbackError → String
  | rejected none reason => "configuration rejected: " ++ reason
  | rejected (some property) reason =>
    "configuration rejected (property " ++ property ++ "): " ++ reason
  | unexpected message => "unexpected callback failure: " ++ message

/-- Why an administrative call was refused. -/
inductive AdminError where
  | storage (cause : StorageError)
  | filter (cause : Filter.ReadError Nat)
  | notFound (pid : String)
  | deleted (pid : String)
  | invalidPid (pid : String)
  | settings (reason : String)
  | shutDown
  | worker (message : String)
  deriving DecidableEq, Repr

namespace AdminError

/-- What a refused call reports. -/
def message : AdminError → String
  | storage cause => "storage failure: " ++ cause.message
  | filter cause => "invalid filter: " ++ cause.message
  | notFound pid => "no configuration for '" ++ pid ++ "'"
  | deleted pid => "configuration '" ++ pid ++ "' has been deleted"
  | invalidPid pid => "invalid pid: " ++ Text.quoted pid
  | settings reason => "configuration error: " ++ reason
  | shutDown => "configuration manager is shut down"
  | worker text => "worker failure: " ++ text

/-- Whether a storage backend is the cause. -/
def isStorage : AdminError → Bool
  | storage _ => true
  | _ => false

end AdminError
end Provisioning
