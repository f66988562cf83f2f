import Protospy.Proxy.Http

/-!
# Errors (`errors.rs`, `hyper_errors.rs`)

The error types of third-party crates are kept as far as the proxy looks into
them: whether a `hyper::Error` is in the chain, and two predicates of the client.
-/

namespace Protospy

inductive Cause where
  | connectFailed
  | connectionError
  | requestError
  | internalError
  deriving DecidableEq, Repr

def Cause.toText : Cause → String
  | .connectFailed => "ConnectFailed"
  | .connectionError => "ConnectionError"
  | .requestError => "RequestError"
  | .internalError => "InternalError"

structure HyperError where
  description : String
  deriving DecidableEq, Repr

/-- `report` keeps the `hyper::Error` of the wrapped report's chain, if any. -/
inductive BodyError where
  | read (err : HyperError)
  | report (inner : Option HyperError)
  | impossible (never : Empty)
  deriving DecidableEq, Repr

/-- The `Display` texts of the error. -/
def BodyError.toText : BodyError → String
  | .read _ => "hyper I/O error"
  | .report _ => "eyre"
  | .impossible _ => "impossible"

/-- The reports that the proxy's own functions return. -/
inductive Report where
  | invalidUriParts
  | invalidHeaderValue
  | unhandledVersion
  | body (err : BodyError)
  | invalidReadyState
  | noReceivers
  | spawnFailed
  | receiverDropped
  deriving DecidableEq, Repr

/-- `find_in_eyre_chain::<hyper::Error>`. -/
def Report.findHyperError : Report → Option HyperError
  | .body (.read err) => some err
  | .body (.report inner) => inner
  | _ => none

/-- `hyper_util::client::legacy::Error`. -/
structure ClientError where
  isConnect : Bool
  isUserError : Bool
  deriving DecidableEq, Repr

def ClientError.classify (err : ClientError) : Cause × StatusCode :=
  if err.isConnect then (.connectFailed, .badGateway)
  else if err.isUserError then (.requestError, .badRequest)
  else (.connectionError, .badGateway)

/-! ## When a result is a success -/

theorem exists_ok_iff {ε α : Type} (x : Except ε α) :
    (∃ a, x = .ok a) ↔ x.toOption.isSome = true := by
  cases x <;> simp [Except.toOption]

theorem isSome_map {ε α β : Type} (f : α → β) (x : Except ε α) :
    (x.map f).toOption.isSome = x.toOption.isSome := by
  cases x <;> rfl

end Protospy
