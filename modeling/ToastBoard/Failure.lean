import ToastBoard.Json.Position
import ToastBoard.Json.Value

/-!
# Failures

The ways in which an operation can fail, by cause, and the one wording of each. A failure that
came with a chain of contexts is told by its outermost text.
-/

namespace ToastBoard

/-- An error as it travels outwards: what went wrong, then each context put around it. -/
structure ErrorChain where
  /-- What went wrong first. -/
  cause : String
  /-- The contexts, from the innermost to the outermost. -/
  contexts : List String := []
  deriving DecidableEq, Repr

/-- The outermost text of a chain. -/
def ErrorChain.text (e : ErrorChain) : String := e.contexts.getLast?.getD e.cause

/-- Why an operation failed. -/
inductive Failure where
  /-- The platform has no toasts and the settings do not waive that. -/
  | unsupportedPlatform
  /-- The application has no identity to show toasts under. -/
  | identityUnavailable (reason : String)
  /-- The background worker could not be started. -/
  | workerCreation (reason : String)
  /-- An argument is not acceptable. -/
  | invalidArgument (reason : String)
  /-- A field of an alert could not be read. -/
  | fieldRead (field reason : String)
  /-- The background worker did not take a job. -/
  | dispatch (reason : String)
  /-- The operation does not exist yet. -/
  | notImplemented (what : String)
  /-- The platform refused. -/
  | platform (reason : String)
  /-- Reading or writing failed. -/
  | io (reason : String)
  /-- A text could not be decoded or encoded. -/
  | json (reason : String)
  /-- Any other failure. -/
  | other (reason : String)
  deriving DecidableEq, Repr

namespace Failure

/-- The wording of a failure. -/
def message : Failure → String
  | .unsupportedPlatform => "Toast notifications are not supported on this platform"
  | .identityUnavailable reason => "Application identity unavailable: " ++ reason
  | .workerCreation reason => "Failed to create background dispatcher: " ++ reason
  | .invalidArgument reason => "Invalid argument: " ++ reason
  | .fieldRead field reason => "Failed to read alert field '" ++ field ++ "': " ++ reason
  | .dispatch reason => "Failed to dispatch alert initialization: " ++ reason
  | .notImplemented what => "Not implemented: " ++ what
  | .platform reason => "Platform error: " ++ reason
  | .io reason => "IO error: " ++ reason
  | .json reason => "JSON error: " ++ reason
  | .other reason => reason

/-- A failure is encoded as its wording. -/
def toJson (e : Failure) : Json := .string e.message

/-- The failure of a getter, told by the outermost text of its error. -/
def ofField (field : String) (e : ErrorChain) : Failure := .fieldRead field e.text

/-- The failure of a decoder that gives a reason. -/
def ofDecoder (reason : String) : Failure := .json (Position.retell reason)

/-- A failure about which only its error is known. -/
def ofChain (e : ErrorChain) : Failure := .other e.text

end Failure

end ToastBoard
