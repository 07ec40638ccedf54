import ToastBoard.Board.Coordinator
import ToastBoard.Board.Work
import ToastBoard.Settings.Load

/-!
# The command line

`toastctl [--render] '<alert json>'` shows one alert until it is interrupted and writes a line for
each notice about it, or writes the payload of the alert and ends. The platform it runs on has no
toasts and no identity, so it needs the test mode. What can go wrong is looked at in a fixed
order: the arguments, the text of the alert, the settings, the platform, the alert itself.
-/

namespace ToastBoard

/-- What the program was asked to do. -/
structure Invocation where
  /-- Whether to write the payload only. -/
  renderOnly : Bool
  /-- The alert. -/
  alert : Alert
  deriving DecidableEq, Repr

/-- Why the program gave up. -/
inductive Complaint where
  /-- The text of the alert is missing. -/
  | usage
  /-- The text of the alert does not decode. -/
  | invalidAlert
  /-- Something failed. -/
  | failure (e : Failure)
  deriving DecidableEq, Repr

/-- The wording of a complaint. -/
def Complaint.message : Complaint → String
  | .usage => "usage: toastctl [--render] '<alert json>'"
  | .invalidAlert => "invalid alert JSON"
  | .failure e => e.message

/-- What the program writes. -/
inductive Transcript where
  /-- It writes something and ends. -/
  | done (output : String)
  /-- It writes something, waits to be interrupted, writes something more and ends. -/
  | waits (before after : String)
  /-- It gives up. -/
  | refused (complaint : Complaint)
  /-- It panics. -/
  | panicked
  deriving DecidableEq, Repr

namespace Transcript

/-- Everything that is written to the standard output. -/
def output : Transcript → String
  | .done output => output
  | .waits before after => before ++ after
  | _ => ""

/-- The first line that is written to the error output. What is told about a panic starts with an
empty line. -/
def complaintLine : Transcript → Option String
  | .refused complaint => some ("Error: " ++ complaint.message)
  | .panicked => some ""
  | _ => none

/-- The exit code. -/
def exitCode : Transcript → Nat
  | .refused _ => 1
  | .panicked => 101
  | _ => 0

end Transcript

namespace Invocation

/-- Whether only the payload is wanted, and the text of the alert: the first argument, or the
second one if the first is the flag. Further arguments are ignored. -/
def request : List String → Bool × Option String
  | "--render" :: rest => (true, rest.head?)
  | args => (false, args.head?)

/-- What the arguments ask for. -/
def ofArguments (args : List String) : Except Complaint Invocation :=
  match request args with
  | (_, none) => .error .usage
  | (renderOnly, some text) =>
    match (Json.read text).bind Alert.ofJson? with
    | none => .error .invalidAlert
    | some alert => .ok { renderOnly, alert }

end Invocation

namespace Board

/-- Does something while listeners only listen; what they were told is on the board. -/
def quietly {α : Type} (act : Act α) (b : Board) : Option α × Board :=
  (act b).run (fun b => b) (fun b _ => b) (fun _ b => (true, b)) b

/-- The worker takes the next job and finishes it. -/
def workOnce (b : Board) (s : StationId) : Board :=
  (quietly (finish s) (b.advance s).2).2

/-- The lines that are written for notices. -/
def noticeLines (told : List Telling) : String :=
  String.join (told.map fun t => t.notice.toJson.write ++ "\n")

/-- Shows an alert, lets the worker register it, and is interrupted after that. -/
def showUntilInterrupted (b : Board) (c : CoordinatorId) (alert : Alert) : Transcript :=
  match quietly (showAlert c alert.asSource (some 0)) b with
  | (none, _) => .panicked
  | (some ⟨.error e, _⟩, _) => .refused (.failure e)
  | (some ⟨.ok (), _⟩, b) =>
    let shown := b.workOnce (b.coordinator c).station
    let ended := (quietly (fire .inTurn) shown).2
    .waits (noticeLines shown.told) (noticeLines (ended.told.drop shown.told.length))

/-- Writes the payload of an alert. -/
def writePayload (b : Board) (alert : Alert) : Transcript :=
  match (b.renderOnly alert.asSource).1 with
  | .error e => .refused (.failure e)
  | .ok payload => .done (payload ++ "\n")

/-- A coordinator on the platform at hand. Nothing comes back if that panics. -/
def setUpHere (settings : Settings) : Option (Except Failure (CoordinatorId × Board)) :=
  match ({} : Board).setUp settings .bare with
  | (none, _) => none
  | (some ⟨.error e, _⟩, _) => some (.error e)
  | (some ⟨.ok c, _⟩, b) => some (.ok (c, b))

end Board

namespace Invocation

/-- What the program does once it knows what it was asked for. -/
def carryOut (i : Invocation) (settings : Settings) : Transcript :=
  match Board.setUpHere settings with
  | none => .panicked
  | some (.error e) => .refused (.failure e)
  | some (.ok (c, b)) =>
    if i.renderOnly then b.writePayload i.alert else b.showUntilInterrupted c i.alert

/-- What the program does with its arguments, a file of variables and an environment. -/
def run (args : List String) (dotEnv : DotEnvFile) (e : Environment) : Transcript :=
  match ofArguments args with
  | .error complaint => .refused complaint
  | .ok i =>
    match Settings.ofEnvironment dotEnv e with
    | none => .panicked
    | some settings => i.carryOut settings

end Invocation

end ToastBoard
