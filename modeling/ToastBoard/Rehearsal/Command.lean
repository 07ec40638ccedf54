import ToastBoard.Board.Coordinator

/-!
# Commands

What can be asked for in a rehearsal, which is a scripted session with the screen, one worker and
either a coordinator or handlers and a registry that are put together by hand. Listeners are
scripts as well: when one hears of a topic for the first time, it performs commands. An argument
that could not be decoded is absent; whether that matters is decided when the command is performed.
-/

namespace ToastBoard

/-- A listener as a script over commands of type `γ`. -/
structure Script (γ : Type) where
  /-- The name under which it goes in the records. -/
  label : String
  /-- What it does when it hears of a topic for the first time. -/
  reactions : List (Topic × List γ) := []

/-- A command in a rehearsal. -/
inductive Command where
  /-- Keep the worker from running its queue. -/
  | hold
  /-- Let the worker go on. -/
  | run
  /-- Let the worker go on up to the inside of its next attempt to register, and no further. -/
  | enter
  /-- Let the worker finish the attempt it stands inside, and no more. -/
  | finish
  /-- Let the worker go on, and wait for its queue. -/
  | flush
  /-- Stop the worker. -/
  | stop
  /-- Ask whether the worker accepts jobs. -/
  | isRunning
  /-- The screen reports something about a name. -/
  | emit (name : String) (outcome : Option Outcome)
  /-- The screen reports something about an attempt, counted from 1. -/
  | deliver (attempt : Option Nat) (outcome : Option Outcome)
  /-- The next registration fails. -/
  | failRegister (reason : String)
  /-- The next registration reports something before it is done. -/
  | reportEarly (outcome : Option Outcome)
  /-- The next attempt panics. -/
  | panicAttempt
  /-- The next attempt kills the worker. -/
  | crashAttempt
  /-- The next rendering fails. -/
  | failRender (reason : String)
  /-- The next release reports an error. -/
  | failRelease
  /-- Ask for the thread of the last attempt. -/
  | workerName
  /-- Ask for all toasts. -/
  | toasts
  /-- Ask for the toasts that are not released. -/
  | unreleased
  /-- Panic. -/
  | panic
  /-- Set up a coordinator, in place of the one there is. -/
  | setUp (settings : Option Settings) (host : Host)
  /-- Give the coordinator up. -/
  | giveUp
  /-- Fire the signal. -/
  | fire
  /-- Ask whether the signal has fired. -/
  | isFired
  /-- Show an alert. -/
  | showAlert (source : Option Source) (listener : Option (Script Command))
  /-- Render an alert without showing it. -/
  | renderAlert (source : Option Source)
  /-- Close the alert of a name. -/
  | close (name : String)
  /-- Set whether new alerts are dropped. -/
  | suppress (suppressed : Bool)
  /-- Ask whether new alerts are dropped. -/
  | suppression
  /-- Ask whether the user asked not to be disturbed. -/
  | doNotDisturb
  /-- Set whether the user asked not to be disturbed. -/
  | setDoNotDisturb (on : Bool)
  /-- Ask for the names of all alerts. -/
  | activeNames
  /-- Ask for the application identity. -/
  | identity
  /-- Keep the handler of a name under a label. -/
  | grab (name label : String)
  /-- Ask whether a handler is the very one under a name. -/
  | isActive (name label : String)
  /-- Take a handler out and end it if it is the very one under a name. -/
  | removeHandler (name label : String)
  /-- Let a handler go. -/
  | letGo (label : String)
  /-- Ask about a handler. -/
  | details (label : String)
  /-- End a handler. -/
  | unregister (label : String)
  /-- Make a handler and keep it under a label. -/
  | create (label : String) (source : Option Source) (listener : Option (Script Command))
      (registered : Bool)
  /-- Submit a handler to the worker. -/
  | submit (label : String)
  /-- Render what a handler has, with a picture. -/
  | render (label imageUrl : String)
  /-- Ask how a handler is shown for inspection. -/
  | describe (label : String)
  /-- Compare two handlers. -/
  | compare (label other : String)
  /-- Put a handler under a name. -/
  | insert (name label : String)
  /-- Ask for the handler under a name. -/
  | lookUp (name : String)
  /-- Take out the entry of a name. -/
  | remove (name : String)
  /-- Ask whether a handler is the very one under a name in the registry. -/
  | isCurrent (name label : String)
  /-- Take a handler out of the registry and end it if it is the very one under a name. -/
  | removeIfCurrent (name label : String)
  /-- Undo an insert. -/
  | restore (name label previous : String)
  /-- Take out all entries. -/
  | takeAll
  /-- Ask for the number of entries. -/
  | size
  /-- Ask for the names of the entries. -/
  | names
  /-- Give the registry up. -/
  | dropRegistry
  /-- Something that is no command. -/
  | unknown

namespace Command

mutual

/-- The number of commands in a command, those in the scripts in it included. -/
def weight : Command → Nat
  | .showAlert _ listener => 1 + listenerWeight listener
  | .create _ _ listener _ => 1 + listenerWeight listener
  | _ => 1

/-- The number of commands of a listener that may not be there. -/
def listenerWeight : Option (Script Command) → Nat
  | none => 0
  | some script => scriptWeight script

/-- The number of commands in a script, with one more for each of its reactions. -/
def scriptWeight : Script Command → Nat
  | { label := _, reactions } => reactionsWeight reactions

/-- The number of commands in reactions, with one more for each reaction. -/
def reactionsWeight : List (Topic × List Command) → Nat
  | [] => 0
  | reaction :: rest => reactionWeight reaction + reactionsWeight rest

/-- The number of commands in a reaction, and one for the reaction itself. -/
def reactionWeight : Topic × List Command → Nat
  | (_, commands) => 1 + commandsWeight commands

/-- The number of commands in a list. -/
def commandsWeight : List Command → Nat
  | [] => 0
  | command :: rest => command.weight + commandsWeight rest

end

end Command

end ToastBoard
