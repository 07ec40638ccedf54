import ToastBoard.Settings.DotEnv

/-!
# Loading settings

Settings come from a file, then from two variables of the environment. A file that is missing,
cannot be read, is no UTF-8 text or does not decode as a whole counts as one that says nothing.
The profile directory is taken from its variable whenever that is set, even to nothing or to bytes
that are no text; the application identity only if its variable is set to a text that is not empty.
-/

namespace ToastBoard

/-- What is found at the path of a settings file. -/
inductive SettingsFile where
  /-- Nothing. -/
  | missing
  /-- Something that cannot be read as a file. -/
  | unreadable
  /-- A file with these bytes. -/
  | contents (bytes : ByteArray)

namespace Settings

/-- The variable that sets the test profile directory. -/
def testProfileVariable : String := "TOAST_TEST_PROFILE_DIR"

/-- The variable that sets the application identity. -/
def appUserModelIdVariable : String := "TOAST_APP_USER_MODEL_ID"

/-- The settings in a text. -/
def ofText? (text : String) : Option Settings := (Json.read text).bind ofJson?

/-- The settings in a file, or the defaults. -/
def ofFile : SettingsFile → Settings
  | .contents bytes => ((String.fromUTF8? bytes).bind ofText?).getD {}
  | _ => {}

/-- Lets the two variables of the environment override the settings. -/
def override (s : Settings) (e : Environment) : Settings :=
  { s with
    testProfileDir :=
      match e.bytes? testProfileVariable with
      | some bytes => some ⟨bytes⟩
      | none => s.testProfileDir
    appUserModelId :=
      match e.text? appUserModelIdVariable with
      | some text => if text.isEmpty then s.appUserModelId else some text
      | none => s.appUserModelId }

/-- The settings of a process: those of a file, overridden by the environment, which the file of
variables `dotEnv` completes first. Nothing comes back if that panics. -/
def load (file : SettingsFile) (dotEnv : DotEnvFile) (e : Environment) : Option Settings :=
  (e.withFile? dotEnv).map (ofFile file).override

/-- The settings of a process without a file. Nothing comes back if that panics. -/
def ofEnvironment (dotEnv : DotEnvFile) (e : Environment) : Option Settings :=
  (e.withFile? dotEnv).map ({} : Settings).override

end Settings

end ToastBoard
