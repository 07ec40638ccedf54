import ToastBoard.Json.Record

/-!
# Settings

What a coordinator is set up with, and the form of settings as a text. A path is a sequence of
bytes; one that is no UTF-8 text cannot be written. Test mode is on exactly when a test profile
directory is set.
-/

namespace ToastBoard

/-- A path of the file system. -/
structure Path where
  /-- The bytes of the path. -/
  bytes : ByteArray

/-- Paths are compared byte by byte. -/
instance : DecidableEq Path := fun p q =>
  decidable_of_iff (p.bytes.data = q.bytes.data)
    ⟨fun h => congrArg Path.mk (ByteArray.ext h), fun h => congrArg (·.bytes.data) h⟩

/-- The path that a text spells. -/
def Path.ofString (s : String) : Path := ⟨s.toUTF8⟩

/-- The text that spells a path, if there is one. -/
def Path.text? (p : Path) : Option String := String.fromUTF8? p.bytes

theorem Path.text?_ofString (s : String) : (Path.ofString s).text? = some s := by
  simp only [Path.text?, Path.ofString, String.fromUTF8?]
  exact dif_pos s.isValidUTF8

/-- The settings of a coordinator. -/
structure Settings where
  /-- The test profile directory; its presence turns test mode on. -/
  testProfileDir : Option Path := none
  /-- The application identity to use instead of the one found out. -/
  appUserModelId : Option String := none
  /-- The display name registered for the application identity. -/
  appDisplayName : String := "Toast Coordinator"
  /-- The icon registered for the application identity. -/
  appIconPath : Option Path := none
  /-- The name of the background worker's thread. -/
  dispatcherThreadName : String := "ToastBgThread"
  deriving DecidableEq

namespace Settings

/-- Whether the checks of platform and identity are waived. -/
def testMode (s : Settings) : Bool := s.testProfileDir.isSome

/-- Settings for test harnesses, with `dir` as their profile directory. -/
def forTests (dir : Path) : Settings := { testProfileDir := some dir }

/-- The members of settings, in declaration order. -/
def keys : List String :=
  ["testProfileDir", "appUserModelId", "appDisplayName", "appIconPath", "dispatcherThreadName"]

/-- A path, or the absent value; nothing if the path is no text. -/
def pathToJson? : Option Path → Option Json
  | none => some .null
  | some p => p.text?.map Json.string

/-- Settings as a value of the interchange format; nothing if a path is no text. -/
def toJson? (s : Settings) : Option Json := do
  let testProfileDir ← pathToJson? s.testProfileDir
  let appIconPath ← pathToJson? s.appIconPath
  some (.object
    [("testProfileDir", testProfileDir), ("appUserModelId", .optional s.appUserModelId),
      ("appDisplayName", .string s.appDisplayName), ("appIconPath", appIconPath),
      ("dispatcherThreadName", .string s.dispatcherThreadName)])

/-- A path, or none for the absent value. -/
def pathOfJson? (v : Json) : Option (Option Path) :=
  v.asOptionalText?.map (Option.map Path.ofString)

/-- The settings in a value; members that are not given have their defaults. -/
def ofJson? (v : Json) : Option Settings := do
  let given ← v.given? keys
  let testProfileDir ← Json.orDefault? none pathOfJson? (given "testProfileDir")
  let appUserModelId ← Json.orDefault? none Json.asOptionalText? (given "appUserModelId")
  let appDisplayName ←
    Json.orDefault? ({} : Settings).appDisplayName Json.asText? (given "appDisplayName")
  let appIconPath ← Json.orDefault? none pathOfJson? (given "appIconPath")
  let dispatcherThreadName ←
    Json.orDefault? ({} : Settings).dispatcherThreadName Json.asText? (given "dispatcherThreadName")
  some { testProfileDir, appUserModelId, appDisplayName, appIconPath, dispatcherThreadName }

end Settings

end ToastBoard
