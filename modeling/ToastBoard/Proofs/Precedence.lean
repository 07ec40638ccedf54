import ToastBoard.Proofs.TextFiles

/-!
# Precedence of settings

Settings are those of a file, if the whole file is the text of settings, and the defaults otherwise.
The environment, once a file of variables has completed it, overrides the profile directory whenever
its variable is set, and the application identity if its variable is set to a text that is not
empty. The other settings are never overridden.
-/

namespace ToastBoard

/-- A file is the text of settings. -/
def SettingsFile.Holds (file : SettingsFile) (s : Settings) : Prop :=
  ∃ text, file = .contents text.toUTF8 ∧ Settings.encoding.read? text = some s

/-- A variable is set to a text exactly if it is set to the bytes of that text. -/
theorem Environment.text?_eq_some_iff {e : Environment} {name text : String} :
    e.text? name = some text ↔ e.bytes? name = some text.toUTF8 := by
  rw [text?, Option.bind_eq_some_iff]
  constructor
  · rintro ⟨bytes, hbytes, htext⟩
    rw [hbytes, fromUTF8?_eq_some_iff.mp htext]
  · exact fun h => ⟨_, h, fromUTF8?_eq_some_iff.mpr rfl⟩

namespace Settings

theorem ofFile_of_holds {file : SettingsFile} {s : Settings} (h : file.Holds s) :
    ofFile file = s := by
  obtain ⟨text, rfl, hread⟩ := h
  have hof : ofText? text = some s := hread
  rw [ofFile, fromUTF8?_eq_some_iff.mpr rfl, Option.bind_some, hof, Option.getD_some]

/-- A file that is not the text of settings counts as one that says nothing. -/
theorem ofFile_of_unusable {file : SettingsFile} (h : ∀ s, ¬file.Holds s) : ofFile file = {} := by
  cases file with
  | missing | unreadable => rfl
  | contents bytes =>
    cases hread : (String.fromUTF8? bytes).bind ofText? with
    | none => rw [ofFile, hread, Option.getD_none]
    | some s =>
      obtain ⟨text, htext, hs⟩ := Option.bind_eq_some_iff.mp hread
      exact absurd ⟨text, congrArg _ (fromUTF8?_eq_some_iff.mp htext), hs⟩ (h s)

/-- Settings that come of others by what is set in an environment. -/
structure Overridden (base : Settings) (e : Environment) (s : Settings) : Prop where
  /-- The profile directory that is set, to whatever bytes. -/
  profileDir : ∀ bytes, e.bytes? testProfileVariable = some bytes →
    s.testProfileDir = some ⟨bytes⟩
  /-- No profile directory is set. -/
  noProfileDir : e.bytes? testProfileVariable = none → s.testProfileDir = base.testProfileDir
  /-- The identity that is set to a text that is not empty. -/
  identity : ∀ text, text ≠ "" → e.bytes? appUserModelIdVariable = some text.toUTF8 →
    s.appUserModelId = some text
  /-- No identity is set, or to nothing, or to something that is no text. -/
  noIdentity : (∀ text, text ≠ "" → e.bytes? appUserModelIdVariable ≠ some text.toUTF8) →
    s.appUserModelId = base.appUserModelId
  /-- Everything else is as it was. -/
  others : s.appDisplayName = base.appDisplayName ∧ s.appIconPath = base.appIconPath ∧
    s.dispatcherThreadName = base.dispatcherThreadName

variable (base : Settings) (e : Environment)

/-- The identity after an override, by what the variable is set to. -/
theorem appUserModelId_override_of_text {text : String} (hfull : text ≠ "")
    (h : e.bytes? appUserModelIdVariable = some text.toUTF8) :
    (base.override e).appUserModelId = some text := by
  have hfull' : ¬text.isEmpty = true := by rwa [String.isEmpty_iff]
  simp only [override, Environment.text?_eq_some_iff.mpr h, if_neg hfull']

theorem appUserModelId_override_of_unset
    (h : ∀ text, text ≠ "" → e.bytes? appUserModelIdVariable ≠ some text.toUTF8) :
    (base.override e).appUserModelId = base.appUserModelId := by
  cases htext : e.text? appUserModelIdVariable with
  | none => simp only [override, htext]
  | some text =>
    have hempty : text.isEmpty = true := by
      rw [String.isEmpty_iff]
      by_contra hfull
      exact h text hfull (Environment.text?_eq_some_iff.mp htext)
    simp only [override, htext, if_pos hempty]

theorem overridden_override : Overridden base e (base.override e) where
  profileDir bytes h := by simp only [override, h]
  noProfileDir h := by simp only [override, h]
  identity _ := appUserModelId_override_of_text base e
  noIdentity := appUserModelId_override_of_unset base e
  others := ⟨rfl, rfl, rfl⟩

/-- Settings stay as they are if the two that can be overridden do. -/
theorem override_eq_self (hdir : (base.override e).testProfileDir = base.testProfileDir)
    (hid : (base.override e).appUserModelId = base.appUserModelId) : base.override e = base := by
  have hothers : base.override e =
      { base with
        testProfileDir := (base.override e).testProfileDir
        appUserModelId := (base.override e).appUserModelId } := rfl
  rw [hothers, hdir, hid]

/-- An override is the same when it is done again. -/
theorem override_override : (base.override e).override e = base.override e := by
  apply override_eq_self
  · unfold override
    cases e.bytes? testProfileVariable <;> rfl
  · unfold override
    cases e.text? appUserModelIdVariable with
    | none => rfl
    | some text => cases h : text.isEmpty <;> simp [h]

/-- Where nothing is set, nothing is overridden. -/
theorem override_of_unset (hdir : e.bytes? testProfileVariable = none)
    (hid : e.bytes? appUserModelIdVariable = none) : base.override e = base := by
  apply override_eq_self
  · exact (overridden_override base e).noProfileDir hdir
  · refine appUserModelId_override_of_unset base e fun text _ => ?_
    rw [hid]
    exact (Option.some_ne_none _).symm

variable {dotEnv : DotEnvFile} {e E : Environment}

theorem load_eq (hE : e.withFile? dotEnv = some E) (file : SettingsFile) :
    load file dotEnv e = some ((ofFile file).override E) := by
  rw [load, hE, Option.map_some]

/-- With an environment that a file of variables has completed, settings are those of a file or the
defaults, overridden by what is set. So a file that is not the text of settings counts for nothing,
the text of settings is loaded as these settings where neither variable is set, the test mode is on
if there is a profile directory, and overriding again changes nothing. -/
theorem settings_precedence (hE : e.withFile? dotEnv = some E) (file : SettingsFile) :
    (∃ s, load file dotEnv e = some s ∧
      (∀ base, file.Holds base → Overridden base E s) ∧
      ((∀ base, ¬file.Holds base) → Overridden {} E s) ∧
      (s.testMode = true ↔ ∃ dir, s.testProfileDir = some dir) ∧ s.override E = s) ∧
    ((∀ base, ¬file.Holds base) → load file dotEnv e = ofEnvironment dotEnv e) ∧
    ∀ s text, encoding.write? s = some text → E.bytes? testProfileVariable = none →
      E.bytes? appUserModelIdVariable = none →
        load (.contents text.toUTF8) dotEnv e = some s := by
  refine ⟨⟨(ofFile file).override E, load_eq hE file, fun base hbase => ?_, fun hnone => ?_, ?_,
    override_override _ E⟩, fun hnone => ?_, fun s text htext hdir hid => ?_⟩
  · rw [ofFile_of_holds hbase]
    exact overridden_override base E
  · rw [ofFile_of_unusable hnone]
    exact overridden_override {} E
  · rw [testMode, Option.isSome_iff_exists]
  · rw [load, ofEnvironment, ofFile_of_unusable hnone]
  · have hholds : (SettingsFile.contents text.toUTF8).Holds s :=
      ⟨text, rfl, encoding_faithful.read_write s text htext⟩
    rw [load_eq hE, ofFile_of_holds hholds, override_of_unset s E hdir hid]

/-- Settings with an identity and a display name of their own. -/
def filed : Settings := { appUserModelId := some "filed", appDisplayName := "x" }

/-- An environment with a profile directory that is no text. -/
def outside : Environment := ⟨[(testProfileVariable, ⟨#[0xff]⟩)]⟩

/-- The profile directory comes from the environment, the identity from the file of variables, and
the display name from the file of settings. -/
theorem settings_precedence_layered : ∃ text s, encoding.write? filed = some text ∧
    load (.contents text.toUTF8) (.ofText "TOAST_APP_USER_MODEL_ID=id\n") outside = some s ∧
    s.testProfileDir = some ⟨⟨#[0xff]⟩⟩ ∧ s.appUserModelId = some "id" ∧
    s.appDisplayName = "x" := by
  obtain ⟨text, htext⟩ := (encoding_faithful.writable filed).mp
    (by rintro p (hp | hp) <;> cases hp)
  have hholds : (SettingsFile.contents text.toUTF8).Holds filed :=
    ⟨text, rfl, encoding_faithful.read_write filed text htext⟩
  have hentries : (outside.withFile? (.ofText "TOAST_APP_USER_MODEL_ID=id\n")).map (·.entries) =
      some ((appUserModelIdVariable, "id".toUTF8) :: outside.entries) := by
    rw [Environment.withFile?_ofText]
    decide +kernel
  obtain ⟨E, hE, hinside⟩ := Option.map_eq_some_iff.mp hentries
  have hset : E.bytes? testProfileVariable = some ⟨#[0xff]⟩ ∧
      E.bytes? appUserModelIdVariable = some "id".toUTF8 := by
    rw [Environment.bytes?, Environment.bytes?, hinside]
    decide +kernel
  obtain ⟨⟨s, hload, hbase, -⟩, -⟩ := settings_precedence hE (.contents text.toUTF8)
  have hs := hbase filed hholds
  exact ⟨text, s, htext, hload, hs.profileDir _ hset.1, hs.identity "id" (by decide) hset.2,
    hs.others.1⟩

end Settings

end ToastBoard
