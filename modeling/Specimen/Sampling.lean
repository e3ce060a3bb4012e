/-
From a schema text to a sample document: the declarations give a model, the
model has a root, and the document below it is generated and printed.
-/
import Specimen.Declaration.Conversion
import Specimen.Declaration.Reader
import Specimen.Document.Printer
import Specimen.Generation
import Specimen.Schema.Root
import Specimen.Settings.Layer
import Specimen.Template.Expansion

namespace Specimen

variable [Regex.Package]

/-- Why there is no sample document. -/
inductive SamplingError where
  | notASchema
  | noFileName
  | unreadable (reason : ReadError)
  | declaration (error : DeclarationError)
  | root (error : RootError)
  | settings (error : SettingsError)
  | template (error : TemplateError)
  | generation (error : GenerationError)
  | printing (error : PrintError)

/-- The model that a schema text describes. -/
def Model.ofText (text : String) : Except SamplingError Model :=
  match Declaration.read text with
  | none => .error .notASchema
  | some declarations =>
    (Declaration.toModel declarations).mapError .declaration

namespace Step

def mapError {ε ε' α : Type} (wrap : ε → ε') (step : Step ε α) : Step ε' α :=
  fun s =>
  let (result, s) := step s
  (result.mapError wrap, s)

def ofExcept {ε α : Type} (result : Except ε α) : Step ε α :=
  fun s => (result, s)

end Step

namespace Sampling

/-- The file name that templates see if the schema does not come from a file. -/
def defaultFileName : String := "schema.xsd"

/-- A sample of a model for a file name: the run begins the file, and the
document below the root is generated and printed. -/
def document (files : Files) (model : Model) (root : ElementDecl)
    (fileName : String) (settings : Settings) : Step SamplingError String := do
  (Session.begin files fileName root.name settings).mapError .template
  let document ← (Generation.document ⟨model, settings, files⟩ root).mapError
      .generation
  Step.ofExcept (document.print.mapError .printing)

def ofText (files : Files) (text : String) (settings : Settings) :
    Step SamplingError String := do
  let model ← Step.ofExcept (Model.ofText text)
  let root ← model.findRoot.mapError .root
  document files model root defaultFileName settings

/-- A sample for a schema file and the name of the output file. -/
def ofFile (files : Files) (path : String) (profile : Profile) :
    Step SamplingError (String × String) := do
  match Files.fileName? path with
  | none => throw .noFileName
  | some fileName =>
    let settings ← Step.ofExcept
        ((profile.settingsFor fileName).mapError .settings)
    let text ← Step.ofExcept ((files.read path).mapError .unreadable)
    let model ← Step.ofExcept (Model.ofText text)
    let root ← model.findRoot.mapError .root
    let xml ← document files model root fileName settings
    return ((← get).outputFilename?.getD "", xml)

end Sampling

end Specimen
