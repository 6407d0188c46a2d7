import CrossBuild.Bundle.Key
import CrossBuild.Text.Wildcard

/-!
Filters on bundle keys. A key passes if some inclusion matches it, or there is none, and no exclusion
does.
-/

namespace CrossBuild

structure KeyFilter where
  includes : List String
  excludes : List String
  deriving DecidableEq, Repr

namespace KeyFilter

/-- The exclusion of all bundles of failed jobs. -/
def failedGlob : String := "*-failed/*"

/-- The exclusion of all bundles of a stage. -/
def stageGlob (stage : String) : String := "*/" ++ stage ++ "/*"

def accepts (f : KeyFilter) (key : String) : Bool :=
  (f.includes.isEmpty || f.includes.any (Text.Wildcard.isMatch · key)) &&
    !f.excludes.any (Text.Wildcard.isMatch · key)

/-- The filter with failed jobs excluded too. -/
def excludingFailed (f : KeyFilter) : KeyFilter :=
  if f.excludes.contains failedGlob then f else { f with excludes := f.excludes ++ [failedGlob] }

end KeyFilter

/-- The bundles to download whose keys have one beginning, less some. -/
structure BundleSource where
  start : String
  excludes : List String
  deriving DecidableEq, Repr

/-- The bundles of a pipeline less those of some stages. -/
def BundleSource.ofPipeline (pipelineId : String) (excludedStages : List String) : BundleSource :=
  ⟨BundleKey.pipelineStart pipelineId, excludedStages.map KeyFilter.stageGlob⟩

end CrossBuild
