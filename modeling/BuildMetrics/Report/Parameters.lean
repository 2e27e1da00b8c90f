import BuildMetrics.Config.Basic
import BuildMetrics.Run.Basic

/-!
# Parameters as tags

Which parameters of a run become tags. A job that asks for its parameters names them, one name a
line, or gets all of them if it names none. For any other job the configuration decides between
all and none. A parameter without a value never becomes a tag.
-/

namespace BuildMetrics

open Run (Summary Parameter)

/-- The tag of a parameter, if it has a value. -/
def parameterTag? (p : Parameter) : Option (String × String) :=
  p.filled?.map fun value => ("p_" ++ p.name, value)

/-- The tags of all parameters of a run. -/
def allParameterTags (run : Summary) : TagEntries := run.parameters.filterMap parameterTag?

/-- The tags of the parameters that a job names, in the order of the names. -/
def selectedParameterTags (run : Summary) (names : List String) : TagEntries :=
  (names.filterMap run.parameter?).filterMap parameterTag?

/-- The tags that the parameters of a run ask for. -/
def parameterTags (run : Summary) (config : Config) (property : Option JobProperty) :
    TagEntries :=
  match property.filter JobProperty.enableParameters with
  | some property =>
    match property.selectedParameters with
    | [] => allParameterTags run
    | names => selectedParameterTags run names
  | none => if config.parametersForAll then allParameterTags run else []

end BuildMetrics
