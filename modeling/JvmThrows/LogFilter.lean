import JvmThrows.Config
import JvmThrows.LogFilter.Directive

/-!
# Log filters

A filter is a list of directives. The configured level comes first, directives of the environment
are added. Of directives for the same thing the last counts; the most specific ones are listed
first.
-/

namespace JvmThrows

open Text

namespace LogFilter

/-- The text of a filter with the given directives. -/
def render (directives : List Directive) : String :=
  let (dynamic, plain) := directives.partition (·.isDynamic)
  let statics := (plain ++ dynamic.filter (·.isStatic)).foldl (fun ds d => d.insert ds) []
  let dynamics := dynamic.foldl (fun ds d => d.insert ds) []
  ",".intercalate ((statics ++ dynamics).map (·.display))

/-- The directives between commas, if all of them can be read. -/
def parse? (text : List Char) : Option String :=
  (((pieces ',' text).filter (!·.isEmpty)).mapM Directive.parse?).map render

/-- A level in its usual spelling; anything else stays. -/
def normalize (level : String) : List Char :=
  let trimmed := trim level.toList
  let lower := String.ofList (trimmed.map Char.toLower)
  if trimmed.isEmpty || lower == "warning" then "warn".toList
  else if lower == "none" then "off".toList
  else if (LogLevel.all.map (·.label)).contains lower then lower.toList
  else trimmed

/-- The filter of the configured level alone. -/
def ofLevel (level : String) : String := (parse? (normalize level)).getD LogLevel.warn.label

/-- The filter in effect: the configured level with the directives of the environment. What cannot
be read together is tried without the configured level, and then without the environment. -/
def effective (env : Environment) (logging : Logging) : String :=
  let directives := trim (env.logDirectives.getD "").toList
  if directives.isEmpty then ofLevel logging.level
  else
    ((parse? (normalize logging.level ++ [','] ++ directives)).or (parse? directives)).getD
      (ofLevel logging.level)

end LogFilter

end JvmThrows
