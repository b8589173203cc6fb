import JvmThrows.Analysis.CallSites
import JvmThrows.Json.Writer

/-!
# Reports

What commands print, as text for readers or as JSON.
-/

namespace JvmThrows.Report

/-- Text of whole lines. -/
def ofLines (lines : List String) : String := String.join (lines.map (· ++ "\n"))

def ofJson (value : Json) : String := value.pretty ++ "\n"

/-- A call with what it refers to. -/
def discoveryLine (d : Discovery) : String :=
  let target := (d.target.identity?.map (·.display)).getD d.target.name
  s!"  {d.call.offset}: " ++ d.call.text ++ " -> " ++ target

/-- Calls by exception. -/
def discoveries (json : Bool) (found : Discoveries) : String :=
  if json then ofJson found.toJson
  else
    ofLines (found.toList.flatMap fun (exception, ds) => exception :: ds.toList.map discoveryLine)

def exceptions (json : Bool) (m : MethodId) (found : Exceptions) : String :=
  if json then
    ofJson (.object [("method", .string m.display), ("exceptions", Json.strings found.toList)])
  else ofLines found.toList

/-- The result of a scan. -/
def scanned (json : Bool) (container : Path) (keys : List String) : String :=
  if json then
    ofJson (.object [("container", .string container.text), ("classes", Json.strings keys)])
  else ofLines [s!"scanned {container.text}: {keys.length} classes"]

/-- Where the document of a class is. -/
def documentPath (json : Bool) (key : String) (path : Path) : String :=
  if json then ofJson (.object [("class", .string key), ("path", .string path.text)])
  else ofLines [path.text]

def recordLine (key : String) (r : Cache.MethodRecord) : String :=
  "  " ++ (r.method key).display ++ ": " ++ ", ".intercalate r.exceptions

def document (json : Bool) (d : Cache.Document) : String :=
  if json then d.render else ofLines (d.key :: d.methods.map (recordLine d.key))

def removed (json : Bool) (path : Path) : String :=
  if json then ofJson (.object [("ok", .bool true)])
  else ofLines ["cache: removed " ++ path.text]

end JvmThrows.Report
