import AppSurface.CallEdge
import AppSurface.Json.Reader
import AppSurface.Xml.Element

namespace AppSurface

/-- Why a file or directory cannot be read or written. -/
inductive FileFault where
  | notFound
  | isDirectory
  | notDirectory
  | isFile
  | notText
  /-- Any other reason, in the words of the system. -/
  | other (message : String)
deriving DecidableEq

def FileFault.message : FileFault → String
  | .notFound => "No such file or directory (os error 2)"
  | .isDirectory => "Is a directory (os error 21)"
  | .notDirectory => "Not a directory (os error 20)"
  | .isFile => "File exists (os error 17)"
  | .notText => "stream did not contain valid UTF-8"
  | .other message => message

inductive Fault where
  | noManifest
  | classNotFound (name : String)
  | methodNotFound (className methodName : String)
  | resourceNotFound (name : String)
  /-- A manifest that cannot be read. -/
  | manifest (fault : Xml.DocumentFault)
  /-- A manifest that could not be read when the session was opened, with the message of then. -/
  | refusedManifest (message : String)
  /-- A confirming rule that cannot be read as patterns. -/
  | badPattern (rule : Confirmer)
  | file (path : String) (fault : FileFault)
  | json (path : String) (defect : Json.Defect)
  | missingInput (path : String)
  | unsupportedInput (path : String)
  | unknownComponentType (name : String)

namespace Fault

def message : Fault → String
  | .noManifest => "AndroidManifest.xml not loaded"
  | .classNotFound name => "Class not found: " ++ name
  | .methodNotFound className methodName =>
    "Method not found: " ++ methodName ++ " in class " ++ className
  | .resourceNotFound name => "Resource file not found: " ++ name
  | .manifest fault => "Error parsing manifest: " ++ fault.message
  | .refusedManifest message => "Error parsing manifest: " ++ message
  | .badPattern rule => "invalid pattern for '" ++ rule.method ++ "'"
  | .file path fault => "failed to read '" ++ path ++ "': " ++ fault.message
  | .json path _ => "failed to parse '" ++ path ++ "'"
  | .missingInput path => "invalid input: input path does not exist: " ++ path
  | .unsupportedInput path =>
    "invalid input: expected a directory, a .json dump or a .java file: " ++ path
  | .unknownComponentType name => "unknown component type: " ++ name

end Fault

end AppSurface
