import AppSurface.CallEdge
import AppSurface.Json.Reader
import AppSurface.Json.Value

namespace AppSurface

structure Config where
  inputPath : String
  /-- How many hops callers are traced. -/
  maxDepth : Nat
  /-- How many names are suggested when a method is not found. -/
  suggestionLimit : Nat
  /-- Whether the work may be spread over processors; results do not depend on it. -/
  parallel : Bool
  /-- Names of files and directories that are not loaded. -/
  excludePatterns : List String
  /-- Files with more bytes are not loaded from a directory. -/
  maxFileSize : Nat
  confirmers : List Confirmer
  verbose : Bool
  quiet : Bool
deriving DecidableEq

namespace Config

def default : Config where
  inputPath := ""
  maxDepth := 5
  suggestionLimit := 10
  parallel := true
  excludePatterns := []
  maxFileSize := 2000000
  confirmers := Confirmer.builtIn
  verbose := false
  quiet := false

end Config

open Json in
def Confirmer.toJson (c : Confirmer) : Value :=
  .obj [("method", .str c.method), ("pattern", .str c.pattern)]

open Json in
def Confirmer.reader : Reader Confirmer :=
  record ⟨"", ""⟩ ["method", "pattern"]
    [.of "method" string fun x c => { c with method := x },
      .of "pattern" string fun x c => { c with pattern := x }]

namespace Config

open Json

def toJson (c : Config) : Value :=
  .obj [("input_path", .str c.inputPath), ("max_depth", .num c.maxDepth),
    ("suggestion_limit", .num c.suggestionLimit), ("parallel", .bool c.parallel),
    ("exclude_patterns", .strs c.excludePatterns), ("max_file_size", .num c.maxFileSize),
    ("confirmers", .arr (c.confirmers.map (·.toJson))), ("verbose", .bool c.verbose),
    ("quiet", .bool c.quiet)]

/-- What is read for the settings that are not given. Each has a value of its own here; some of
them share theirs with `default`. -/
def unset : Config where
  inputPath := ""
  maxDepth := default.maxDepth
  suggestionLimit := default.suggestionLimit
  parallel := default.parallel
  excludePatterns := []
  maxFileSize := default.maxFileSize
  confirmers := Confirmer.builtIn
  verbose := false
  quiet := false

def fields : List (Json.Field Config) :=
  [.of "input_path" string fun x c => { c with inputPath := x },
    .of "max_depth" natural fun x c => { c with maxDepth := x },
    .of "suggestion_limit" natural fun x c => { c with suggestionLimit := x },
    .of "parallel" bool fun x c => { c with parallel := x },
    .of "exclude_patterns" (list string) fun x c => { c with excludePatterns := x },
    .of "max_file_size" natural fun x c => { c with maxFileSize := x },
    .of "confirmers" (list Confirmer.reader) fun x c => { c with confirmers := x },
    .of "verbose" bool fun x c => { c with verbose := x },
    .of "quiet" bool fun x c => { c with quiet := x }]

def reader : Reader Config := record unset [] fields

def ofJson (text : String) : Except Defect Config := decode reader text

end Config

end AppSurface
