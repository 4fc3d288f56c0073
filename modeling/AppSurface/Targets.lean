import AppSurface.Corpus
import AppSurface.Method
import AppSurface.Text.Search

namespace AppSurface

/-- Every listed method, in corpus order, overloads repeated. -/
def Corpus.methods (c : Corpus) : List MethodRef :=
  c.classes.flatMap fun u => u.methods.map fun m => ⟨u.fullName, m⟩

/-- A method is asked for by its name, by its signature behind some dot, or by any end of its
signature if that contains a dot. -/
def MethodRef.answers (m : MethodRef) (query : String) : Bool :=
  m.methodName == query || Text.endsWith m.signature ("." ++ query) ||
    (query.toList.contains '.' && Text.endsWith m.signature query)

/-- Keeps the first of the methods with one signature; those in `seen` count as kept before. -/
def firstOfSignature (seen : List String) : List MethodRef → List MethodRef
  | [] => []
  | m :: ms =>
    if seen.contains m.signature then firstOfSignature seen ms
    else m :: firstOfSignature (m.signature :: seen) ms

/-- The methods that a query asks for, in corpus order, one for each signature. -/
def Corpus.targets (c : Corpus) (query : String) : List MethodRef :=
  firstOfSignature [] (c.methods.filter (·.answers query))

/-- Collects names that contain the query regardless of case, without repetition, until `limit`
names are kept. -/
def similarAmong (query : String) (limit : Nat) (kept : List String) : List String → List String
  | [] => kept
  | name :: names =>
    if limit ≤ kept.length then kept
    else if Text.containsIgnoringCase name query && !kept.contains name then
      similarAmong query limit (kept ++ [name]) names
    else similarAmong query limit kept names

/-- At most `limit` method names that contain the query regardless of case, in corpus order. -/
def Corpus.similarMethods (c : Corpus) (query : String) (limit : Nat) : List String :=
  similarAmong query limit [] (c.methods.map (·.methodName))

inductive Resolution where
  | targets (ms : List MethodRef)
  | suggestions (names : List String)

/-- The methods that a query asks for, or names to suggest when there is none. -/
def Corpus.resolve (c : Corpus) (query : String) (limit : Nat) : Resolution :=
  match c.targets query with
  | [] => .suggestions (c.similarMethods query limit)
  | ms => .targets ms

end AppSurface
