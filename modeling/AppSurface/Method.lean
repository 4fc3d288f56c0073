namespace AppSurface

/-- A method of a class, identified by name only: overloads are one method. -/
structure MethodRef where
  className : String
  methodName : String
deriving DecidableEq

/-- The name under which a method is looked up and shown. -/
def MethodRef.signature (m : MethodRef) : String := m.className ++ "." ++ m.methodName

end AppSurface
