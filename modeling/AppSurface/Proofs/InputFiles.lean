import AppSurface.Loading
import Mathlib.Data.List.Basic

namespace AppSurface.FileSystem

variable {fs : FileSystem} {path text : String} {config : Config}

end AppSurface.FileSystem
