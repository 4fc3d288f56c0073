import AppSurface.FileTree
import Mathlib.Data.List.Basic

namespace AppSurface

variable {t u new : FileTree} {es : List (String × FileTree)} {name other step : String}
  {names place found steps : List String} {fs fs' : FileSystem} {path text : String}

namespace FileTree

/-- Every directory of one tree is a directory of the other one too. -/
def KeepsDirectories (t u : FileTree) : Prop :=
  ∀ names es, t.below? names = some (directory es) → ∃ es', u.below? names = some (directory es')

theorem KeepsDirectories.trans {v : FileTree} (h : t.KeepsDirectories u)
    (h' : u.KeepsDirectories v) : t.KeepsDirectories v := by
  intro names es there
  obtain ⟨es', kept⟩ := h names es there
  exact h' names es' kept

end FileTree

namespace FileSystem

open FileTree

end FileSystem

end AppSurface
