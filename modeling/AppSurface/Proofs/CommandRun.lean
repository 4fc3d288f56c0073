import AppSurface.CommandLine.Run
import AppSurface.Proofs.CallSpelling
import AppSurface.Proofs.CommandAnswer
import AppSurface.Proofs.DirectoryLoad
import AppSurface.Proofs.FileWriting
import AppSurface.Proofs.InputFiles
import AppSurface.Proofs.ResourceIndependence

namespace AppSurface

variable {fs : FileSystem} {config : Config} {read : PatternReader} {opened : Opened}

namespace CommandLine

variable {times : Times} {lib : Libraries} {s s' : Session} {r : Request} {args : List String}

/-- The session that a request opens. -/
def Request.Opens (read : PatternReader) (fs : FileSystem) (r : Request) (s : Session) : Prop :=
  ∃ opened, r.openSession fs read = .ok opened ∧ opened.session = s

theorem Request.Opens.unique (h : r.Opens read fs s) (h' : r.Opens read fs s') : s = s' := by
  obtain ⟨opened, open_, rfl⟩ := h
  obtain ⟨opened', open', rfl⟩ := h'
  cases open_.symm.trans open'
  rfl

end CommandLine

end AppSurface
