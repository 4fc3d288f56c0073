import AppSurface.CallEdge
import AppSurface.Method
import Mathlib.Data.List.Basic

namespace AppSurface

variable {m n : MethodRef}

def MethodRef.Undotted (m : MethodRef) : Prop := '.' ∉ m.methodName.toList

instance (m : MethodRef) : Decidable m.Undotted := inferInstanceAs (Decidable (_ ∉ _))

theorem toList_dotted (s t : String) : (s ++ "." ++ t).toList = s.toList ++ '.' :: t.toList := by
  have dot : ".".toList = ['.'] := rfl
  simp [dot]

theorem MethodRef.signature_toList (m : MethodRef) :
    m.signature.toList = m.className.toList ++ '.' :: m.methodName.toList := toList_dotted _ _

/-- What stands behind the last dot is the method's name. -/
theorem methodPart_append_dot (s name : String) (h : '.' ∉ name.toList) :
    methodPart (s ++ "." ++ name) = name := by
  have own : ∀ x ∈ name.toList.reverse, (x != '.') = true := by
    intro x hx
    simp only [bne_iff_ne]
    rintro rfl
    exact h (List.mem_reverse.mp hx)
  have split : (s ++ "." ++ name).toList.reverse =
      name.toList.reverse ++ '.' :: s.toList.reverse := by
    rw [toList_dotted]
    simp
  rw [methodPart, split, List.takeWhile_append_of_pos own]
  simp

theorem MethodRef.methodPart_signature (hm : m.Undotted) :
    methodPart m.signature = m.methodName := methodPart_append_dot _ _ hm

/-- Methods whose names have no dot are told apart by their signatures. -/
theorem MethodRef.eq_of_signature (hm : m.Undotted) (hn : n.Undotted)
    (h : m.signature = n.signature) : m = n := by
  have name : m.methodName = n.methodName := by
    rw [← methodPart_signature hm, h, methodPart_signature hn]
  have chars : m.className.toList ++ (".".toList ++ n.methodName.toList) =
      n.className.toList ++ (".".toList ++ n.methodName.toList) := by
    have := congrArg String.toList h
    simpa [signature, name] using this
  have cls : m.className = n.className := String.toList_inj.mp (List.append_cancel_right chars)
  cases m
  cases n
  simp_all

end AppSurface
