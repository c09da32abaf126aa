import PowerLift.Code.Stmt

/-!
Flushing of denormals. Vector code needs it on and scalar code off. The mode that the code before
established is tracked, so that it is only switched when it has to be.
-/

namespace PowerLift

inductive FlushMode where
  /-- Denormals are kept. -/
  | scalar
  /-- Denormals are flushed. -/
  | vector
deriving DecidableEq

namespace FlushMode

/-- The switch to a mode. It is checked if the mode before is not known. -/
def switch (wanted : FlushMode) (checked : Bool) : Action :=
  .perform (.send .fpscr (.flushMode (wanted == .vector) checked) [])

/-- The switch to a mode that is needed, given the mode before as far as it is known. -/
def require (known : Option FlushMode) (wanted : FlushMode) : Option Action :=
  match known with
  | none => some (wanted.switch true)
  | some mode => if mode = wanted then none else some (wanted.switch false)

end FlushMode

end PowerLift
