/-!
A value shared by many holders, who replace it whole. An update is two steps, reading the value and
writing what a function makes of it, and other holders may act in between.
-/

namespace Admission

/-- The value as it stands. -/
structure Shared (α : Type) where
  value : α
deriving DecidableEq, Repr

namespace Shared

variable {α : Type}

def get (s : Shared α) : α := s.value

def set (_ : Shared α) (value : α) : Shared α := ⟨value⟩

/-- Where an update stands. -/
inductive Update (α : Type)
  | pending (change : α → α)
  | loaded (change : α → α) (seen : α)
  | stored

/-- The next step of an update. -/
def Update.step : Update α → Shared α → Update α × Shared α
  | .pending change, s => (.loaded change s.get, s)
  | .loaded change seen, s => (.stored, s.set (change seen))
  | .stored, s => (.stored, s)

/-- An update whose two steps follow each other. -/
def update (change : α → α) (s : Shared α) : Shared α :=
  let (u, s) := Update.step (.pending change) s
  (u.step s).2

theorem get_update (change : α → α) (s : Shared α) : (s.update change).get = change s.get := rfl

end Shared

end Admission
