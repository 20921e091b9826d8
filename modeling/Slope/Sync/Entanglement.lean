/-!
# `Sync.Entanglement` — storage behind a bounded lock

`SpookyCell` as one participant sees it between calls: the lock word and the data. `mutate_bounded` tries to
take the lock a bounded number of times; the operation runs under the lock, and dropping the guard releases
it. `env` is what the operation reaches besides the data.
-/

namespace Slope.Sync

structure SpookyCell (τ : Type) where
  locked : Bool
  data : τ

inductive EntanglementError where
  | busy
deriving DecidableEq

namespace SpookyCell

variable {τ σ ρ : Type}

def new (value : τ) : SpookyCell τ := ⟨false, value⟩

def tryMutate (cell : SpookyCell τ) (env : σ) (operation : τ → σ → ρ × τ × σ) :
    Except EntanglementError ρ × SpookyCell τ × σ :=
  if cell.locked then (.error .busy, cell, env)
  else
    match operation cell.data env with
    | (result, data, env) => (.ok result, ⟨false, data⟩, env)

def mutateBounded (cell : SpookyCell τ) (env : σ) (operation : τ → σ → ρ × τ × σ) :
    Nat → Except EntanglementError ρ × SpookyCell τ × σ
  | 0 => (.error .busy, cell, env)
  | attempts + 1 =>
    match cell.tryMutate env operation with
    | (.ok result, cell, env) => (.ok result, cell, env)
    | (.error .busy, cell, env) => cell.mutateBounded env operation attempts

/-- A free lock is taken at the first attempt. -/
theorem mutateBounded_free (value : τ) (env : σ) (operation : τ → σ → ρ × τ × σ) {attempts : Nat}
    (h : 0 < attempts) :
    (SpookyCell.new value).mutateBounded env operation attempts
      = (.ok (operation value env).1, .new (operation value env).2.1, (operation value env).2.2) := by
  obtain ⟨n, rfl⟩ : ∃ n, attempts = n + 1 := ⟨attempts - 1, by omega⟩
  rfl

end SpookyCell

end Slope.Sync
