import Slope.Lib.Run
import Slope.Lib.Word

/-!
# `Thermogenesis.Policy` — following the thermal zone

The kernel writes the thermal zone of a process to a page and then advances the page's epoch, a byte that wraps.
`ThermalPolicy` remembers the zone and the epoch it last loaded: `check_transition` loads the epoch, returns when
it is the one remembered, and otherwise loads the zone and calls the handler when that has changed.

An update is two stores and a check is one or two loads, so here the kernel and the policy take turns at single
loads and stores, in any order (`ThermalSystem.step`). `Moved` is the inversion of a step.
-/

namespace Slope.Thermogenesis

/-! ## The page -/

inductive ThermalZone where
  | cold
  | warm
  | hot
  | critical
deriving DecidableEq

/-- Every byte is a zone. -/
def ThermalZone.fromRaw (n : U8) : ThermalZone :=
  if n = 1 then .warm else if n = 2 then .hot else if n = 3 then .critical else .cold

/-- The fields of the page that the policy loads. -/
structure ThermalPage where
  temperatureZone : U8
  kernelEpoch : U8
deriving DecidableEq

namespace ThermalPage

def zeroed : ThermalPage := ⟨0, 0⟩

def zone (page : ThermalPage) : ThermalZone := .fromRaw page.temperatureZone

def epoch (page : ThermalPage) : U8 := page.kernelEpoch

/-- The kernel's first store. -/
def storeZone (page : ThermalPage) (zone : U8) : ThermalPage := { page with temperatureZone := zone }

/-- The kernel's second store. -/
def advanceEpoch (page : ThermalPage) : ThermalPage := { page with kernelEpoch := page.kernelEpoch + 1 }

end ThermalPage

/-! ## The policy

A handler is a function pointer: all that matters is which one is called, and with which zones. -/

/-- One call of the handler. -/
structure ZoneCall (H : Type) where
  handler : H
  old : ThermalZone
  new : ThermalZone
deriving DecidableEq

structure ThermalPolicy (H : Type) where
  lastZone : ThermalZone
  lastEpoch : U8
  handler : H
deriving DecidableEq

namespace ThermalPolicy

variable {H : Type}

/-- The zone is loaded before the epoch; the arguments are the page at either load. -/
def new (atZone atEpoch : ThermalPage) (defaultZoneHandler : H) : ThermalPolicy H where
  lastZone := atZone.zone
  lastEpoch := atEpoch.epoch
  handler := defaultZoneHandler

def setHandler (p : ThermalPolicy H) (handler : H) : ThermalPolicy H := { p with handler }

def currentZone (p : ThermalPolicy H) : ThermalZone := p.lastZone

/-- `check_transition` up to its first load: whether it goes on to load the zone. -/
def loadEpoch (p : ThermalPolicy H) (page : ThermalPage) : Bool × ThermalPolicy H :=
  if page.epoch = p.lastEpoch then (false, p) else (true, { p with lastEpoch := page.epoch })

/-- `check_transition` from its second load on, with the call of the handler. -/
def loadZone (p : ThermalPolicy H) (page : ThermalPage) : Option (ZoneCall H) × ThermalPolicy H :=
  if page.zone ≠ p.lastZone then (some ⟨p.handler, p.lastZone, page.zone⟩, { p with lastZone := page.zone })
  else (none, p)

/-- The whole of `check_transition`; the arguments are the page at either load. -/
def checkTransition (p : ThermalPolicy H) (atEpoch atZone : ThermalPage) : Option (ZoneCall H) × ThermalPolicy H :=
  match p.loadEpoch atEpoch with
  | (false, p) => (none, p)
  | (true, p) => p.loadZone atZone

end ThermalPolicy

/-! ## Kernel and policy -/

/-- `updating`: the kernel has stored a zone and not yet advanced the epoch. `checking`: `check_transition` has
    loaded a new epoch and not yet the zone. -/
structure ThermalSystem (H : Type) where
  page : ThermalPage
  updating : Bool
  policy : ThermalPolicy H
  checking : Bool
deriving DecidableEq

inductive ThermalAction (H : Type) where
  /-- The next store of the kernel: the given zone, or the epoch of the update under way. -/
  | kernel (zone : U8)
  /-- The next load of `check_transition`. -/
  | check
  | setHandler (handler : H)

namespace ThermalSystem

variable {H : Type}

/-- A policy made of the page as it stands, between two stores of the kernel. -/
def start (page : ThermalPage) (updating : Bool) (handler : H) : ThermalSystem H where
  page
  updating
  policy := .new page page handler
  checking := false

/-- **One load or store.** When `check_transition` returns in it, the result is the call of the handler it made,
    if it made one. -/
def step (s : ThermalSystem H) : ThermalAction H → Option (Option (ZoneCall H)) × ThermalSystem H
  | .kernel zone =>
    if s.updating then (none, { s with page := s.page.advanceEpoch, updating := false })
    else (none, { s with page := s.page.storeZone zone, updating := true })
  | .check =>
    if s.checking then
      (some (s.policy.loadZone s.page).1, { s with policy := (s.policy.loadZone s.page).2, checking := false })
    else
      match s.policy.loadEpoch s.page with
      | (true, policy) => (none, { s with policy, checking := true })
      | (false, policy) => (some none, { s with policy })
  -- the policy is borrowed by `check_transition` until it returns
  | .setHandler handler => if s.checking then (none, s) else (none, { s with policy := s.policy.setHandler handler })

/-- What a load or store can do. -/
inductive Moved (s : ThermalSystem H) :
    ThermalAction H → Option (Option (ZoneCall H)) → ThermalSystem H → Prop where
  | store {zone : U8} (hup : s.updating = false) :
      Moved s (.kernel zone) none { s with page := s.page.storeZone zone, updating := true }
  | advance {zone : U8} (hup : s.updating = true) :
      Moved s (.kernel zone) none { s with page := s.page.advanceEpoch, updating := false }
  /-- The epoch is the one remembered. -/
  | idle (hchk : s.checking = false) (heq : s.page.epoch = s.policy.lastEpoch) : Moved s .check (some none) s
  /-- The epoch is a new one. -/
  | enter (hchk : s.checking = false) (hne : s.page.epoch ≠ s.policy.lastEpoch) :
      Moved s .check none { s with policy := { s.policy with lastEpoch := s.page.epoch }, checking := true }
  /-- The zone is the one remembered. -/
  | same (hchk : s.checking = true) (heq : s.page.zone = s.policy.lastZone) :
      Moved s .check (some none) { s with checking := false }
  /-- The zone is a new one. -/
  | fire (hchk : s.checking = true) (hne : s.page.zone ≠ s.policy.lastZone) :
      Moved s .check (some (some ⟨s.policy.handler, s.policy.lastZone, s.page.zone⟩))
        { s with policy := { s.policy with lastZone := s.page.zone }, checking := false }
  | handler {f : H} (policy : ThermalPolicy H) (hzone : policy.lastZone = s.policy.lastZone)
      (hepoch : policy.lastEpoch = s.policy.lastEpoch) : Moved s (.setHandler f) none { s with policy }

theorem step_moved (s : ThermalSystem H) (a : ThermalAction H) : Moved s a (step s a).1 (step s a).2 := by
  cases a with
  | kernel zone =>
      simp only [step]
      split
      · next hup => exact .advance hup
      · next hup => exact .store (Bool.not_eq_true _ ▸ hup)
  | check =>
      simp only [step, ThermalPolicy.loadEpoch, ThermalPolicy.loadZone]
      split
      · next hchk =>
        by_cases heq : s.page.zone = s.policy.lastZone
        · simp only [heq, ne_eq, not_true_eq_false, if_false]
          exact .same hchk heq
        · simp only [heq, ne_eq, not_false_eq_true, if_true]
          exact .fire hchk heq
      · next hchk =>
        rw [Bool.not_eq_true] at hchk
        by_cases heq : s.page.epoch = s.policy.lastEpoch
        · simp only [heq, if_true]
          exact .idle hchk heq
        · simp only [heq, if_false]
          exact .enter hchk heq
  | setHandler f =>
      simp only [step]
      split
      · exact .handler s.policy rfl rfl
      · exact .handler (s.policy.setHandler f) rfl rfl

/-- The kernel leaves the policy alone. -/
theorem kernel_frame (s : ThermalSystem H) (zones : List U8) :
    (finalState step s (zones.map .kernel)).policy = s.policy ∧
      (finalState step s (zones.map .kernel)).checking = s.checking := by
  induction zones generalizing s with
  | nil => exact ⟨rfl, rfl⟩
  | cons zone zones ih =>
      have hone : (step s (.kernel zone)).2.policy = s.policy ∧ (step s (.kernel zone)).2.checking = s.checking := by
        have hm := step_moved s (.kernel zone)
        generalize step s (.kernel zone) = out at hm ⊢
        obtain ⟨notice, s'⟩ := out
        cases hm <;> exact ⟨rfl, rfl⟩
      obtain ⟨hpolicy, hchecking⟩ := ih (step s (.kernel zone)).2
      exact ⟨hpolicy.trans hone.1, hchecking.trans hone.2⟩

/-- **The loads are those of `check_transition`**, whatever the kernel stores between them: the first one returns,
    or the second one does. -/
theorem check_eq_checkTransition {s later : ThermalSystem H} {zones : List U8} (hchk : s.checking = false)
    (hlater : finalState step (step s .check).2 (zones.map .kernel) = later) :
    (later.checking = false ∧ (step s .check).1 = some (s.policy.checkTransition s.page later.page).1 ∧
        (step s .check).2.policy = (s.policy.checkTransition s.page later.page).2) ∨
      (later.checking = true ∧ (step later .check).1 = some (s.policy.checkTransition s.page later.page).1 ∧
        (step later .check).2.policy = (s.policy.checkTransition s.page later.page).2) := by
  obtain ⟨hpolicy, hchecking⟩ := kernel_frame (step s .check).2 zones
  rw [hlater] at hpolicy hchecking
  have hfirst : step s .check = match s.policy.loadEpoch s.page with
      | (true, policy) => (none, { s with policy, checking := true })
      | (false, policy) => (some none, { s with policy }) := by
    simp only [step, hchk, Bool.false_eq_true, if_false]
  unfold ThermalPolicy.checkTransition
  rcases hload : s.policy.loadEpoch s.page with ⟨_ | _, policy⟩
  · rw [hload] at hfirst
    rw [hfirst] at hchecking ⊢
    exact Or.inl ⟨hchecking.trans hchk, rfl, rfl⟩
  · rw [hload] at hfirst
    rw [hfirst] at hpolicy hchecking
    right
    simp only [step, hpolicy, hchecking, if_true, and_self]

end ThermalSystem

end Slope.Thermogenesis
