import Mathlib.Data.List.Chain
import Slope.Thermogenesis.Policy

/-!
# `Thermogenesis.Follow` — which zone changes a check sees

An epoch that is the one remembered means that the updates since are a multiple of 256: none, or so many that the
byte has come round. `Tracks` says this, and that in the first case the zone is the one remembered, too, unless an
update is half done. So a check can miss a change in the second case only, and `transitions_followed_iff` says that
it does. Checks with fewer than 256 updates from one to the next miss nothing (`follows_of_prompt`).
-/

namespace Slope.Thermogenesis.ThermalSystem

variable {H : Type}

/-! ## What a history shows -/

abbrev ThermalEvent (H : Type) := Event (ThermalSystem H) (ThermalAction H) (Option (Option (ZoneCall H)))

/-- The calls of the handler, oldest first. -/
def calls (h : List (ThermalEvent H)) : List (ZoneCall H) := h.filterMap fun e => e.result.join

theorem calls_snoc (h : List (ThermalEvent H)) (s : ThermalSystem H) (a : ThermalAction H) :
    calls (h ++ [Event.of step s a]) = calls h ++ (step s a).1.join.toList :=
  filterMap_snoc _ h _

/-- The updates completed since a check last saw a new epoch, after a step from `s` to `s'`. -/
def recount (n : Nat) (s s' : ThermalSystem H) : Nat :=
  if !s.checking && s'.checking then 0
  else if s.updating && !s'.updating then n + 1
  else n

/-- The updates completed since a check last saw a new epoch, or since the start. -/
def updatesSince (h : List (ThermalEvent H)) : Nat := h.foldl (fun n e => recount n e.pre e.post) 0

theorem updatesSince_snoc (h : List (ThermalEvent H)) (e : ThermalEvent H) :
    updatesSince (h ++ [e]) = recount (updatesSince h) e.pre e.post := by
  unfold updatesSince
  rw [List.foldl_append, List.foldl_cons, List.foldl_nil]

/-- **The invariant**, with `n` updates since: they are what the epoch is ahead of the one remembered; and when
    there are none and none is under way, the zone is the one remembered, too. -/
structure Tracks (n : Nat) (s : ThermalSystem H) : Prop where
  epoch : s.page.kernelEpoch = s.policy.lastEpoch + BitVec.ofNat 8 n
  zone : n = 0 → s.updating = false → s.checking = false → s.page.zone = s.policy.lastZone

section

variable {n : Nat} {s s' : ThermalSystem H} {a : ThermalAction H} {notice : Option (Option (ZoneCall H))}

/-- The epoch shows nothing exactly when the updates since are a multiple of its range. -/
theorem Tracks.same_epoch_iff (ht : Tracks n s) : s.page.epoch = s.policy.lastEpoch ↔ 256 ∣ n := by
  show s.page.kernelEpoch = s.policy.lastEpoch ↔ _
  rw [ht.epoch]
  exact Word.add_ofNat_eq_self

/-- **Invariant step.** -/
theorem Tracks.moved (ht : Tracks n s) (hm : Moved s a notice s') : Tracks (recount n s s') s' := by
  cases hm with
  | @store zone hup =>
      -- the zone is ahead of the epoch until the update completes
      have hcount : recount n s { s with page := s.page.storeZone zone, updating := true } = n := by
        simp [recount]
      rw [hcount]
      refine ⟨ht.epoch, ?_⟩
      intro _ hup' _
      cases hup'
  | advance hup =>
      have hcount : recount n s { s with page := s.page.advanceEpoch, updating := false } = n + 1 := by
        simp [recount, hup]
      rw [hcount]
      refine ⟨?_, fun hzero => absurd hzero (Nat.succ_ne_zero n)⟩
      calc s.page.kernelEpoch + 1
        _ = s.policy.lastEpoch + BitVec.ofNat 8 n + 1 := by rw [ht.epoch]
        _ = s.policy.lastEpoch + (BitVec.ofNat 8 n + 1) := BitVec.add_assoc _ _ _
        _ = s.policy.lastEpoch + BitVec.ofNat 8 (n + 1) := by rw [BitVec.ofNat_add]; rfl
  | idle hchk heq =>
      have hcount : recount n s s = n := by simp [recount]
      rw [hcount]
      exact ht
  | enter hchk hne =>
      refine ⟨?_, ?_⟩
      · simp [recount, hchk, ThermalPage.epoch]
      · intro _ _ hchk'
        cases hchk'
  | same hchk heq =>
      exact ⟨by simpa [recount, hchk] using ht.epoch, fun _ _ _ => heq⟩
  | fire hchk hne =>
      exact ⟨by simpa [recount, hchk] using ht.epoch, fun _ _ _ => rfl⟩
  | handler policy hzone hepoch =>
      have hcount : recount n s { s with policy } = n := by simp [recount]
      rw [hcount]
      exact ⟨by rw [hepoch]; exact ht.epoch, by rw [hzone]; exact ht.zone⟩

theorem tracks_run {page : ThermalPage} {updating : Bool} {handler : H}
    {allowed : List (ThermalEvent H) → ThermalAction H → Prop} {h : List (ThermalEvent H)}
    (hr : Run step allowed (start page updating handler) h s) : Tracks (updatesSince h) s := by
  refine hr.invariant (fun h s => Tracks (updatesSince h) s) ⟨(BitVec.add_zero _).symm, fun _ _ _ => rfl⟩ ?_
  intro h s a _ _ ht
  rw [updatesSince_snoc]
  exact ht.moved (step_moved s a)

end

/-! ## The chain of calls -/

/-- The zone that the calls lead to from `z₀`. -/
def reached (z₀ : ThermalZone) (cs : List (ZoneCall H)) : ThermalZone := (cs.getLast?.map ZoneCall.new).getD z₀

/-- Each call leaves the zone the one before it entered, the first one `z₀`, and enters another. -/
structure Chained (z₀ : ThermalZone) (cs : List (ZoneCall H)) : Prop where
  first : ∀ c ∈ cs.head?, c.old = z₀
  linked : cs.IsChain fun c d => d.old = c.new
  changes : ∀ c ∈ cs, c.old ≠ c.new

theorem Chained.snoc {z₀ : ThermalZone} {cs : List (ZoneCall H)} {c : ZoneCall H} (hcs : Chained z₀ cs)
    (hold : c.old = reached z₀ cs) (hne : c.old ≠ c.new) : Chained z₀ (cs ++ [c]) := by
  unfold reached at hold
  refine ⟨?_, List.isChain_append.mpr ⟨hcs.linked, List.isChain_singleton c, ?_⟩, ?_⟩
  · cases cs with
    | nil => simpa using hold
    | cons d ds => simpa using hcs.first
  · intro d hd c' hc'
    obtain rfl : c = c' := by simpa using hc'
    rw [hold, Option.mem_def.mp hd]
    rfl
  · intro d hd
    rcases List.mem_append.mp hd with hd | hd
    · exact hcs.changes d hd
    · rw [List.mem_singleton.mp hd]
      exact hne

section

variable {page : ThermalPage} {updating : Bool} {handler : H} {s : ThermalSystem H} {h : List (ThermalEvent H)}

/-- The handler is told every zone that the policy takes on. -/
theorem chained_run {allowed : List (ThermalEvent H) → ThermalAction H → Prop}
    (hr : Run step allowed (start page updating handler) h s) :
    Chained page.zone (calls h) ∧ s.policy.lastZone = reached page.zone (calls h) := by
  refine hr.invariant (fun h s => Chained page.zone (calls h) ∧ s.policy.lastZone = reached page.zone (calls h))
    ⟨⟨by simp [calls], by simp [calls], by simp [calls]⟩, rfl⟩ ?_
  rintro h s a - - ⟨hchain, hlast⟩
  have hm := step_moved s a
  rw [calls_snoc]
  generalize step s a = out at hm ⊢
  obtain ⟨notice, s'⟩ := out
  cases hm with
  | fire hchk hne =>
      refine ⟨hchain.snoc hlast fun heq => hne heq.symm, ?_⟩
      simp [reached]
  | handler policy hzone hepoch =>
      simp only [Option.join_none, Option.toList_none, List.append_nil]
      exact ⟨hchain, hzone.trans hlast⟩
  | _ =>
      simp only [Option.join_none, Option.join_some, Option.toList_none, List.append_nil]
      exact ⟨hchain, hlast⟩

end

/-! ## Checks that follow the zone -/

/-- **What the policy should do** over a run from the zone `z₀`: a check that returns while no update is half done
    leaves it on the zone of the page, and the calls of the handler form a chain. -/
structure Follows (z₀ : ThermalZone) (h : List (ThermalEvent H)) : Prop where
  current : ∀ e ∈ h, ∀ call, e.result = some call → e.post.updating = false →
    e.post.policy.currentZone = e.post.page.zone
  chain : Chained z₀ (calls h)

/-- A check starts with no update half done, and the epoch has come round: the updates since a check last saw a new
    one are a positive multiple of 256, and the zone is another one. -/
def Wrapped (n : Nat) (s : ThermalSystem H) : Prop :=
  s.checking = false ∧ s.updating = false ∧ 0 < n ∧ 256 ∣ n ∧ s.page.zone ≠ s.policy.lastZone

/-- No check of the history finds the epoch come round. -/
def NoneWrapped (h : List (ThermalEvent H)) : Prop :=
  ∀ h₁ e h₂, h = h₁ ++ e :: h₂ → e.call = .check → ¬ Wrapped (updatesSince h₁) e.pre

section

variable {n : Nat} {page : ThermalPage} {updating : Bool} {handler : H} {s s' : ThermalSystem H}
  {h : List (ThermalEvent H)} {allowed : List (ThermalEvent H) → ThermalAction H → Prop}

/-- One check that returns. -/
theorem Tracks.current {call : Option (ZoneCall H)} {a : ThermalAction H} (ht : Tracks n s)
    (hm : Moved s a (some call) s') (hup : s'.updating = false) (hwrap : a = .check → ¬ Wrapped n s) :
    s'.policy.lastZone = s'.page.zone := by
  cases hm with
  | idle hchk heq =>
      by_contra hne
      have hmany : 256 ∣ n := ht.same_epoch_iff.mp heq
      by_cases hzero : n = 0
      · exact hne (ht.zone hzero hup hchk).symm
      · exact hwrap rfl ⟨hchk, hup, Nat.pos_of_ne_zero hzero, hmany, fun heq => hne heq.symm⟩
  | same hchk heq => exact heq.symm
  | fire hchk hne => rfl

/-- A check that finds the epoch come round returns, with everything as it was. -/
theorem Tracks.misses (ht : Tracks n s) (hwrap : Wrapped n s) : step s .check = (some none, s) := by
  obtain ⟨hchk, -, -, hmany, -⟩ := hwrap
  have heq := ht.same_epoch_iff.mpr hmany
  have hm := step_moved s .check
  generalize step s .check = out at hm ⊢
  obtain ⟨notice, s'⟩ := out
  cases hm with
  | idle _ _ => rfl
  | enter _ hne => exact absurd heq hne
  | same hchk' _ => cases hchk.symm.trans hchk'
  | fire hchk' _ => cases hchk.symm.trans hchk'

theorem follows_of_noneWrapped (hr : Run step allowed (start page updating handler) h s) (hnone : NoneWrapped h) :
    Follows page.zone h := by
  refine ⟨?_, (chained_run hr).1⟩
  intro e he call hresult hup
  obtain ⟨h₁, h₂, hsplit⟩ := List.append_of_mem he
  have ht : Tracks (updatesSince h₁) e.pre := tracks_run (hr.cut hsplit).1
  have hm := step_moved e.pre e.call
  have hof := hr.event_of he
  have hpost : (step e.pre e.call).2 = e.post := (congrArg Event.post hof).symm
  have hres : (step e.pre e.call).1 = some call := (congrArg Event.result hof).symm.trans hresult
  rw [hres, hpost] at hm
  exact ht.current hm hup fun hcall => hnone h₁ e h₂ hsplit hcall

theorem noneWrapped_of_follows (hr : Run step allowed (start page updating handler) h s)
    (hfollows : Follows page.zone h) : NoneWrapped h := by
  intro h₁ e h₂ hsplit hcall hwrap
  have he : e ∈ h := by simp [hsplit]
  have ht : Tracks (updatesSince h₁) e.pre := tracks_run (hr.cut hsplit).1
  have hof := hr.event_of he
  rw [hcall] at hof
  have hstep := ht.misses hwrap
  have hresult : e.result = some none := by rw [hof]; exact congrArg Prod.fst hstep
  have hpost : e.post = e.pre := by rw [hof]; exact congrArg Prod.snd hstep
  obtain ⟨-, hup, -, -, hne⟩ := hwrap
  have hcurrent := hfollows.current e he none hresult (by rw [hpost]; exact hup)
  rw [hpost] at hcurrent
  exact hne hcurrent.symm

/-- **The zone is followed, exactly.** For every page and every order of the loads and stores of the kernel and the
    policy: each check that returns while no update is half done leaves the policy on the zone of the page, and the
    calls of the handler form a chain from the zone at the start, exactly when no check finds the epoch come round
    on another zone. -/
theorem transitions_followed_iff (hr : Run step (fun _ _ => True) (start page updating handler) h s) :
    Follows page.zone h ↔ NoneWrapped h :=
  ⟨noneWrapped_of_follows hr, follows_of_noneWrapped hr⟩

end

/-! ### An epoch that comes round -/

/-- One update to the hot zone, with a check between its two stores and another after them. -/
def oneUpdate : List (ThermalAction Unit) := [.kernel 2, .check, .kernel 2, .check, .check]

theorem updatesSince_le_length (h : List (ThermalEvent H)) : updatesSince h ≤ h.length := by
  induction h using List.reverseRecOn with
  | nil => exact Nat.le_refl 0
  | append_singleton h e ih =>
      rw [updatesSince_snoc, List.length_append, List.length_singleton]
      unfold recount
      split
      · exact Nat.zero_le _
      · split <;> omega

/-- The check in between sees nothing yet; the one after the update calls the handler. -/
theorem transitions_followed_sample :
    Follows .cold (trace step (start .zeroed false ()) oneUpdate) ∧
      calls (trace step (start .zeroed false ()) oneUpdate) = [⟨(), .cold, .hot⟩] := by
  have hr := Run.replay step (start .zeroed false ()) oneUpdate
  refine ⟨(transitions_followed_iff hr).mpr ?_, by decide⟩
  rintro h₁ e h₂ hsplit - ⟨-, -, hpos, hmany, -⟩
  have hlen : 5 = h₁.length + (h₂.length + 1) := by simpa [trace, oneUpdate] using congrArg List.length hsplit
  have hle := Nat.le_of_dvd hpos hmany
  have hcount := updatesSince_le_length h₁
  omega

/-- 256 updates to the hot zone. -/
def manyUpdates : List (ThermalAction Unit) := List.replicate 512 (.kernel 2)

/-- **A zone is missed.** After 256 updates the epoch is what it was at the start: a check, made while no update is
    half done, returns without a call of the handler and leaves the policy on the cold zone. -/
theorem epoch_comes_round :
    Run step (fun _ _ => True) (start .zeroed false ())
      (trace step (start .zeroed false ()) (manyUpdates ++ [.check]))
      (finalState step (start .zeroed false ()) (manyUpdates ++ [.check])) ∧
    (finalState step (start .zeroed false ()) (manyUpdates ++ [.check])).page.zone = .hot ∧
    (finalState step (start .zeroed false ()) (manyUpdates ++ [.check])).policy.currentZone = .cold ∧
    ¬ Follows .cold (trace step (start .zeroed false ()) (manyUpdates ++ [.check])) := by
  have hfinal : finalState step (start .zeroed false ()) manyUpdates
      = ⟨⟨2, 0⟩, false, ⟨.cold, 0, ()⟩, false⟩ := by decide +kernel
  have hpost : finalState step (start .zeroed false ()) (manyUpdates ++ [.check])
      = ⟨⟨2, 0⟩, false, ⟨.cold, 0, ()⟩, false⟩ := by
    rw [finalState_append, hfinal]
    rfl
  rw [hpost]
  refine ⟨hpost ▸ Run.replay step _ _, rfl, rfl, fun hfollows => ?_⟩
  have he : Event.of step (⟨⟨2, 0⟩, false, ⟨.cold, 0, ()⟩, false⟩ : ThermalSystem Unit) .check
      ∈ trace step (start .zeroed false ()) (manyUpdates ++ [.check]) := by
    rw [trace_append, hfinal]
    exact List.mem_append_right _ (List.mem_singleton_self _)
  cases hfollows.current _ he none rfl rfl

/-! ## Prompt checks -/

/-- The updates completed since the last check loaded the epoch, or since the start. -/
def updatesSinceCheck (h : List (ThermalEvent H)) : Nat :=
  h.foldl (fun n e =>
    match e.call with
    | .check => if e.pre.checking then n else 0
    | _ => recount n e.pre e.post) 0

theorem updatesSinceCheck_snoc (h : List (ThermalEvent H)) (s : ThermalSystem H) (a : ThermalAction H) :
    updatesSinceCheck (h ++ [Event.of step s a]) =
      match a with
      | .check => if s.checking then updatesSinceCheck h else 0
      | _ => recount (updatesSinceCheck h) s (step s a).2 := by
  unfold updatesSinceCheck
  rw [List.foldl_append, List.foldl_cons, List.foldl_nil]
  rfl

/-- Fewer than 256 updates complete from one check to the next. -/
def Prompt (h : List (ThermalEvent H)) : Prop :=
  ∀ h₁ e h₂, h = h₁ ++ e :: h₂ → e.call = .check → e.pre.checking = false → updatesSinceCheck h₁ < 256

section

variable {page : ThermalPage} {updating : Bool} {handler : H} {s : ThermalSystem H} {h : List (ThermalEvent H)}
  {allowed : List (ThermalEvent H) → ThermalAction H → Prop}

/-- When checks are prompt, each of them sees the updates since the one before it. -/
theorem updatesSince_eq_of_prompt (hr : Run step allowed (start page updating handler) h s) (hprompt : Prompt h) :
    updatesSince h = updatesSinceCheck h := by
  induction hr with
  | start => rfl
  | @call h s a hr ha ih =>
      have hbefore : Prompt h := by
        rintro h₁ e h₂ rfl
        exact hprompt h₁ e (h₂ ++ [Event.of step s a]) (by simp)
      have heq := ih hbefore
      have hnow := hprompt h (Event.of step s a) [] rfl
      have ht : Tracks (updatesSince h) s := tracks_run hr
      rw [updatesSince_snoc, updatesSinceCheck_snoc, ← heq]
      rw [← heq] at hnow
      cases a with
      | kernel zone => rfl
      | setHandler f => rfl
      | check =>
          have hm := step_moved s .check
          show recount (updatesSince h) s (step s .check).2 = if s.checking then updatesSince h else 0
          generalize step s .check = out at hm ⊢
          obtain ⟨notice, s'⟩ := out
          cases hm with
          | idle hchk hsame =>
              -- a multiple of 256 below 256
              obtain ⟨k, hk⟩ := ht.same_epoch_iff.mp hsame
              have hlt := hnow rfl hchk
              have hzero : updatesSince h = 0 := by omega
              simp [recount, hzero]
          | enter hchk hne => simp [recount, hchk]
          | same hchk hsame => simp [recount, hchk]
          | fire hchk hne => simp [recount, hchk]

/-- **Prompt checks follow the zone.** When fewer than 256 updates complete from each check to the next, none is
    missed. -/
theorem follows_of_prompt (hr : Run step allowed (start page updating handler) h s) (hprompt : Prompt h) :
    Follows page.zone h := by
  apply follows_of_noneWrapped hr
  rintro h₁ e h₂ hsplit hcall ⟨hchk, -, hpos, hmany, -⟩
  have hbefore : Prompt h₁ := by
    rintro h₁' e' h₂' rfl
    exact hprompt h₁' e' (h₂' ++ e :: h₂) (by simp [hsplit])
  have heq := updatesSince_eq_of_prompt (hr.cut hsplit).1 hbefore
  have hlt := hprompt h₁ e h₂ hsplit hcall hchk
  have hle := Nat.le_of_dvd hpos hmany
  omega

end

/-! ## A policy made while the kernel stores

`new` loads the zone before the epoch, `check_transition` the epoch before the zone. -/

/-- A policy between whose two loads an update has completed. -/
def torn (page : ThermalPage) (zone : U8) (handler : H) : ThermalSystem H where
  page := (page.storeZone zone).advanceEpoch
  updating := false
  policy := .new page (page.storeZone zone).advanceEpoch handler
  checking := false

/-- **The update is missed.** Until the kernel stores again, every check of such a policy returns without a call of
    the handler, and the policy stays on the zone before the update. -/
theorem torn_stale {page : ThermalPage} {zone : U8} {handler : H} {h : List (ThermalEvent H)} {s : ThermalSystem H}
    (hr : Run step (fun _ a => ∀ z, a ≠ .kernel z) (torn page zone handler) h s) :
    s.page.zone = .fromRaw zone ∧ s.policy.currentZone = page.zone ∧ calls h = [] := by
  have hinv : s.page = (page.storeZone zone).advanceEpoch ∧ s.policy.lastZone = page.zone ∧
      s.policy.lastEpoch = s.page.epoch ∧ s.checking = false ∧ calls h = [] := by
    refine hr.invariant (fun h s => s.page = (page.storeZone zone).advanceEpoch ∧ s.policy.lastZone = page.zone ∧
      s.policy.lastEpoch = s.page.epoch ∧ s.checking = false ∧ calls h = []) ⟨rfl, rfl, rfl, rfl, rfl⟩ ?_
    rintro h s a - hquiet ⟨hpage, hzone, hepoch, hchk, hcalls⟩
    have hm := step_moved s a
    rw [calls_snoc, hcalls]
    generalize step s a = out at hm ⊢
    obtain ⟨notice, s'⟩ := out
    cases hm with
    | store _ => exact absurd rfl (hquiet _)
    | advance _ => exact absurd rfl (hquiet _)
    | idle _ _ => exact ⟨hpage, hzone, hepoch, hchk, rfl⟩
    | enter _ hne => exact absurd hepoch.symm hne
    | same hchk' _ => cases hchk.symm.trans hchk'
    | fire hchk' _ => cases hchk.symm.trans hchk'
    | handler policy hz he => exact ⟨hpage, hz.trans hzone, he.trans hepoch, hchk, rfl⟩
  obtain ⟨hpage, hzone, -, -, hcalls⟩ := hinv
  exact ⟨by rw [hpage]; rfl, hzone, hcalls⟩

end Slope.Thermogenesis.ThermalSystem
