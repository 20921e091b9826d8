import Slope.Executor.Served
import Slope.Net.Socket

/-!
# `Net.Receivers` — receivers on the executor, over the ring

`Executor.Served` and the ring together. The tasks are those of `receiverTask`, each around one receiver. A receiver
that finds nothing is polled again in the next pass, since it wakes itself, so the only question is what the device
fills. The tasks live at the start are served as soon as it has filled as many descriptors as they need, each with one,
in the order of the fills; until then `run_forever` goes round.

A packet that somebody holds while the receivers wait is in the way of all of them: the ring gives its next frame out
only when the last one has been dropped.
-/

namespace Slope.Net

open Bridge Executor Executor.OuroborosExecutor
open Bridge.BifrostSystem (BridgeEvent fills outcomes)

variable {env : Surroundings} {w w' : SocketWorld} {i : Fin maxTasks}

/-- **One poll of a receiver**, in the three ways that `try_read` returns. -/
theorem TesseractReceiver.poll_cases (env : Surroundings) (hidle : w.system.receiver = .idle) :
    (∃ w', SocketWorld.Read w (.received (.ok none)) w' ∧
      TesseractReceiver.poll env w = ⟨.pending, true, w'.others env⟩) ∨
    (∃ bytes w', SocketWorld.Read w (.received (.ok (some bytes))) w' ∧
      TesseractReceiver.poll env w = ⟨.ready (.ok bytes), false, w'⟩) ∨
    (∃ w', SocketWorld.Read w (.received (.error .invalidHardwareLength)) w' ∧
      TesseractReceiver.poll env w = ⟨.ready (.error .invalidHardwareLength), false, w'⟩) := by
  obtain ⟨reply, w', hret, hread⟩ := SocketWorld.tryRead_read env hidle
  unfold TesseractReceiver.poll
  rw [hret]
  cases hread with
  | nothing h hpackets hempty => exact .inl ⟨w', .nothing h hpackets hempty, rfl⟩
  | packet h hnone hpackets => exact .inr (.inl ⟨_, w', .packet h hnone hpackets, rfl⟩)
  | refused h hnone hpackets => exact .inr (.inr ⟨w', .refused h hnone hpackets, rfl⟩)

/-- **One poll of the task around it.** -/
theorem receiverTask_cases (env : Surroundings) (i : Fin maxTasks) (hidle : w.system.receiver = .idle) :
    (∃ w', SocketWorld.Read w (.received (.ok none)) w' ∧
      receiverTask env () i w = ⟨[i], false, w'.others env⟩) ∨
    (∃ bytes w', SocketWorld.Read w (.received (.ok (some bytes))) w' ∧
      receiverTask env () i w = ⟨[], true, (w'.keep i (.ok bytes)).dropPacket env⟩) ∨
    (∃ w', SocketWorld.Read w (.received (.error .invalidHardwareLength)) w' ∧
      receiverTask env () i w = ⟨[], true, w'.keep i (.error .invalidHardwareLength)⟩) := by
  unfold receiverTask
  rcases TesseractReceiver.poll_cases env hidle with ⟨w', hread, heq⟩ | ⟨bytes, w', hread, heq⟩ | ⟨w', hread, heq⟩
  · exact .inl ⟨w', hread, by rw [heq]; rfl⟩
  · exact .inr (.inl ⟨bytes, w', hread, by rw [heq]⟩)
  · exact .inr (.inr ⟨w', hread, by rw [heq]⟩)

/-- A receiver that is pending has fired its waker. -/
theorem TesseractReceiver.poll_woke (env : Surroundings) (w : SocketWorld)
    (hpending : (TesseractReceiver.poll env w).returned = .pending) : (TesseractReceiver.poll env w).woke = true := by
  unfold TesseractReceiver.poll at hpending ⊢
  split at hpending
  · cases hpending
  · rfl
  · cases hpending
  · rfl

theorem receiverTask_wakes (env : Surroundings) : SelfWaking (receiverTask env) := by
  intro task i w hdone
  have hwoke := TesseractReceiver.poll_woke env w
  unfold receiverTask at hdone ⊢
  generalize TesseractReceiver.poll env w = polled at hdone hwoke ⊢
  obtain ⟨returned, woke, w'⟩ := polled
  cases returned with
  | ready output => cases output <;> cases hdone
  | pending =>
      obtain rfl : woke = true := hwoke rfl
      exact List.mem_singleton_self _

/-- The outcomes are those of the first fills, in order. -/
theorem outcomes_eq (w : SocketWorld) :
    outcomes w.history = ((fills w.history).take (outcomes w.history).length).map Fill.outcome := by
  obtain ⟨q, hold, received, hreceives, hfills, houtcomes⟩ := BifrostSystem.receives_run w.run
  have hle := hreceives.user.received_le
  have hlen : (outcomes w.history).length = received := by
    rw [← houtcomes, List.length_map, List.length_take]
    exact Nat.min_eq_left hle
  rw [hlen, ← hfills]
  exact houtcomes.symm

theorem outcomes_length_le (w : SocketWorld) : (outcomes w.history).length ≤ (fills w.history).length := by
  have hlen := congrArg List.length (outcomes_eq w)
  rw [List.length_map, List.length_take] at hlen
  omega

/-- What has been received since `w` are the outcomes of the fills that were next. -/
theorem outcomes_since {l : List Outcome} (hsince : outcomes w'.history = outcomes w.history ++ l) :
    l = (((fills w'.history).drop (outcomes w.history).length).take l.length).map Fill.outcome := by
  have hlen : l.length = (outcomes w'.history).length - (outcomes w.history).length := by
    rw [hsince, List.length_append]
    omega
  calc l = (outcomes w'.history).drop (outcomes w.history).length := by rw [hsince, List.drop_left]
    _ = (((fills w'.history).take (outcomes w'.history).length).drop (outcomes w.history).length).map
          Fill.outcome := by
        rw [List.map_drop]
        exact congrArg (List.drop _) (outcomes_eq w')
    _ = _ := by rw [List.drop_take, ← hlen]

/-- `tachyon::yield_retrocausally`: everybody else goes on. -/
def yieldRetrocausally (env : Surroundings) (_ : Nat) (w : SocketWorld) : SocketWorld := w.others env

/-! ## The ring as a queue -/

/-- No packet is held; what was received since `w₀` was noted by the tasks. -/
def packetQueue (w₀ : SocketWorld) : Queue SocketWorld Outcome where
  Good w := w.system.receiver = .idle ∧ w.system.packets = [] ∧
    ∃ new, w.results = w₀.results ++ new ∧ outcomes w.history = outcomes w₀.history ++ new.map Prod.snd
  supply w := (fills w.history).length
  taken w := (outcomes w.history).length
  results w := w.results

/-- A packet is held: nothing is to be had. -/
def blockedQueue : Queue SocketWorld Outcome where
  Good w := w.system.receiver = .idle ∧ w.system.packets ≠ []
  supply _ := 0
  taken _ := 0
  results w := w.results

/-- **What a poll of the task at `i` comes to**, when no packet is held: one more outcome, which is noted, or none,
    and then there was nothing left to receive. -/
inductive Noted (w : SocketWorld) (i : Fin maxTasks) (out : PollOutcome SocketWorld) : Prop where
  | result (r : Outcome) (hdone : out.done = true) (hresults : out.world.results = w.results ++ [(i, r)])
      (houtcomes : outcomes out.world.history = outcomes w.history ++ [r])
  | nothing (hdone : out.done = false) (hresults : out.world.results = w.results)
      (houtcomes : outcomes out.world.history = outcomes w.history)
      (hempty : (fills w.history).length ≤ (outcomes w.history).length)

/-- The ring is at rest: the user is between two calls, and holds no packet. -/
def AtRest (w : SocketWorld) : Prop := w.system.receiver = .idle ∧ w.system.packets = []

theorem receiverTask_noted (env : Surroundings) (i : Fin maxTasks) (hrest : AtRest w) :
    Noted w i (receiverTask env () i w) ∧ AtRest (receiverTask env () i w).world ∧
      fills w.history <+: fills (receiverTask env () i w).world.history := by
  obtain ⟨hidle, hnone⟩ := hrest
  rcases receiverTask_cases env i hidle with ⟨w', hread, heq⟩ | ⟨bytes, w', hread, heq⟩ | ⟨w', hread, heq⟩
  · rw [heq]
    cases hread with
    | nothing h hpackets hempty =>
        have hothers := SocketWorld.others_apart env w'
        have houtcomes : outcomes w'.history = outcomes w.history := by
          rw [h.outcomes]
          exact List.append_nil _
        refine ⟨.nothing rfl (hothers.results.trans h.results) (hothers.outcomes.trans houtcomes) (hempty hnone), ?_,
          h.fills.trans hothers.fills⟩
        exact ⟨hothers.receiver.trans h.receiver, (hothers.packets.trans hpackets).trans hnone⟩
  · rw [heq]
    cases hread with
    | packet h _ hpackets =>
        obtain ⟨hdropped, hgone⟩ :=
          SocketWorld.dropPacket_answered env (w := w'.keep i (.ok bytes)) h.receiver hpackets
        refine ⟨.result (.ok bytes) rfl ?_ ?_, ⟨hdropped.receiver, hgone⟩, h.fills.trans hdropped.fills⟩
        · rw [hdropped.results]
          exact congrArg (· ++ _) h.results
        · rw [hdropped.outcomes]
          show outcomes w'.history ++ [] = _
          rw [List.append_nil, h.outcomes]
          rfl
  · rw [heq]
    cases hread with
    | refused h _ hpackets =>
        refine ⟨.result (.error .invalidHardwareLength) rfl ?_ h.outcomes, ⟨h.receiver, hpackets⟩, h.fills⟩
        exact congrArg (· ++ _) h.results

theorem serves_packetQueue (env : Surroundings) (w₀ : SocketWorld) :
    Serves (receiverTask env) (yieldRetrocausally env) (packetQueue w₀) where
  wakes := receiverTask_wakes env
  taken_le := fun w _ => outcomes_length_le w
  polled := by
    rintro task i w ⟨hidle, hnone, new, hresults, houtcomes⟩
    obtain ⟨hnoted, hrest, hfills⟩ := receiverTask_noted env i ⟨hidle, hnone⟩
    refine ⟨⟨hrest.1, hrest.2, ?_⟩, hfills.length_le⟩
    cases hnoted with
    | result r _ hresults' houtcomes' =>
        refine ⟨new ++ [(i, r)], ?_, ?_⟩
        · rw [hresults', hresults, List.append_assoc]
        · rw [houtcomes', houtcomes, List.map_append, List.append_assoc]
          rfl
    | nothing _ hresults' houtcomes' => exact ⟨new, hresults'.trans hresults, houtcomes'.trans houtcomes⟩
  served := by
    rintro task i w ⟨hidle, hnone, -⟩ hdone
    obtain ⟨hnoted, -, -⟩ := receiverTask_noted env i ⟨hidle, hnone⟩
    cases hnoted with
    | result r _ hresults houtcomes =>
        refine ⟨?_, r, hresults⟩
        exact (congrArg List.length houtcomes).trans List.length_append
    | nothing hnot => cases hnot.symm.trans hdone
  pending := by
    rintro task i w ⟨hidle, hnone, -⟩ hdone
    obtain ⟨hnoted, -, -⟩ := receiverTask_noted env i ⟨hidle, hnone⟩
    cases hnoted with
    | result r hyes => cases hyes.symm.trans hdone
    | nothing _ hresults houtcomes hempty => exact ⟨hempty, congrArg List.length houtcomes, hresults⟩
  idle := by
    rintro alive w ⟨hidle, hnone, new, hresults, houtcomes⟩
    have hothers := SocketWorld.others_apart env w
    refine ⟨⟨hothers.receiver.trans hidle, hothers.packets.trans hnone, new, ?_, ?_⟩, hothers.fills.length_le, ?_,
      hothers.results⟩
    · exact hothers.results.trans hresults
    · exact hothers.outcomes.trans houtcomes
    · exact congrArg List.length hothers.outcomes

/-- With a packet held, a poll finds nothing. -/
theorem receiverTask_blocked (env : Surroundings) (i : Fin maxTasks) (hidle : w.system.receiver = .idle)
    (hheld : w.system.packets ≠ []) :
    (receiverTask env () i w).done = false ∧ blockedQueue.Good (receiverTask env () i w).world ∧
      (receiverTask env () i w).world.results = w.results := by
  rcases receiverTask_cases env i hidle with ⟨w', hread, heq⟩ | ⟨bytes, w', hread, heq⟩ | ⟨w', hread, heq⟩
  · rw [heq]
    cases hread with
    | nothing h hpackets hempty =>
        have hothers := SocketWorld.others_apart env w'
        refine ⟨rfl, ⟨hothers.receiver.trans h.receiver, ?_⟩, hothers.results.trans h.results⟩
        rw [hothers.packets, hpackets]
        exact hheld
  · cases hread with
    | packet h hnone => exact absurd hnone hheld
  · cases hread with
    | refused h hnone => exact absurd hnone hheld

theorem serves_blockedQueue (env : Surroundings) :
    Serves (receiverTask env) (yieldRetrocausally env) blockedQueue where
  wakes := receiverTask_wakes env
  taken_le := fun _ _ => Nat.le_refl 0
  polled := fun _ i _ hgood => ⟨(receiverTask_blocked env i hgood.1 hgood.2).2.1, Nat.le_refl 0⟩
  served := by
    intro task i w hgood hdone
    cases (receiverTask_blocked env i hgood.1 hgood.2).1.symm.trans hdone
  pending := fun _ i _ hgood _ => ⟨Nat.le_refl 0, rfl, (receiverTask_blocked env i hgood.1 hgood.2).2.2⟩
  idle := by
    rintro alive w ⟨hidle, hheld⟩
    have hothers := SocketWorld.others_apart env w
    refine ⟨⟨hothers.receiver.trans hidle, ?_⟩, Nat.le_refl 0, rfl, hothers.results⟩
    show (w.others env).system.packets ≠ []
    rw [hothers.packets]
    exact hheld

/-! ## `run_forever` -/

variable {h : List (ExecutorEvent Unit SocketWorld)} {e : OuroborosExecutor Unit}

/-- The start, for either queue. -/
theorem awaiting_start (hr : Run (OuroborosExecutor.step (receiverTask env)) (fun _ _ => True) .new h e)
    {q : Queue SocketWorld Outcome} (hgood : q.Good w) : Awaiting q (q.taken w + e.count) (q.results w) e 0 e w := by
  refine ⟨hgood, attended_run (receiverTask_wakes env) hr, ⟨_, (tracks_run hr).1⟩, rfl, [], ?_, ?_⟩
  · exact (List.append_nil _).symm
  · intro i
    exact Nat.zero_add _

/-- When nobody is left, each slot that was live has one result. -/
theorem count_results {q : Queue SocketWorld Outcome} {n : Nat} {r₀ new : List (Fin maxTasks × Outcome)}
    {e₀ : OuroborosExecutor Unit} (ha : Awaiting q n r₀ e₀ 0 e w) (hzero : e.count = 0)
    (hnew : q.results w = r₀ ++ new) (i : Fin maxTasks) :
    (new.map Prod.fst).count i = if e₀.Pollable i then 1 else 0 := by
  obtain ⟨new', hnew', hcount⟩ := ha.results
  obtain ⟨v, htracks⟩ := ha.tracks
  obtain rfl : new = new' := List.append_cancel_left (hnew.symm.trans hnew')
  have hdead : ¬ e.Pollable i := by
    intro hi
    have hpos := htracks.count_pos hi
    omega
  have hi := hcount i
  rwa [if_neg hdead, Nat.add_zero] at hi

/-- If no slot was live, nobody has noted anything. -/
theorem results_nil {q : Queue SocketWorld Outcome} {n : Nat} {r₀ new : List (Fin maxTasks × Outcome)}
    {e₀ : OuroborosExecutor Unit} (ha : Awaiting q n r₀ e₀ 0 e w) (hzero : e.count = 0)
    (hnew : q.results w = r₀ ++ new) (hnobody : ∀ i, ¬ e₀.Pollable i) : new = [] := by
  by_contra hsome
  obtain ⟨r, hmem⟩ := List.exists_mem_of_ne_nil new hsome
  have hpos := List.count_pos_iff.mpr (List.mem_map_of_mem (f := Prod.fst) hmem)
  have hnone := count_results ha hzero hnew r.1
  rw [if_neg (hnobody r.1)] at hnone
  omega

/-- **Receivers are served by what the device fills.** On an executor that any spawns, passes and wakes have led to,
    whose tasks each await a receiver of one ring and drop what they get, with no receive or drop under way, whatever the
    others do between any two accesses: `run_forever` returns exactly if no task is live, or no packet is held at the
    start and the device comes to have filled, after some round, as many descriptors as have been received and are
    awaited. When it returns, each live slot has noted one result and no other slot any, and in their order these are
    the outcomes of the fills that were next: the frame, or `InvalidHardwareLength` for a descriptor filled with more
    than a frame can have. -/
theorem receivers_served (hr : Run (OuroborosExecutor.step (receiverTask env)) (fun _ _ => True) .new h e)
    (hidle : w.system.receiver = .idle) :
    ((∃ fuel r, runForever (receiverTask env) (yieldRetrocausally env) fuel e w = some r) ↔
      e.count = 0 ∨ w.system.packets = [] ∧ ∃ k, (outcomes w.history).length + e.count
        ≤ (fills ((round (receiverTask env) (yieldRetrocausally env))^[k] (e, w)).2.history).length) ∧
    ∀ fuel e' w' log, runForever (receiverTask env) (yieldRetrocausally env) fuel e w = some (e', w', log) →
      ∃ new, w'.results = w.results ++ new ∧
        (∀ i, (new.map Prod.fst).count i = if (view (record h) i).live then 1 else 0) ∧
        new.map Prod.snd
          = (((fills w'.history).drop (outcomes w.history).length).take e.count).map Fill.outcome := by
  have hlive : ∀ i, (if (view (record h) i).live then 1 else 0) = if e.Pollable i then 1 else 0 := by
    intro i
    simp only [← (tracks_run hr).1.live i]
  by_cases hnone : w.system.packets = []
  · have hq := serves_packetQueue env w
    have hgood : (packetQueue w).Good w := ⟨hidle, hnone, [], (List.append_nil _).symm, (List.append_nil _).symm⟩
    have hstart := awaiting_start hr hgood
    refine ⟨⟨?_, ?_⟩, ?_⟩
    · rintro ⟨fuel, ⟨e', w', log⟩, hret⟩
      exact .inr ⟨hnone, (hstart.returned hq fuel hret).2.2⟩
    · rintro (hzero | ⟨-, k, hk⟩)
      · refine ⟨_, hstart.returns hq 0 ?_⟩
        have hle := outcomes_length_le w
        show (outcomes w.history).length + e.count ≤ (fills w.history).length
        omega
      · exact ⟨_, hstart.returns hq k hk⟩
    · intro fuel e' w' log hret
      obtain ⟨hend, hzero, -⟩ := hstart.returned hq fuel hret
      obtain ⟨-, -, new, hnew, houtcomes⟩ := hend.good
      refine ⟨new, hnew, fun i => (count_results hend hzero hnew i).trans (hlive i).symm, ?_⟩
      have htotal : (outcomes w'.history).length + e'.count = (outcomes w.history).length + e.count := hend.total
      have hlen : (new.map Prod.snd).length = e.count := by
        rw [houtcomes, List.length_append] at htotal
        omega
      rw [← hlen]
      exact outcomes_since houtcomes
  · have hq := serves_blockedQueue env
    have hstart := awaiting_start hr (q := blockedQueue) (w := w) ⟨hidle, hnone⟩
    have hcount : ∀ {fuel e' w' log},
        runForever (receiverTask env) (yieldRetrocausally env) fuel e w = some (e', w', log) → e.count = 0 := by
      intro fuel e' w' log hret
      obtain ⟨-, -, k, hk⟩ := hstart.returned hq fuel hret
      have hk : 0 + e.count ≤ 0 := hk
      omega
    refine ⟨⟨?_, ?_⟩, ?_⟩
    · rintro ⟨fuel, ⟨e', w', log⟩, hret⟩
      exact .inl (hcount hret)
    · rintro (hzero | ⟨hheld, -⟩)
      · refine ⟨_, hstart.returns hq 0 ?_⟩
        show 0 + e.count ≤ 0
        omega
      · exact absurd hheld hnone
    · intro fuel e' w' log hret
      obtain ⟨hend, hzero, -⟩ := hstart.returned hq fuel hret
      obtain ⟨new, hnew, -⟩ := hend.results
      have hcounts := fun i => (count_results hend hzero hnew i).trans (hlive i).symm
      refine ⟨new, hnew, hcounts, ?_⟩
      have hnobody : ∀ i, ¬ e.Pollable i := by
        intro i hi
        have hpos := (tracks_run hr).1.count_pos hi
        have hzero := hcount hret
        omega
      rw [results_nil hend hzero hnew hnobody, hcount hret]
      rfl

/-- A frame of three bytes comes in after the first pass. -/
def lateFrame : Surroundings where
  steps n := if n = 4 then [.fillLength 3, .fillReady] else []
  apart := by
    intro n a ha
    split at ha
    · rcases List.mem_cons.mp ha with rfl | ha
      · rfl
      · rw [List.mem_singleton.mp ha]
        rfl
    · cases ha

def SocketWorld.new : SocketWorld := ⟨[], .new, .start, 0, []⟩

/-- One task waits for that frame, and has noted it, once, when `run_forever` returns. -/
theorem receivers_served_late :
    ∃ fuel e' w' log, runForever (receiverTask lateFrame) (yieldRetrocausally lateFrame) fuel
        (finalState (step (receiverTask lateFrame)) .new [.spawn ()]) .new = some (e', w', log) ∧
      (w'.results.map Prod.fst).count firstSlot = 1 ∧
      w'.results.map Prod.snd = ((fills w'.history).take 1).map Fill.outcome := by
  have hr := Run.replay (step (receiverTask lateFrame)) (.new : OuroborosExecutor Unit) [.spawn ()]
  obtain ⟨hiff, hserved⟩ := receivers_served hr (w := .new) rfl
  obtain ⟨fuel, ⟨e', w', log⟩, hret⟩ := hiff.mpr (.inr ⟨rfl, 2, by decide +kernel⟩)
  obtain ⟨new, hresults, hcount, hnew⟩ := hserved fuel e' w' log hret
  obtain rfl : w'.results = new := hresults
  have hlive : (view (record (trace (step (receiverTask lateFrame)) .new [.spawn ()])) firstSlot).live = true := by
    decide +kernel
  refine ⟨fuel, e', w', log, hret, ?_, hnew⟩
  rw [hcount firstSlot, if_pos hlive]

end Slope.Net
