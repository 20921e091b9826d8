import Slope.Bridge.Handover
import Slope.Bridge.Moves
import Slope.Executor.Ouroboros

/-!
# `Net.Socket` — a socket over the DMA ring, and the future that awaits a packet

`TesseractSocket` forwards to its ring. `TesseractReceiver::poll` calls `try_read`; when there is nothing it yields,
wakes itself and is pending, since no interrupt registers a wake. When there is a packet it returns the packet, which
its caller holds from then on.

The ring is `Bridge.Ring`, one access at a time. Between any two accesses of a poll everybody else may take steps: the
device, and whoever transmits on the same ring. Nobody else receives from it.

A receiver is no task of the executor, whose tasks return nothing. `receiverTask` is the least that makes one of it: a
task that awaits a receiver, notes what it gets and drops the packet, all in the poll that gets it. That task is not in
the source; how long a packet is held is the caller's own choice there.
-/

namespace Slope.Bridge

/-- The user's steps in `try_receive` and in the drop of a packet. -/
def BridgeAction.receives : BridgeAction → Bool
  | .tryReceive => true
  | .drop _ => true
  | .receiver => true
  | _ => false

/-- What the call returns that gives a descriptor back. -/
def Release.reply : Release → BridgeReply
  | drop => .dropped
  | discard => .received (.error .invalidHardwareLength)

end Slope.Bridge

namespace Slope.Net

open Bridge Executor
open Bridge.BifrostSystem (BridgeEvent fills outcomes)

/-- The steps that others take, before each access of a receiver and in each yield. -/
structure Surroundings where
  steps : Nat → List BridgeAction
  apart : ∀ n, ∀ a ∈ steps n, a.receives = false

/-- The ring with its history, and what the tasks have noted. -/
structure SocketWorld where
  history : List BridgeEvent
  system : BifrostSystem
  run : Run BifrostSystem.step (fun _ _ => True) .new history system
  tick : Nat
  results : List (Fin maxTasks × Outcome)

namespace SocketWorld

/-- One step of the ring. -/
def act (w : SocketWorld) (a : BridgeAction) : Option BridgeReply × SocketWorld :=
  ((w.system.step a).1, { w with
    history := w.history ++ [Event.of BifrostSystem.step w.system a]
    system := (w.system.step a).2
    run := w.run.call a trivial })

/-- What the others do before the next access. -/
def others (env : Surroundings) (w : SocketWorld) : SocketWorld :=
  (env.steps w.tick).foldl (fun w a => (w.act a).2) { w with tick := w.tick + 1 }

def access (env : Surroundings) (w : SocketWorld) (a : BridgeAction) : Option BridgeReply × SocketWorld :=
  (w.others env).act a

/-- A call goes on until it has its result, for at most `fuel` accesses. -/
def finish (env : Surroundings) : Nat → SocketWorld → Option BridgeReply × SocketWorld
  | 0, w => (none, w)
  | fuel + 1, w =>
    match w.access env .receiver with
    | (some reply, w) => (some reply, w)
    | (none, w) => finish env fuel w

/-- `TesseractSocket::try_read`, which is `try_receive` of the ring. -/
def tryRead (env : Surroundings) (w : SocketWorld) : Option BridgeReply × SocketWorld :=
  finish env 5 (w.access env .tryReceive).2

/-- The drop of the packet. -/
def dropPacket (env : Surroundings) (w : SocketWorld) : SocketWorld :=
  (finish env 3 (w.access env (.drop 0)).2).2

def keep (w : SocketWorld) (slot : Fin maxTasks) (result : Outcome) : SocketWorld :=
  { w with results := w.results ++ [(slot, result)] }

end SocketWorld

/-- What the poll of a future returns. -/
inductive Poll (α : Type) where
  | ready (output : α)
  | pending

/-- A poll of a receiver: what it returns, whether it has fired its waker, and what it leaves. -/
structure ReceiverPoll where
  returned : Poll Outcome
  woke : Bool
  world : SocketWorld

/-- `TesseractReceiver::poll`. A packet that it returns is among those that the ring's user holds. -/
def TesseractReceiver.poll (env : Surroundings) (w : SocketWorld) : ReceiverPoll :=
  match w.tryRead env with
  | (some (.received (.ok (some bytes))), w) => ⟨.ready (.ok bytes), false, w⟩
  -- `yield_retrocausally`, then `wake_by_ref`
  | (some (.received (.ok none)), w) => ⟨.pending, true, w.others env⟩
  | (some (.received (.error error)), w) => ⟨.ready (.error error), false, w⟩
  -- `try_read` returns one of these
  | (_, w) => ⟨.pending, true, w⟩

/-- **A task around a receiver**: when the receiver is ready, the task notes the result, drops the packet if there is
    one, and is done. -/
def receiverTask (env : Surroundings) (_ : Unit) (slot : Fin maxTasks) (w : SocketWorld) : PollOutcome SocketWorld :=
  match TesseractReceiver.poll env w with
  | ⟨.ready (.ok bytes), _, w⟩ => ⟨[], true, (w.keep slot (.ok bytes)).dropPacket env⟩
  | ⟨.ready (.error error), _, w⟩ => ⟨[], true, w.keep slot (.error error)⟩
  | ⟨.pending, woke, w⟩ => ⟨if woke then [slot] else [], false, w⟩

namespace SocketWorld

variable {env : Surroundings} {w w' : SocketWorld} {a : BridgeAction}

/-! ## Steps -/

theorem outcomes_act (w : SocketWorld) (a : BridgeAction) :
    outcomes (w.act a).2.history = outcomes w.history ++ ((w.act a).1.bind BridgeReply.outcome).toList := by
  unfold BifrostSystem.outcomes
  exact filterMap_snoc ..

theorem fills_act (w : SocketWorld) (a : BridgeAction) : fills w.history <+: fills (w.act a).2.history := by
  unfold BifrostSystem.fills
  refine ⟨_, (filterMap_snoc ..).symm⟩

/-- **Nothing has been received** from `w` to `w'`. -/
structure Silent (w w' : SocketWorld) : Prop where
  results : w'.results = w.results
  outcomes : outcomes w'.history = outcomes w.history
  fills : fills w.history <+: fills w'.history

theorem Silent.trans {w'' : SocketWorld} (h : Silent w w') (h' : Silent w' w'') : Silent w w'' :=
  ⟨h'.results.trans h.results, h'.outcomes.trans h.outcomes, h.fills.trans h'.fills⟩

/-- A step that answers nothing about packets. -/
theorem silent_act (w : SocketWorld) (hnone : (w.system.step a).1.bind BridgeReply.outcome = none) :
    Silent w (w.act a).2 := by
  refine ⟨rfl, ?_, fills_act w a⟩
  rw [outcomes_act]
  show outcomes w.history ++ ((w.system.step a).1.bind BridgeReply.outcome).toList = _
  rw [hnone]
  exact List.append_nil _

/-- **Nothing done to the user either**: it stands where it stood, and has what it had. -/
structure Apart (w w' : SocketWorld) : Prop extends Silent w w' where
  receiver : w'.system.receiver = w.system.receiver
  packets : w'.system.packets = w.system.packets

theorem Apart.refl (w : SocketWorld) : Apart w w := ⟨⟨rfl, rfl, List.prefix_refl _⟩, rfl, rfl⟩

theorem Apart.trans {w'' : SocketWorld} (h : Apart w w') (h' : Apart w' w'') : Apart w w'' :=
  ⟨h.toSilent.trans h'.toSilent, h'.receiver.trans h.receiver, h'.packets.trans h.packets⟩

/-- A step of somebody else. -/
theorem step_apart {s : BifrostSystem} (ha : a.receives = false) :
    (s.step a).2.receiver = s.receiver ∧ (s.step a).2.packets = s.packets ∧
      (s.step a).1.bind BridgeReply.outcome = none := by
  cases a with
  | tryReceive => cases ha
  | drop n => cases ha
  | receiver => cases ha
  | transmit payload =>
      simp only [BifrostSystem.step]
      split
      · split <;> exact ⟨rfl, rfl, rfl⟩
      · exact ⟨rfl, rfl, rfl⟩
  | copy i =>
      simp only [BifrostSystem.step, BifrostSystem.copyByte]
      split
      · split <;> exact ⟨rfl, rfl, rfl⟩
      · exact ⟨rfl, rfl, rfl⟩
  | transmitter =>
      simp only [BifrostSystem.step, BifrostSystem.transmitterStep]
      split
      · exact ⟨rfl, rfl, rfl⟩
      · split <;> exact ⟨rfl, rfl, rfl⟩
      · split <;> exact ⟨rfl, rfl, rfl⟩
      · exact ⟨rfl, rfl, rfl⟩
      · exact ⟨rfl, rfl, rfl⟩
  | fillByte i byte =>
      simp only [BifrostSystem.step, BifrostSystem.fill]
      split <;> exact ⟨rfl, rfl, rfl⟩
  | fillLength length =>
      simp only [BifrostSystem.step, BifrostSystem.fill]
      split <;> exact ⟨rfl, rfl, rfl⟩
  | fillReady =>
      simp only [BifrostSystem.step, BifrostSystem.fillReady]
      split <;> exact ⟨rfl, rfl, rfl⟩
  | drainByte i =>
      simp only [BifrostSystem.step, BifrostSystem.drainByte]
      split <;> exact ⟨rfl, rfl, rfl⟩
  | drainFree =>
      simp only [BifrostSystem.step, BifrostSystem.drainFree]
      split <;> exact ⟨rfl, rfl, rfl⟩

theorem act_apart (w : SocketWorld) (ha : a.receives = false) : Apart w (w.act a).2 := by
  obtain ⟨hreceiver, hpackets, hout⟩ := step_apart (s := w.system) ha
  exact ⟨silent_act w hout, hreceiver, hpackets⟩

theorem others_apart (env : Surroundings) (w : SocketWorld) : Apart w (w.others env) := by
  have hall : ∀ (l : List BridgeAction) (w₁ : SocketWorld), (∀ a ∈ l, a.receives = false) →
      Apart w₁ (l.foldl (fun w a => (w.act a).2) w₁) := by
    intro l
    induction l with
    | nil => exact fun w₁ _ => .refl w₁
    | cons a l ih =>
        intro w₁ hl
        have ha := hl a List.mem_cons_self
        exact (act_apart w₁ ha).trans (ih _ fun b hb => hl b (List.mem_cons_of_mem _ hb))
  have hstart : Apart w { w with tick := w.tick + 1 } := ⟨⟨rfl, rfl, List.prefix_refl _⟩, rfl, rfl⟩
  exact hstart.trans (hall _ _ (env.apart w.tick))

/-! ## Calls -/

/-- **A call has returned** `reply`, and the user is between two calls. -/
structure Answered (w : SocketWorld) (reply : BridgeReply) (w' : SocketWorld) : Prop where
  receiver : w'.system.receiver = .idle
  results : w'.results = w.results
  outcomes : outcomes w'.history = outcomes w.history ++ reply.outcome.toList
  fills : fills w.history <+: fills w'.history

/-- The last access of a call. -/
theorem finish_last (env : Surroundings) (w : SocketWorld) (reply : BridgeReply) (fuel : Nat)
    (hreply : ((w.others env).system.step .receiver).1 = some reply)
    (hidle : ((w.others env).system.step .receiver).2.receiver = .idle) :
    ∃ w', finish env (fuel + 1) w = (some reply, w') ∧ Answered w reply w' ∧
      w'.system = ((w.others env).system.step .receiver).2 := by
  have hothers := others_apart env w
  refine ⟨(w.access env .receiver).2, ?_, ⟨hidle, hothers.results, ?_, hothers.fills.trans (fills_act ..)⟩, rfl⟩
  · rw [finish]
    unfold access act
    simp only [hreply]
  · unfold access
    rw [outcomes_act, hothers.outcomes]
    show _ ++ (((w.others env).system.step .receiver).1.bind BridgeReply.outcome).toList = _
    rw [hreply]
    rfl

theorem Answered.earlier {w₁ : SocketWorld} {reply : BridgeReply} (hs : Silent w w₁) (h : Answered w₁ reply w') :
    Answered w reply w' := by
  refine ⟨h.receiver, h.results.trans hs.results, ?_, hs.fills.trans h.fills⟩
  rw [h.outcomes, hs.outcomes]

/-- An access that returns nothing. -/
theorem access_silent (hnone : ((w.others env).system.step a).1 = none) : Silent w (w.access env a).2 := by
  refine (others_apart env w).toSilent.trans (silent_act _ ?_)
  rw [hnone]
  rfl

/-- An access in the middle of a call. -/
theorem finish_next (env : Surroundings) (w : SocketWorld) (pc : ReceivePc) (fuel : Nat)
    (hnone : ((w.others env).system.step .receiver).1 = none)
    (hpc : ((w.others env).system.step .receiver).2.receiver = pc)
    (hpackets : ((w.others env).system.step .receiver).2.packets = (w.others env).system.packets) :
    ∃ w₁, finish env (fuel + 1) w = finish env fuel w₁ ∧ w₁.system.receiver = pc ∧
      w₁.system.packets = w.system.packets ∧ Silent w w₁ := by
  refine ⟨(w.access env .receiver).2, ?_, hpc, hpackets.trans (others_apart env w).packets, access_silent hnone⟩
  rw [finish]
  unfold access act
  simp only [hnone]

/-- Giving a descriptor back. -/
theorem finish_emptying (env : Surroundings) {index : Nat} {path : Release}
    (hpc : w.system.receiver = .emptying index path) (fuel : Nat) :
    ∃ w', finish env (fuel + 3) w = (some path.reply, w') ∧ Answered w path.reply w' ∧
      w'.system.packets = w.system.packets := by
  have hat : (w.others env).system.receiver = .emptying index path := (others_apart env w).receiver.trans hpc
  obtain ⟨w₁, hrest₁, hpc₁, hpackets₁, hback₁⟩ := finish_next env w (.releasing index path)
    (fuel + 2) (by simp only [BifrostSystem.step, BifrostSystem.receiverStep, hat])
    (by simp only [BifrostSystem.step, BifrostSystem.receiverStep, hat])
    (by simp only [BifrostSystem.step, BifrostSystem.receiverStep, hat])
  have hat₁ : (w₁.others env).system.receiver = .releasing index path := (others_apart env w₁).receiver.trans hpc₁
  obtain ⟨w₂, hrest₂, hpc₂, hpackets₂, hback₂⟩ := finish_next env w₁ (.advancing index path)
    (fuel + 1) (by simp only [BifrostSystem.step, BifrostSystem.receiverStep, hat₁])
    (by simp only [BifrostSystem.step, BifrostSystem.receiverStep, hat₁])
    (by simp only [BifrostSystem.step, BifrostSystem.receiverStep, hat₁])
  have hat₂ : (w₂.others env).system.receiver = .advancing index path := (others_apart env w₂).receiver.trans hpc₂
  obtain ⟨w₃, hrest₃, hanswered, hring⟩ := finish_last env w₂ path.reply fuel
    (by simp only [BifrostSystem.step, BifrostSystem.receiverStep, hat₂]; cases path <;> rfl)
    (by simp only [BifrostSystem.step, BifrostSystem.receiverStep, hat₂])
  refine ⟨w₃, ?_, (hanswered.earlier hback₂).earlier hback₁, ?_⟩
  · rw [hrest₁, hrest₂, hrest₃]
  · rw [hring]
    simp only [BifrostSystem.step, BifrostSystem.receiverStep, hat₂]
    exact ((others_apart env w₂).packets.trans hpackets₂).trans hpackets₁

/-- **What `try_read` comes back with.** -/
inductive Read (w : SocketWorld) : BridgeReply → SocketWorld → Prop where
  | nothing {w' : SocketWorld} (h : Answered w (.received (.ok none)) w')
      (hpackets : w'.system.packets = w.system.packets)
      (hempty : w.system.packets = [] → (fills w.history).length ≤ (outcomes w.history).length) :
      Read w (.received (.ok none)) w'
  | packet {bytes : List U8} {p : ReceivedPacket} {w' : SocketWorld}
      (h : Answered w (.received (.ok (some bytes))) w') (hnone : w.system.packets = [])
      (hpackets : w'.system.packets = [p]) : Read w (.received (.ok (some bytes))) w'
  | refused {w' : SocketWorld} (h : Answered w (.received (.error .invalidHardwareLength)) w')
      (hnone : w.system.packets = []) (hpackets : w'.system.packets = []) :
      Read w (.received (.error .invalidHardwareLength)) w'

theorem Read.earlier {w₁ : SocketWorld} {reply : BridgeReply} (h : Read w₁ reply w') (hs : Silent w w₁)
    (hpackets : w₁.system.packets = w.system.packets) : Read w reply w' := by
  cases h with
  | nothing h hpackets' hempty =>
      refine .nothing (h.earlier hs) (hpackets'.trans hpackets) fun hnone => ?_
      have hle := hempty (hpackets.trans hnone)
      rw [hs.outcomes] at hle
      exact Nat.le_trans hs.fills.length_le hle
  | packet h hnone hpackets' => exact .packet (h.earlier hs) (hpackets.symm.trans hnone) hpackets'
  | refused h hnone hpackets' => exact .refused (h.earlier hs) (hpackets.symm.trans hnone) hpackets'

/-- From the compare-exchange on. -/
theorem finish_claimed (env : Surroundings) {index : Nat} (hpc : w.system.receiver = .claimed index)
    (hnone : w.system.packets = []) (fuel : Nat) :
    ∃ reply w', finish env (fuel + 4) w = (some reply, w') ∧ Read w reply w' := by
  have hothers := others_apart env w
  have hat : (w.others env).system.receiver = .claimed index := hothers.receiver.trans hpc
  have hpackets : (w.others env).system.packets = [] := hothers.packets.trans hnone
  by_cases hlong : maximumFrameBytes < ((w.others env).system.ring.receive (entryOf index)).length.toNat
  · have hstep : (w.others env).system.step .receiver
        = (none, { (w.others env).system with receiver := .emptying index .discard }) := by
      simp only [BifrostSystem.step, BifrostSystem.receiverStep, hat, if_pos hlong]
    obtain ⟨w₁, hrest, hpc₁, hpackets₁, hback⟩ := finish_next env w (.emptying index .discard)
      (fuel + 3) (by rw [hstep]) (by rw [hstep]) (by rw [hstep])
    obtain ⟨w', hrest', hanswered, hpackets'⟩ := finish_emptying env hpc₁ fuel
    refine ⟨_, w', hrest.trans hrest', .refused (hanswered.earlier hback) hnone ?_⟩
    rw [hpackets', hpackets₁, hnone]
  · have hstep : ∃ packet bytes, (w.others env).system.step .receiver
        = (some (.received (.ok (some bytes))),
          { (w.others env).system with receiver := .idle, packets := (w.others env).system.packets ++ [packet] }) := by
      simp only [BifrostSystem.step, BifrostSystem.receiverStep, hat, if_neg hlong]
      exact ⟨_, _, rfl⟩
    obtain ⟨packet, bytes, hstep⟩ := hstep
    obtain ⟨w', hret, hanswered, hring⟩ := finish_last env w
      (.received (.ok (some bytes))) (fuel + 3) (by rw [hstep]) (by rw [hstep])
    refine ⟨_, w', hret, .packet (p := packet) hanswered hnone ?_⟩
    rw [hring, hstep]
    show (w.others env).system.packets ++ [packet] = _
    rw [hpackets]
    rfl

/-- The compare-exchange finds a packet, if there is one and the user holds none. -/
theorem finish_loaded (env : Surroundings) {index : Nat} (hpc : w.system.receiver = .loaded index) (fuel : Nat) :
    ∃ reply w', finish env (fuel + 5) w = (some reply, w') ∧ Read w reply w' := by
  have hothers := others_apart env w
  have hat : (w.others env).system.receiver = .loaded index := hothers.receiver.trans hpc
  obtain ⟨q, hold, received, hreceives, hfills, houtcomes⟩ := BifrostSystem.receives_run (w.others env).run
  by_cases hready : ((w.others env).system.ring.receive (entryOf index)).state = .ready
  · -- a packet that the user holds would be in the way
    have hnone : w.system.packets = [] := by
      rw [← hothers.packets]
      by_contra hheld
      have huser := hreceives.user
      rw [hat] at huser
      generalize (w.others env).system.packets = packets at huser hheld
      cases huser with
      | loaded => exact hheld rfl
      | looking hc hf hle =>
          obtain ⟨fill, -, hs, -⟩ := hreceives.held (by simp)
          rw [entryOf_mod, hs] at hready
          cases hready
    have hstep : ((w.others env).system.step .receiver).1 = none ∧
        ((w.others env).system.step .receiver).2.receiver = .claimed index ∧
        ((w.others env).system.step .receiver).2.packets = (w.others env).system.packets := by
      simp only [BifrostSystem.step, BifrostSystem.receiverStep, hat, if_pos hready, and_self]
    obtain ⟨w₁, hrest, hpc₁, hpackets₁, hback⟩ := finish_next env w (.claimed index) (fuel + 4)
      hstep.1 hstep.2.1 hstep.2.2
    have hnone₁ : w₁.system.packets = [] := hpackets₁.trans hnone
    obtain ⟨reply, w', hrest', hread⟩ := finish_claimed env hpc₁ hnone₁ fuel
    exact ⟨reply, w', hrest.trans hrest', hread.earlier hback hpackets₁⟩
  · have hstep : (w.others env).system.step .receiver
        = (some (.received (.ok none)), { (w.others env).system with receiver := .idle }) := by
      simp only [BifrostSystem.step, BifrostSystem.receiverStep, hat, if_neg hready]
    obtain ⟨w', hret, hanswered, hring⟩ := finish_last env w
      (.received (.ok none)) (fuel + 4) (by rw [hstep]) (by rw [hstep])
    refine ⟨_, w', hret, .nothing hanswered ?_ ?_⟩
    · rw [hring, hstep]
      exact hothers.packets
    · intro hnone
      have hall := BifrostSystem.received_all hreceives (hothers.packets.trans hnone) (a := .receiver) (by rw [hstep])
      have hlen := congrArg List.length houtcomes
      rw [hall, List.take_length, List.length_map, hfills, hothers.outcomes] at hlen
      rw [← hlen]
      exact hothers.fills.length_le

/-- `try_read` returns, with what there is. -/
theorem tryRead_read (env : Surroundings) (hidle : w.system.receiver = .idle) :
    ∃ reply w', w.tryRead env = (some reply, w') ∧ Read w reply w' := by
  have hothers := others_apart env w
  have hat : (w.others env).system.receiver = .idle := hothers.receiver.trans hidle
  have hstep : ((w.others env).system.step .tryReceive).1 = none ∧
      (∃ index, ((w.others env).system.step .tryReceive).2.receiver = .loaded index) ∧
      ((w.others env).system.step .tryReceive).2.packets = (w.others env).system.packets := by
    simp only [BifrostSystem.step, hat, and_true, true_and]
    exact ⟨_, rfl⟩
  obtain ⟨hnone, ⟨index, hpc⟩, hpackets⟩ := hstep
  obtain ⟨reply, w', hret, hread⟩ := finish_loaded env (w := (w.access env .tryReceive).2) hpc 0
  exact ⟨reply, w', hret, hread.earlier (access_silent hnone) (hpackets.trans hothers.packets)⟩

/-- The drop of the one packet. -/
theorem dropPacket_answered (env : Surroundings) {p : ReceivedPacket} (hidle : w.system.receiver = .idle)
    (hp : w.system.packets = [p]) :
    Answered w .dropped (w.dropPacket env) ∧ (w.dropPacket env).system.packets = [] := by
  have hothers := others_apart env w
  have hat : (w.others env).system.receiver = .idle := hothers.receiver.trans hidle
  have hpackets : (w.others env).system.packets = [p] := hothers.packets.trans hp
  have hstep : (w.others env).system.step (.drop 0) = (none, { (w.others env).system with
      packets := [], receiver := .emptying p.index .drop }) := by
    simp only [BifrostSystem.step, hat, hpackets]
    rfl
  have hpc : (w.access env (.drop 0)).2.system.receiver = .emptying p.index .drop := by
    show ((w.others env).system.step (.drop 0)).2.receiver = _
    rw [hstep]
  have hgone : (w.access env (.drop 0)).2.system.packets = [] := by
    show ((w.others env).system.step (.drop 0)).2.packets = _
    rw [hstep]
  obtain ⟨w', hret, hanswered, hsame⟩ := finish_emptying env hpc 0
  have heq : w.dropPacket env = w' := congrArg Prod.snd hret
  rw [heq]
  exact ⟨hanswered.earlier (access_silent (by rw [hstep])), hsame.trans hgone⟩

end SocketWorld

end Slope.Net
