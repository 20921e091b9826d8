import Slope.Bridge.SharedTransmit

/-!
# `Bridge.Threads` — every run of the ring that threads share

The step lemmas of `Bridge.Shared`, `Bridge.Account` and `Bridge.SharedTransmit`, carried over whole runs, and put
together in `ring_shared`: what is left of the ring's two queues when the index is only a hint. A single user gets the
fills in order and the device gets its payloads in order (`Bridge.Handover`); threads get each of them once.
-/

namespace Slope.Bridge.SharedBifrost

variable {τ : Type} [DecidableEq τ]

/-! ## Readings of a history -/

abbrev SharedEvent (τ : Type) := Event (SharedBifrost τ) (τ × BridgeAction) (Option BridgeReply)

/-- The device's fills. -/
def fills (h : List (SharedEvent τ)) : List Fill := h.filterMap fun e => e.result.bind BridgeReply.fill

/-- What `try_receive` returned to any party, but for `Ok(None)`. -/
def outcomes (h : List (SharedEvent τ)) : List Outcome := h.filterMap fun e => e.result.bind BridgeReply.outcome

/-- The payloads for which `transmit` returned `Ok` to any party. -/
def sent (h : List (SharedEvent τ)) : List (List U8) := h.filterMap fun e => e.result.bind BridgeReply.sent

/-- The frames that the device drained. -/
def drained (h : List (SharedEvent τ)) : List (List U8) := h.filterMap fun e => e.result.bind BridgeReply.frame

/-- The bytes of the packets that `try_receive` returned to party `t`, oldest first. -/
def framesTo (t : τ) (h : List (SharedEvent τ)) : List (List U8) :=
  h.filterMap fun e => if e.call.1 = t then e.result.bind BridgeReply.packet else none

variable {h : List (SharedEvent τ)} {s : SharedBifrost τ}
  {allowed : List (SharedEvent τ) → τ × BridgeAction → Prop}

/-! ## Receiving -/

theorem claims_run (hr : Run step allowed .new h s) : Claims s := by
  refine hr.state_invariant Claims ?_ ?_
  · refine ⟨?_, ?_, ?_⟩
    · intro t e he
      exact absurd he List.not_mem_nil
    · intro t
      exact List.nodup_nil
    · intro t t' _ e he
      exact absurd he List.not_mem_nil
  · intro s i hc
    exact hc.step (BifrostSystem.receiveMove_step (s.seenBy i.1) i.2)

theorem accounted_run [Fintype τ] (hr : Run step allowed .new h s) : Accounted (fills h) (outcomes h) s := by
  refine hr.invariant (fun h s => Accounted (fills h) (outcomes h) s) ?_ ?_
  · have howed : Custody.total (new : SharedBifrost τ).owed = 0 := Custody.total_zero fun _ => rfl
    have hwaiting : Custody.total (new : SharedBifrost τ).waiting = 0 :=
      Custody.total_zero fun _ => waits_of_ne (by simp [new, BifrostRing.new])
    unfold Accounted
    rw [howed, hwaiting]
    rfl
  · intro h s i hr _ ih
    unfold fills outcomes
    rw [filterMap_snoc, filterMap_snoc]
    exact ih.step (claims_run hr) (BifrostSystem.receiveMove_step (s.seenBy i.1) i.2)

theorem shown_run (hr : Run step allowed .new h s) (t : τ) : (s.shown t).Sublist (framesTo t h) := by
  refine hr.invariant (fun h s => (s.shown t).Sublist (framesTo t h)) (.refl _) ?_
  intro h s i hr _ ih
  have hc := claims_run hr
  have hm := BifrostSystem.receiveMove_step (s.seenBy i.1) i.2
  unfold framesTo
  rw [filterMap_snoc]
  show ((s.after i.1 _).shown t).Sublist (framesTo t h ++ (if i.1 = t then _ else none).toList)
  by_cases hmine : i.1 = t
  · rw [if_pos hmine]
    subst hmine
    exact shown_self hc hm ih
  · rw [if_neg hmine, shown_other hc hm (Ne.symm hmine)]
    exact ih.trans (List.sublist_append_left _ _)

/-! ## Transmitting -/

theorem builds_run (hr : Run step allowed .new h s) : Builds s := by
  refine hr.state_invariant Builds ?_ ?_
  · refine ⟨?_, ?_, ?_, ?_⟩
    · intro t index hindex
      exact absurd hindex List.not_mem_nil
    · intro t t' _ i hi
      exact absurd hi List.not_mem_nil
    · intro t
      trivial
    · intro i hi
      exact absurd hi (Finset.notMem_empty _)
  · intro s i hb
    exact hb.step (BifrostSystem.transmitMove_step (s.seenBy i.1) i.2)

theorem shipped_run [Fintype τ] (hr : Run step allowed .new h s) : Shipped (sent h) (drained h) s := by
  refine hr.invariant (fun h s => Shipped (sent h) (drained h) s) ?_ ?_
  · have hcarried : Custody.total (new : SharedBifrost τ).carried = 0 :=
      Custody.total_zero fun _ => carries_of_ne (by simp [new, BifrostRing.new])
    have hflight : Custody.total (new : SharedBifrost τ).inFlight = 0 := Custody.total_zero fun _ => rfl
    unfold Shipped
    rw [hcarried, hflight]
    rfl
  · intro h s i hr _ ih
    unfold sent drained
    rw [filterMap_snoc, filterMap_snoc]
    exact ih.step (builds_run hr) (BifrostSystem.transmitMove_step (s.seenBy i.1) i.2)

/-! ## The ring between threads -/

/-- **Threads share the ring.** For any parties and every interleaving of their accesses and the device's: each
    receive descriptor is in the hands of at most one party and then of no call or packet twice, and no two calls of
    `transmit` write into one descriptor; the packets that a party keeps show, in order, bytes that `try_receive`
    gave it; what was given out, with what a call has taken and what waits in the ring, is what the device has filled;
    and the frames drained, with those left to drain, are the payloads of the calls of `transmit` that succeeded, with
    those of the calls that have handed theirs over and are still to return. -/
theorem ring_shared [Fintype τ] (hr : Run step (fun _ _ => True) .new h s) :
    (∀ t, (s.party t).holdings.Nodup) ∧
    (∀ t t', t ≠ t' → (s.party t).holdings.Disjoint (s.party t').holdings) ∧
    (∀ t t', t ≠ t' → ∀ i ∈ (s.party t).transmitter.built, ∀ i' ∈ (s.party t').transmitter.built,
      entryOf i ≠ entryOf i') ∧
    (∀ t, (s.shown t).Sublist (framesTo t h)) ∧
    Multiset.ofList (outcomes h) + Custody.total s.owed + Custody.total s.waiting
      = Multiset.ofList ((fills h).map Fill.outcome) ∧
    Multiset.ofList (drained h) + Custody.total s.carried = Multiset.ofList (sent h) + Custody.total s.inFlight := by
  have hc := claims_run hr
  refine ⟨hc.once, ?_, (builds_run hr).apart, shown_run hr, accounted_run hr, shipped_run hr⟩
  intro t t' hne e he he'
  exact hc.apart t t' hne e he he'

theorem maximumFrameBytes_pos : 0 < maximumFrameBytes := by decide

/-- Two parties load the same index. One of them takes the packet, and the other comes back empty and takes the next
    one once the first is dropped; in `transmit` the other finds the descriptor taken. -/
def sharedActions : List (Bool × BridgeAction) :=
  let first : Fin maximumFrameBytes := ⟨0, maximumFrameBytes_pos⟩
  [(true, .fillByte first 7), (true, .fillLength 1), (true, .fillReady),
    (true, .fillByte first 8), (true, .fillLength 1), (true, .fillReady),
    (true, .tryReceive), (false, .tryReceive), (true, .receiver), (false, .receiver), (true, .receiver),
    (true, .drop 0), (true, .receiver), (true, .receiver), (true, .receiver),
    (false, .tryReceive), (false, .receiver), (false, .receiver),
    (true, .transmit [9]), (false, .transmit [6]), (false, .transmitter), (true, .transmitter), (false, .copy first),
    (false, .transmitter), (false, .transmitter), (false, .transmitter), (true, .drainByte first), (true, .drainFree)]

theorem ring_shared_sample :
    framesTo true (trace step .new sharedActions) = [[7]] ∧ framesTo false (trace step .new sharedActions) = [[8]] ∧
      sent (trace step .new sharedActions) = [[6]] ∧
      ((finalState step .new sharedActions).shown false).Sublist [[8]] ∧
      Multiset.ofList (drained (trace step .new sharedActions)) +
          Custody.total (finalState step .new sharedActions).carried
        = {[6]} + Custody.total (finalState step .new sharedActions).inFlight := by
  obtain ⟨-, -, -, hshown, -, hshipped⟩ := ring_shared (Run.replay step .new sharedActions)
  exact ⟨rfl, rfl, rfl, hshown false, hshipped⟩

end Slope.Bridge.SharedBifrost
