import Slope.Bridge.Transmit

/-!
# `Bridge.Handover` — what the user and the device hand over, for every interleaving

The two queues of `Bridge.Receive` and `Bridge.Transmit`, read off along whole runs: what `try_receive`
returns are the device's fills, what the device drains are the payloads of `transmit`, the packet that the user
holds keeps its bytes, and a `transmit` that fails has stored nothing.
-/

namespace Slope.Bridge

/-- The user's steps in `transmit`. -/
def BridgeAction.transmits : BridgeAction → Bool
  | .transmit _ => true
  | .copy _ => true
  | .transmitter => true
  | _ => false

/-- The user is between the compare-exchange of `transmit` and its return. -/
def TransmitPc.inside : TransmitPc → Bool
  | .building _ _ _ => true
  | .handing _ _ => true
  | .advancing _ _ => true
  | _ => false

/-- The step in which a reply is given. -/
def BridgeReply.comesFrom : BridgeReply → BridgeAction → Bool
  | .received _, .receiver => true
  | .dropped, .receiver => true
  | .transmitted _ _, .transmit _ => true
  | .transmitted _ _, .transmitter => true
  | .filled _, .fillReady => true
  | .drained _, .drainFree => true
  | _, _ => false

namespace BifrostSystem

variable {s : BifrostSystem} {a : BridgeAction}

/-! ## Which step says what -/

theorem step_reply {reply : BridgeReply} (h : (s.step a).1 = some reply) : reply.comesFrom a = true := by
  cases a with
  | tryReceive => simp only [step] at h; split at h <;> cases h
  | drop n => simp only [step] at h; split at h <;> cases h
  | receiver =>
      simp only [step, receiverStep] at h
      split at h
      · cases h
      · split at h <;> cases h
        rfl
      · split at h <;> cases h
        rfl
      · cases h
      · cases h
      · split at h <;> cases h <;> rfl
  | transmit payload =>
      simp only [step] at h
      split at h
      · split at h <;> cases h
        rfl
      · cases h
  | copy i => cases h
  | transmitter =>
      simp only [step, transmitterStep] at h
      split at h
      · cases h
      · split at h <;> cases h
        rfl
      · split at h <;> cases h
      · cases h
      · cases h
        rfl
  | fillByte i byte => cases h
  | fillLength length => cases h
  | fillReady =>
      simp only [step, fillReady] at h
      split at h <;> cases h
      rfl
  | drainByte i => cases h
  | drainFree =>
      simp only [step, drainFree] at h
      split at h <;> cases h
      rfl

/-! ## Failed transmissions -/

theorem transmitter_step (ha : a.transmits = false) : (s.step a).2.transmitter = s.transmitter := by
  cases a with
  | transmit payload => cases ha
  | copy i => cases ha
  | transmitter => cases ha
  | tryReceive => simp only [step]; split <;> rfl
  | drop n => simp only [step]; split <;> rfl
  | receiver =>
      simp only [step, receiverStep]
      split
      · rfl
      · split <;> rfl
      · split <;> rfl
      · rfl
      · rfl
      · rfl
  | fillByte i byte => simp only [step, fill]; split <;> rfl
  | fillLength length => simp only [step, fill]; split <;> rfl
  | fillReady => simp only [step, fillReady]; split <;> rfl
  | drainByte i => simp only [step, drainByte]; split <;> rfl
  | drainFree => simp only [step, drainFree]; split <;> rfl

/-- A `transmit` past its compare-exchange stays there until it returns. -/
theorem inside_step (hin : s.transmitter.inside = true)
    (hnot : ∀ payload result, (s.step a).1 ≠ some (.transmitted payload result)) :
    (s.step a).2.transmitter.inside = true := by
  cases ha : a.transmits with
  | false =>
      rw [transmitter_step ha]
      exact hin
  | true =>
      obtain ⟨ring, receiver, packets, transmitter, device⟩ := s
      cases transmitter with
      | idle => cases hin
      | loaded => cases hin
      | building payload index pending =>
          cases a with
          | transmit payload => rfl
          | copy i => simp only [step, copyByte]; split <;> rfl
          | transmitter => simp only [step, transmitterStep]; split <;> rfl
          | _ => cases ha
      | handing payload index =>
          cases a with
          | transmit payload => rfl
          | copy i => rfl
          | transmitter => rfl
          | _ => cases ha
      | advancing payload index =>
          cases a with
          | transmit payload => rfl
          | copy i => rfl
          | transmitter => exact absurd rfl (hnot _ _)
          | _ => cases ha

/-- A step of `transmit` that does not get past its compare-exchange stores nothing. -/
theorem ring_step (ha : a.transmits = true) (hin : s.transmitter.inside = false)
    (hin' : (s.step a).2.transmitter.inside = false) : (s.step a).2.ring = s.ring := by
  obtain ⟨ring, receiver, packets, transmitter, device⟩ := s
  cases transmitter with
  | idle =>
      cases a with
      | transmit payload => simp only [step]; split <;> rfl
      | copy i => rfl
      | transmitter => rfl
      | _ => cases ha
  | loaded payload index =>
      cases a with
      | transmit payload => rfl
      | copy i => rfl
      | transmitter =>
          simp only [step, transmitterStep] at hin' ⊢
          split
          · next hfree =>
              rw [if_pos hfree] at hin'
              cases hin'
          · rfl
      | _ => cases ha
  | building => cases hin
  | handing => cases hin
  | advancing => cases hin

/-- A failed `transmit` has not got past its compare-exchange. -/
theorem failed_step {payload : List U8} {err : BridgeError}
    (hret : (s.step a).1 = some (.transmitted payload (.error err))) :
    s.transmitter.inside = false ∧ (s.step a).2.ring = s.ring := by
  cases a with
  | transmit payload' =>
      simp only [step] at hret ⊢
      split
      · next hpc =>
          rw [hpc]
          split <;> exact ⟨rfl, rfl⟩
      · next hpc =>
          split at hret
          · next hidle => exact absurd hidle hpc
          · cases hret
  | transmitter =>
      simp only [step, transmitterStep] at hret ⊢
      cases hpc : s.transmitter with
      | idle => simp [hpc] at hret
      | loaded payload' index =>
          simp only [hpc] at hret ⊢
          split
          · next hfree =>
              rw [if_pos hfree] at hret
              cases hret
          · exact ⟨rfl, rfl⟩
      | building payload' index pending =>
          simp only [hpc] at hret
          split at hret <;> cases hret
      | handing => simp [hpc] at hret
      | advancing => simp [hpc] at hret
  | _ => cases step_reply hret

/-! ## Packets -/

/-- While there is a packet, `try_receive` returns nothing else. -/
theorem outcome_of_packet {q : FillQueue} {hold : Hold} {received : Nat} (h : Receives q hold received s)
    (hpacket : s.packets ≠ []) (a : BridgeAction) : (s.step a).1.bind BridgeReply.outcome = none := by
  cases hreply : (s.step a).1 with
  | none => rfl
  | some reply =>
      cases reply with
      | received result =>
          cases a with
          | receiver =>
              rw [← hreply]
              obtain ⟨ring, receiver, packets, transmitter, device⟩ := s
              cases h.user with
              | holding => rfl
              | looking hc hf hle =>
                  obtain ⟨fill, -, hs, -⟩ := h.held (by simp)
                  simp only [step, receiverStep, entryOf_mod]
                  rw [if_neg (by rw [hs]; simp)]
                  rfl
              | _ => exact absurd rfl hpacket
          | _ => cases step_reply hreply
      | _ => rfl

/-- Without a packet, `try_receive` comes back empty only when every fill has been returned. -/
theorem received_all {q : FillQueue} {hold : Hold} {received : Nat} (h : Receives q hold received s)
    (hpackets : s.packets = []) (hret : (s.step a).1 = some (.received (.ok none))) :
    received = q.published.length := by
  cases a with
  | receiver =>
      obtain ⟨ring, receiver, packets, transmitter, device⟩ := s
      cases h.user with
      | loaded hc =>
          simp only [step, receiverStep, entryOf_mod] at hret
          cases h.first with
          | device hk => exact Nat.le_antisymm q.taken_le hk
          | ready hk hfirst hs =>
              rw [if_pos hs] at hret
              cases hret
          | held hk hfirst hhold => exact absurd rfl hhold
      | looking => cases hpackets
      | holding => cases hpackets
      | idle => cases hret
      | claimed =>
          simp only [step, receiverStep] at hret
          split at hret <;> cases hret
      | emptying => cases hret
      | releasing => cases hret
      | @advancing fill path => cases path <;> cases hret
  | _ => cases step_reply hret

/-! ## Whole runs -/

abbrev BridgeEvent := Event BifrostSystem BridgeAction (Option BridgeReply)

/-- The device's fills, oldest first. -/
def fills (h : List BridgeEvent) : List Fill := h.filterMap fun e => e.result.bind BridgeReply.fill

/-- What `try_receive` returned, but for `Ok(None)`, oldest first. -/
def outcomes (h : List BridgeEvent) : List (Except BridgeError (List U8)) :=
  h.filterMap fun e => e.result.bind BridgeReply.outcome

/-- The payloads for which `transmit` returned `Ok`, oldest first. -/
def sent (h : List BridgeEvent) : List (List U8) := h.filterMap fun e => e.result.bind BridgeReply.sent

/-- The frames that the device drained, oldest first. -/
def drained (h : List BridgeEvent) : List (List U8) := h.filterMap fun e => e.result.bind BridgeReply.frame

/-- `transmit` returns. -/
def Answers (e : BridgeEvent) : Prop := ∃ payload result, e.result = some (.transmitted payload result)

variable {h : List BridgeEvent} {allowed : List BridgeEvent → BridgeAction → Prop}

theorem receives_run (hr : Run step allowed .new h s) :
    ∃ q hold received, Receives q hold received s ∧ q.published = fills h ∧
      (q.published.take received).map Fill.outcome = outcomes h := by
  refine hr.invariant (fun h s => ∃ q hold received, Receives q hold received s ∧ q.published = fills h ∧
      (q.published.take received).map Fill.outcome = outcomes h) ?_ ?_
  · refine ⟨.empty, .none, 0, ⟨?_, rfl, .idle rfl⟩, rfl, rfl⟩
    exact fun k _ _ => .device (Nat.zero_le k) rfl
  · rintro h s a - - ⟨q, hold, received, hrec, hfills, hout⟩
    obtain ⟨q', hold', received', hrec', hpub, htake⟩ := delivers_step hrec a
    refine ⟨q', hold', received', hrec', ?_, ?_⟩
    · unfold fills at hfills ⊢
      rw [filterMap_snoc, ← hfills]
      exact hpub
    · unfold outcomes at hout ⊢
      rw [filterMap_snoc, ← hout]
      exact htake

theorem hands_run (hr : Run step allowed .new h s) : Hands (sent h) (drained h) s := by
  refine hr.invariant (fun h s => Hands (sent h) (drained h) s) ?_ ?_
  · refine ⟨.empty, false, ⟨?_, .idle rfl, rfl, ?_⟩, rfl, rfl⟩
    · exact fun k _ _ => .free (Nat.zero_le k) (fun _ => rfl) rfl
    · exact fun i hi => absurd hi (Finset.notMem_empty _)
  · intro h s a _ _ ih
    unfold sent drained
    rw [filterMap_snoc, filterMap_snoc]
    exact hands_step ih a

theorem inside_run {s' : BifrostSystem} (hr : Run step allowed s h s') (hin : s.transmitter.inside = true)
    (hnot : ∀ e ∈ h, ¬ Answers e) : s'.transmitter.inside = true := by
  induction hr with
  | start => exact hin
  | @call h s' a hr ha ih =>
      apply inside_step (ih fun e he => hnot e (List.mem_append_left _ he))
      intro payload result hret
      exact hnot _ (List.mem_append_right _ (List.mem_singleton_self _)) ⟨payload, result, hret⟩

/-- A `transmit` that fails has stored nothing, from its first step to its return. -/
theorem failed_untouched (hr : Run step (fun _ _ => True) .new h s)
    {h₁ between h₂ : List BridgeEvent} {e : BridgeEvent} {payload : List U8} {err : BridgeError}
    (hsplit : h = h₁ ++ between ++ e :: h₂) (hret : e.result = some (.transmitted payload (.error err)))
    (hnot : ∀ e' ∈ between, ¬ Answers e') {e' : BridgeEvent} (he' : e' ∈ between ++ [e])
    (hown : e'.call.transmits = true) : e'.post.ring = e'.pre.ring := by
  have hof : ∀ e'' ∈ h, e'' = Event.of step e''.pre e''.call := fun e'' he'' => hr.event_of he''
  have he := hof e (by rw [hsplit]; simp)
  rw [he] at hret
  obtain ⟨hout, hring⟩ := failed_step hret
  rcases List.mem_append.mp he' with hmem | hlast
  · -- had the call got past its compare-exchange, it would still be there when it returns
    obtain ⟨b₁, b₂, rfl⟩ := List.append_of_mem hmem
    have hcut : h = (h₁ ++ b₁) ++ e' :: (b₂ ++ e :: h₂) := by rw [hsplit]; simp
    have hafter := ((hr.cut hcut).2.2.cut rfl).1
    have hpost : e'.post.transmitter.inside = false := by
      by_contra hin
      have hstill := inside_run hafter (by simpa using hin) fun e'' he'' => hnot e'' (by simp [he''])
      rw [hout] at hstill
      cases hstill
    have hpre : e'.pre.transmitter.inside = false := by
      by_contra hin
      have he'' := hof e' (by rw [hcut]; simp)
      have hquiet : ∀ payload result, (step e'.pre e'.call).1 ≠ some (.transmitted payload result) := by
        intro payload result hret'
        exact hnot e' (by simp) ⟨payload, result, by rw [he'']; exact hret'⟩
      have hstill := inside_step (by simpa using hin) hquiet
      rw [he''] at hpost
      exact absurd (hstill.symm.trans hpost) (by simp)
    have he'' := hof e' (by rw [hcut]; simp)
    rw [he''] at hpost ⊢
    exact ring_step hown hpre hpost
  · rw [List.mem_singleton.mp hlast, he]
    exact hring

/-- A packet that stays keeps its bytes: it shows the latest outcome, and there is no later one. -/
theorem packet_kept (hr : Run step (fun _ _ => True) .new h s) {e : BridgeEvent} (he : e ∈ h)
    {p : ReceivedPacket} (hpre : p ∈ e.pre.packets) (hpost : p ∈ e.post.packets) :
    p.bytes e.post.ring = p.bytes e.pre.ring := by
  obtain ⟨h₁, h₂, rfl⟩ := List.append_of_mem he
  obtain ⟨q, hold, received, hrec, -, -⟩ := receives_run (hr.cut rfl).1
  obtain ⟨q', hold', received', hrec', -, htake⟩ := delivers_step hrec e.call
  rw [outcome_of_packet hrec (List.ne_nil_of_mem hpre), Option.toList_none, List.append_nil] at htake
  have hof : e = Event.of step e.pre e.call := hr.event_of he
  have hbefore := hrec.packet.2 p hpre
  have hafter := hrec'.packet.2 p (by rw [hof] at hpost; exact hpost)
  rw [htake, hbefore] at hafter
  rw [hof]
  exact (Except.ok.inj (Option.some.inj hafter)).symm

/-- While a payload is left, the device finds it. -/
theorem draining_iff (hr : Run step allowed .new h s) :
    s.draining.state = .deviceOwned ↔ drained h ≠ sent h ++ s.transmitter.inFlight := by
  obtain ⟨q, building, htrans, hpub, hdrained⟩ := hands_run hr
  rw [← hpub, hdrained]
  constructor
  · intro hs heq
    obtain ⟨payload, hf, -⟩ := htrans.oldest hs
    have hlt := (List.getElem?_eq_some_iff.mp hf).1
    have hlen := congrArg List.length heq
    rw [List.length_take] at hlen
    omega
  · intro hne
    have hlt : q.taken < q.published.length := by
      by_contra hge
      exact hne (List.take_of_length_le (Nat.le_of_not_lt hge))
    have hslot : s.draining = s.ring.transmit (entryOf q.taken) := by
      unfold draining
      rw [htrans.device]
    rw [hslot]
    cases htrans.first with
    | device hk hs => exact hs
    | building hk => omega
    | free hk => omega

/-- **The ring is two queues.** For every interleaving of the accesses of the user and the device: the outcomes
    of `try_receive` are the device's fills, in order, and it comes back empty only when all of them have been
    returned (or a packet is held); there is at most one packet, it shows the latest outcome, and its bytes do
    not change while it is held; the frames drained are, in order and intact, the payloads for which
    `transmit` returned `Ok`, among them at most the one that a call still to return has handed over, and while
    one is left the device finds it; and a `transmit` that fails has stored nothing. -/
theorem bridge_hands_over (hr : Run step (fun _ _ => True) .new h s) :
    outcomes h <+: (fills h).map Fill.outcome ∧
    (∀ h₁ e h₂, h = h₁ ++ e :: h₂ → e.result = some (.received (.ok none)) → e.pre.packets = [] →
      outcomes h₁ = (fills h₁).map Fill.outcome) ∧
    s.packets.length ≤ 1 ∧
    (∀ p ∈ s.packets, (outcomes h).getLast? = some (.ok (p.bytes s.ring))) ∧
    (∀ e ∈ h, ∀ p ∈ e.pre.packets, p ∈ e.post.packets → p.bytes e.post.ring = p.bytes e.pre.ring) ∧
    drained h <+: sent h ++ s.transmitter.inFlight ∧
    (s.transmitter = .idle → drained h <+: sent h) ∧
    (s.draining.state = .deviceOwned ↔ drained h ≠ sent h ++ s.transmitter.inFlight) ∧
    (∀ h₁ between e h₂ payload err, h = h₁ ++ between ++ e :: h₂ →
      e.result = some (.transmitted payload (.error err)) → (∀ e' ∈ between, ¬ Answers e') →
        ∀ e' ∈ between ++ [e], e'.call.transmits = true → e'.post.ring = e'.pre.ring) := by
  obtain ⟨q, hold, received, hrec, hfills, hout⟩ := receives_run hr
  have hdrained : drained h <+: sent h ++ s.transmitter.inFlight := by
    obtain ⟨q, building, -, hpub, htaken⟩ := hands_run hr
    rw [← hpub, htaken]
    exact List.take_prefix ..
  refine ⟨?_, ?_, hrec.packet.1, ?_, ?_, hdrained, ?_, draining_iff hr, ?_⟩
  · rw [← hout, ← hfills]
    exact (List.take_prefix ..).map _
  · intro h₁ e h₂ hsplit hret hpackets
    obtain ⟨q, hold, received, hrec, hfills, hout⟩ := receives_run (hr.cut hsplit).1
    have hof : e = Event.of step e.pre e.call := hr.event_of (by rw [hsplit]; simp)
    rw [hof] at hret
    rw [← hout, ← hfills, received_all hrec hpackets hret, List.take_length]
  · intro p hp
    rw [← hout]
    exact hrec.packet.2 p hp
  · exact fun e he p hpre hpost => packet_kept hr he hpre hpost
  · intro hidle
    rw [hidle] at hdrained
    simpa [TransmitPc.inFlight] using hdrained
  · intro h₁ between e h₂ payload err hsplit hret hnot e' he' hown
    exact failed_untouched hr hsplit hret hnot he' hown

/-- The device fills one byte and then a length out of range; the user takes the packet, asks in vain while it
    holds it, drops it and meets the bad length; a frame is drained before its `transmit` has returned. -/
def sampleActions : List BridgeAction :=
  let first : Fin maximumFrameBytes := ⟨0, by decide⟩
  [.fillByte first 7, .fillLength 1, .fillReady, .fillLength 4096, .fillReady,
    .tryReceive, .receiver, .receiver, .tryReceive, .receiver, .drop 0, .receiver, .receiver, .receiver,
    .tryReceive, .receiver, .receiver, .receiver, .receiver, .receiver,
    .transmit [], .transmit [9], .transmitter, .copy first, .transmitter, .transmitter,
    .drainByte first, .drainFree, .transmitter]

theorem bridge_hands_over_sample :
    outcomes (trace step .new sampleActions) = [.ok [7], .error .invalidHardwareLength] ∧
      drained (trace step .new sampleActions) = [[9]] ∧
      drained (trace step .new sampleActions) <+: sent (trace step .new sampleActions) := by
  have hr := Run.replay step .new sampleActions
  obtain ⟨-, -, -, -, -, -, hidle, -⟩ := bridge_hands_over hr
  exact ⟨rfl, rfl, hidle rfl⟩

end BifrostSystem

end Slope.Bridge
