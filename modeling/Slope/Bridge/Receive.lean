import Slope.Bridge.Ring

/-!
# `Bridge.Receive` — the receive ring as a queue of fills

Position `k` of the device's fills lives in descriptor `k % 256`. `Receives` says what each descriptor of the
window from the oldest unreleased fill is like, and where the user stands. The device's store of `READY`
enqueues a fill and the user's store of `DEVICE_OWNED` dequeues it; the outcome of the fill has been returned
before the second for a packet, and is returned after it for a length out of range, so the number of outcomes
is counted on its own.
-/

namespace Slope.Bridge

/-- What `try_receive` should make of a fill. -/
def Fill.outcome (fill : Fill) : Except BridgeError (List U8) :=
  if fill.length.toNat ≤ maximumFrameBytes then .ok (frame fill.buffer fill.length.toNat)
  else .error .invalidHardwareLength

theorem Fill.outcome_of_le {fill : Fill} (h : fill.length.toNat ≤ maximumFrameBytes) :
    fill.outcome = .ok (frame fill.buffer fill.length.toNat) := if_pos h

theorem Fill.outcome_of_lt {fill : Fill} (h : maximumFrameBytes < fill.length.toNat) :
    fill.outcome = .error .invalidHardwareLength := if_neg (Nat.not_le_of_lt h)

namespace BridgeReply

/-- The fill that the device completed. -/
def fill : BridgeReply → Option Fill
  | filled f => some f
  | _ => none

/-- The outcome of `try_receive`, unless it found nothing. -/
def outcome : BridgeReply → Option (Except BridgeError (List U8))
  | received (.ok (some bytes)) => some (.ok bytes)
  | received (.ok none) => none
  | received (.error e) => some (.error e)
  | _ => none

end BridgeReply

theorem entryOf_mod (k : Nat) : entryOf (k % ringEntries) = entryOf k := ringSlot_mod

theorem toNat_nextIndex (k : Nat) : (nextIndex (k % ringEntries)).toNat = (k + 1) % ringEntries := by
  have hlt : (k + 1) % ringEntries < 2 ^ 32 := Nat.lt_trans (Nat.mod_lt _ ringEntries_pos) (by decide)
  unfold nextIndex
  rw [Nat.mod_add_mod, BitVec.toNat_ofNat, Nat.mod_eq_of_lt hlt]

/-! ## The representation -/

abbrev FillQueue := Fifo Fill ringEntries

/-- What the user has of the oldest fill: nothing, the descriptor as it was filled, or the descriptor with its
    length gone. -/
inductive Hold where
  | none
  | kept
  | emptied

/-- The descriptor of position `k`. -/
inductive ReceiveEntry (q : FillQueue) (hold : Hold) (k : Nat) (d : DmaDescriptor ReceiveState) : Prop where
  | device (hk : q.published.length ≤ k) (hs : d.state = .deviceOwned)
  | ready {fill : Fill} (hk : q.published[k]? = some fill) (hfirst : k = q.taken → hold = .none)
      (hs : d.state = .ready) (hb : d.buffer = fill.buffer) (hl : d.length = fill.length)
  | held {fill : Fill} (hk : q.published[k]? = some fill) (hfirst : k = q.taken) (hhold : hold ≠ .none)
      (hs : d.state = .userHeld) (hb : d.buffer = fill.buffer) (hl : hold = .kept → d.length = fill.length)

/-- What the user holds of the oldest fill does not matter to the other descriptors. -/
theorem ReceiveEntry.other {q : FillQueue} {hold hold' : Hold} {k : Nat} {d : DmaDescriptor ReceiveState}
    (h : ReceiveEntry q hold k d) (hne : k ≠ q.taken) : ReceiveEntry q hold' k d := by
  cases h with
  | device hk hs => exact .device hk hs
  | ready hk hfirst hs hb hl => exact .ready hk (fun hj => absurd hj hne) hs hb hl
  | held hk hfirst => exact absurd hfirst hne

/-- How many outcomes a release is ahead of the queue: a packet was returned before it is dropped. -/
def Release.ahead : Release → Nat
  | drop => 1
  | discard => 0

/-- Where the user stands, which packets it has, what it holds and how many outcomes it was given. -/
inductive ReceiverAt (q : FillQueue) (consumer : U32) : ReceivePc → List ReceivedPacket → Hold → Nat → Prop where
  | idle (hc : consumer.toNat = q.taken % ringEntries) : ReceiverAt q consumer .idle [] .none q.taken
  | loaded (hc : consumer.toNat = q.taken % ringEntries) :
      ReceiverAt q consumer (.loaded (q.taken % ringEntries)) [] .none q.taken
  | claimed (hc : consumer.toNat = q.taken % ringEntries) (hlt : q.taken < q.published.length) :
      ReceiverAt q consumer (.claimed (q.taken % ringEntries)) [] .kept q.taken
  | holding {fill : Fill} (hc : consumer.toNat = q.taken % ringEntries)
      (hf : q.published[q.taken]? = some fill) (hle : fill.length.toNat ≤ maximumFrameBytes) :
      ReceiverAt q consumer .idle [⟨q.taken % ringEntries, fill.length.toNat⟩] .kept (q.taken + 1)
  | looking {fill : Fill} (hc : consumer.toNat = q.taken % ringEntries)
      (hf : q.published[q.taken]? = some fill) (hle : fill.length.toNat ≤ maximumFrameBytes) :
      ReceiverAt q consumer (.loaded (q.taken % ringEntries))
        [⟨q.taken % ringEntries, fill.length.toNat⟩] .kept (q.taken + 1)
  | emptying {fill : Fill} {path : Release} (hc : consumer.toNat = q.taken % ringEntries)
      (hf : q.published[q.taken]? = some fill)
      (hbad : path = .discard → maximumFrameBytes < fill.length.toNat) :
      ReceiverAt q consumer (.emptying (q.taken % ringEntries) path) [] .kept (q.taken + path.ahead)
  | releasing {fill : Fill} {path : Release} (hc : consumer.toNat = q.taken % ringEntries)
      (hf : q.published[q.taken]? = some fill)
      (hbad : path = .discard → maximumFrameBytes < fill.length.toNat) :
      ReceiverAt q consumer (.releasing (q.taken % ringEntries) path) [] .emptied (q.taken + path.ahead)
  | advancing {fill : Fill} {path : Release} {k : Nat} (ht : q.taken = k + 1)
      (hc : consumer.toNat = k % ringEntries) (hf : q.published[k]? = some fill)
      (hbad : path = .discard → maximumFrameBytes < fill.length.toNat) :
      ReceiverAt q consumer (.advancing (k % ringEntries) path) [] .none (k + path.ahead)

section

variable {q : FillQueue} {consumer : U32} {pc : ReceivePc} {packets : List ReceivedPacket} {hold : Hold}
  {received : Nat}

theorem ReceiverAt.received_le (h : ReceiverAt q consumer pc packets hold received) :
    received ≤ q.published.length := by
  have hle := q.taken_le
  have hget : ∀ {k : Nat} {fill : Fill}, q.published[k]? = some fill → k + 1 ≤ q.published.length :=
    fun hf => (List.getElem?_eq_some_iff.mp hf).1
  have hahead : ∀ path : Release, path.ahead ≤ 1 := by
    intro path
    cases path with
    | drop => exact Nat.le_refl 1
    | discard => exact Nat.zero_le 1
  cases h with
  | idle => exact hle
  | loaded => exact hle
  | claimed => exact hle
  | holding hc hf => exact hget hf
  | looking hc hf => exact hget hf
  | emptying hc hf => exact Nat.le_trans (Nat.add_le_add_left (hahead _) _) (hget hf)
  | releasing hc hf => exact Nat.le_trans (Nat.add_le_add_left (hahead _) _) (hget hf)
  | advancing ht hc hf => exact Nat.le_trans (Nat.add_le_add_left (hahead _) _) (hget hf)

/-- Only a fill can be held. -/
theorem ReceiverAt.lt_of_hold (h : ReceiverAt q consumer pc packets hold received) (hhold : hold ≠ .none) :
    q.taken < q.published.length := by
  have hget : ∀ {fill : Fill}, q.published[q.taken]? = some fill → q.taken < q.published.length :=
    fun hf => (List.getElem?_eq_some_iff.mp hf).1
  cases h with
  | idle => exact absurd rfl hhold
  | loaded => exact absurd rfl hhold
  | claimed hc hlt => exact hlt
  | holding hc hf => exact hget hf
  | looking hc hf => exact hget hf
  | emptying hc hf => exact hget hf
  | releasing hc hf => exact hget hf
  | advancing => exact absurd rfl hhold

/-- A fill more does not matter to the user. -/
theorem ReceiverAt.push (h : ReceiverAt q consumer pc packets hold received) (fill : Fill)
    (hroom : q.published.length < q.taken + ringEntries) :
    ReceiverAt (q.push fill hroom) consumer pc packets hold received := by
  cases h with
  | idle hc => exact .idle hc
  | loaded hc => exact .loaded hc
  | claimed hc hlt => exact .claimed hc (Nat.lt_of_lt_of_le hlt (by simp [Fifo.push]))
  | holding hc hf hle => exact .holding hc (Fifo.getElem?_push hf) hle
  | looking hc hf hle => exact .looking hc (Fifo.getElem?_push hf) hle
  | emptying hc hf hbad => exact .emptying hc (Fifo.getElem?_push hf) hbad
  | releasing hc hf hbad => exact .releasing hc (Fifo.getElem?_push hf) hbad
  | advancing ht hc hf hbad => exact .advancing ht hc (Fifo.getElem?_push hf) hbad

end

/-- **The receive half stands for the queue `q`**, `received` of whose fills have been returned. -/
structure Receives (q : FillQueue) (hold : Hold) (received : Nat) (s : BifrostSystem) : Prop where
  entries : Covers ringEntries_pos s.ring.receive q.taken (ReceiveEntry q hold)
  device : s.device.fillNext = q.published.length
  user : ReceiverAt q s.ring.receiveConsumer s.receiver s.packets hold received

section

variable {q : FillQueue} {hold : Hold} {received : Nat} {s s' : BifrostSystem}

/-- **Frame.** What touches neither the receive ring nor its user leaves the queue alone. -/
theorem Receives.frame (h : Receives q hold received s) (hring : s'.ring.receive = s.ring.receive)
    (hidx : s'.ring.receiveConsumer = s.ring.receiveConsumer) (hpc : s'.receiver = s.receiver)
    (hpackets : s'.packets = s.packets) (hdev : s'.device.fillNext = s.device.fillNext) :
    Receives q hold received s' := by
  refine ⟨?_, ?_, ?_⟩
  · rw [hring]
    exact h.entries
  · rw [hdev]
    exact h.device
  · rw [hidx, hpc, hpackets]
    exact h.user

/-- The oldest descriptor in use. -/
theorem Receives.first (h : Receives q hold received s) :
    ReceiveEntry q hold q.taken (s.ring.receive (entryOf q.taken)) :=
  h.entries q.taken (Nat.le_refl _) (by have := ringEntries_pos; omega)

/-- A descriptor that the device finds its own is the next of the window. -/
theorem Receives.room (h : Receives q hold received s) (hs : s.filling.state = .deviceOwned) :
    q.published.length < q.taken + ringEntries := by
  have hpos := ringEntries_pos
  by_contra hfull
  have hslot : s.filling = s.ring.receive (entryOf q.taken) := by
    unfold BifrostSystem.filling
    rw [h.device]
    exact congrArg s.ring.receive (Fifo.ringSlot_full hfull)
  rw [hslot] at hs
  cases h.first with
  | device hk => omega
  | ready hk hfirst hs' => cases hs.symm.trans hs'
  | held hk hfirst hhold hs' => cases hs.symm.trans hs'

/-! ## The device -/

/-- The device writes into a descriptor that it owns. -/
theorem Receives.fill (h : Receives q hold received s)
    (f : DmaDescriptor ReceiveState → DmaDescriptor ReceiveState) (hf : ∀ d, (f d).state = d.state) :
    Receives q hold received (s.fill f) := by
  unfold BifrostSystem.fill
  by_cases hs : s.filling.state = .deviceOwned
  · rw [if_pos hs]
    refine ⟨?_, h.device, h.user⟩
    show Covers ringEntries_pos (Function.update s.ring.receive (entryOf s.device.fillNext) _) _ _
    rw [h.device]
    refine h.entries.update q.taken_le (h.room hs) ?_ fun j d _ _ _ hd => hd
    exact .device (Nat.le_refl _) ((hf _).trans hs)
  · rw [if_neg hs]
    exact h

/-- The store of `READY` enqueues what is in the descriptor. -/
theorem Receives.fillReady (h : Receives q hold received s) (hs : s.filling.state = .deviceOwned) :
    Receives (q.push ⟨s.filling.buffer, s.filling.length⟩ (h.room hs)) hold received s.fillReady.2 := by
  unfold BifrostSystem.fillReady
  rw [if_pos hs]
  refine ⟨?_, ?_, h.user.push _ _⟩
  · show Covers ringEntries_pos (Function.update s.ring.receive (entryOf s.device.fillNext) _) _ _
    rw [h.device]
    refine h.entries.update q.taken_le (h.room hs) ?_ fun j d _ _ hne hd => ?_
    · refine .ready List.getElem?_concat_length (fun hn => ?_) rfl rfl rfl
      -- a held fill would lie below the new one
      by_contra hhold
      have hlt := h.user.lt_of_hold hhold
      have hn' : q.published.length = q.taken := hn
      omega
    · cases hd with
      | device hk hs' =>
          refine .device ?_ hs'
          show (q.published ++ [_]).length ≤ j
          rw [List.length_append, List.length_singleton]
          omega
      | ready hk hfirst hs' hb hl => exact .ready (Fifo.getElem?_push hk) hfirst hs' hb hl
      | held hk hfirst hhold hs' hb hl => exact .held (Fifo.getElem?_push hk) hfirst hhold hs' hb hl
  · show s.device.fillNext + 1 = (q.published ++ [_]).length
    rw [h.device, List.length_append, List.length_singleton]

/-! ## The user -/

/-- The compare-exchange finds a fill. -/
theorem Receives.claim (h : Receives q .none received s) (hs : (s.ring.receive (entryOf q.taken)).state = .ready) :
    q.taken < q.published.length ∧
      Covers ringEntries_pos (Function.update s.ring.receive (entryOf q.taken)
        { s.ring.receive (entryOf q.taken) with state := .userHeld }) q.taken (ReceiveEntry q .kept) := by
  cases h.first with
  | device hk hs' => cases hs.symm.trans hs'
  | held hk hfirst hhold hs' => cases hs.symm.trans hs'
  | ready hk hfirst hs' hb hl =>
      refine ⟨(List.getElem?_eq_some_iff.mp hk).1, ?_⟩
      refine h.entries.update (Nat.le_refl _) (by have := ringEntries_pos; omega) ?_ ?_
      · exact .held hk rfl (by simp) rfl hb fun _ => hl
      · exact fun j d _ _ hne hd => hd.other hne

/-- A descriptor that is held shows its fill. -/
theorem Receives.held (h : Receives q hold received s) (hhold : hold ≠ .none) :
    ∃ fill, q.published[q.taken]? = some fill ∧ (s.ring.receive (entryOf q.taken)).state = .userHeld ∧
      (s.ring.receive (entryOf q.taken)).buffer = fill.buffer ∧
      (hold = .kept → (s.ring.receive (entryOf q.taken)).length = fill.length) := by
  cases h.first with
  | device hk => have := h.user.lt_of_hold hhold; omega
  | ready hk hfirst => exact absurd (hfirst rfl) hhold
  | held hk hfirst hhold hs hb hl => exact ⟨_, hk, hs, hb, hl⟩

/-- The length of a held descriptor is stored. -/
theorem Receives.empty (h : Receives q hold received s) (hhold : hold ≠ .none) :
    Covers ringEntries_pos (Function.update s.ring.receive (entryOf q.taken)
      { s.ring.receive (entryOf q.taken) with length := 0 }) q.taken (ReceiveEntry q .emptied) := by
  obtain ⟨fill, hf, hs, hb, -⟩ := h.held hhold
  refine h.entries.update (Nat.le_refl _) (by have := ringEntries_pos; omega) ?_ ?_
  · exact .held hf rfl (by simp) hs hb (by simp)
  · exact fun j d _ _ hne hd => hd.other hne

/-- The store of `DEVICE_OWNED` dequeues the fill. -/
theorem Receives.release (h : Receives q hold received s) (hlt : q.taken < q.published.length) :
    Covers ringEntries_pos (Function.update s.ring.receive (entryOf q.taken)
      { s.ring.receive (entryOf q.taken) with state := .deviceOwned }) (q.pop hlt).taken
      (ReceiveEntry (q.pop hlt) .none) := by
  refine h.entries.recycle (.device q.bounded rfl) fun j d hj _ hd => ?_
  cases hd with
  | device hk hs => exact .device hk hs
  | ready hk hfirst hs hb hl => exact .ready hk (fun _ => rfl) hs hb hl
  | held hk hfirst => exact absurd hfirst (Nat.ne_of_gt hj)

/-! ## Steps -/

/-- What a step says about the fills and their outcomes is what it adds to both. -/
def Delivers (q : FillQueue) (received : Nat) (reply : Option BridgeReply) (s' : BifrostSystem) : Prop :=
  ∃ q' hold' received', Receives q' hold' received' s' ∧
    q'.published = q.published ++ (reply.bind BridgeReply.fill).toList ∧
    (q'.published.take received').map Fill.outcome
      = (q.published.take received).map Fill.outcome ++ (reply.bind BridgeReply.outcome).toList

/-- Nothing is filled and nothing returned. -/
theorem Receives.quiet {q' : FillQueue} {hold' : Hold} {reply : Option BridgeReply}
    (h : Receives q' hold' received s') (hq : q'.published = q.published)
    (hfill : reply.bind BridgeReply.fill = none) (hout : reply.bind BridgeReply.outcome = none) :
    Delivers q received reply s' := by
  refine ⟨q', hold', received, h, ?_, ?_⟩
  · rw [hfill, hq]
    simp
  · rw [hout, hq]
    simp

/-- A step of the other half. -/
theorem Receives.elsewhere {reply : Option BridgeReply} (h : Receives q hold received s)
    (hring : s'.ring.receive = s.ring.receive) (hidx : s'.ring.receiveConsumer = s.ring.receiveConsumer)
    (hpc : s'.receiver = s.receiver) (hpackets : s'.packets = s.packets)
    (hdev : s'.device.fillNext = s.device.fillNext) (hfill : reply.bind BridgeReply.fill = none)
    (hout : reply.bind BridgeReply.outcome = none) : Delivers q received reply s' :=
  (h.frame hring hidx hpc hpackets hdev).quiet rfl hfill hout

/-- The next outcome is returned. -/
theorem Receives.deliver {q' : FillQueue} {hold' : Hold} {reply : BridgeReply} {k : Nat} {fill : Fill}
    (h : Receives q' hold' (k + 1) s') (hq : q'.published = q.published) (hf : q.published[k]? = some fill)
    (hfill : reply.fill = none) (hout : reply.outcome = some fill.outcome) :
    Delivers q k (some reply) s' := by
  refine ⟨q', hold', k + 1, h, ?_, ?_⟩
  · rw [Option.bind_some, hfill, hq]
    simp
  · rw [Option.bind_some, hout, hq, List.take_add_one, hf]
    simp

theorem delivers_tryReceive (h : Receives q hold received s) :
    Delivers q received (s.step .tryReceive).1 (s.step .tryReceive).2 := by
  obtain ⟨ring, receiver, packets, transmitter, device⟩ := s
  cases receiver with
  | idle =>
      obtain ⟨hent, hdev, huser⟩ := h
      refine Receives.quiet ⟨hent, hdev, ?_⟩ rfl rfl rfl
      show ReceiverAt q ring.receiveConsumer (.loaded (ring.receiveConsumer.toNat % ringEntries)) _ _ _
      cases huser with
      | idle hc =>
          rw [hc, Nat.mod_mod]
          exact .loaded hc
      | holding hc hf hle =>
          rw [hc, Nat.mod_mod]
          exact .looking hc hf hle
  | _ => exact h.quiet rfl rfl rfl

theorem delivers_drop (h : Receives q hold received s) (n : Nat) :
    Delivers q received (s.step (.drop n)).1 (s.step (.drop n)).2 := by
  obtain ⟨ring, receiver, packets, transmitter, device⟩ := s
  cases receiver with
  | idle =>
      obtain ⟨hent, hdev, huser⟩ := h
      cases huser with
      | idle hc => exact Receives.quiet ⟨hent, hdev, .idle hc⟩ rfl rfl rfl
      | holding hc hf hle =>
          cases n with
          | zero => exact Receives.quiet ⟨hent, hdev, .emptying hc hf (by simp)⟩ rfl rfl rfl
          | succ n => exact Receives.quiet ⟨hent, hdev, .holding hc hf hle⟩ rfl rfl rfl
  | _ => exact h.quiet rfl rfl rfl

theorem delivers_receiver (h : Receives q hold received s) :
    Delivers q received (s.step .receiver).1 (s.step .receiver).2 := by
  obtain ⟨ring, receiver, packets, transmitter, device⟩ := s
  obtain ⟨hent, hdev, huser⟩ := h
  have h : Receives q hold received ⟨ring, receiver, packets, transmitter, device⟩ := ⟨hent, hdev, huser⟩
  simp only [BifrostSystem.step, BifrostSystem.receiverStep]
  cases huser with
  | idle hc => exact h.quiet rfl rfl rfl
  | holding hc hf hle => exact h.quiet rfl rfl rfl
  | loaded hc =>
      simp only [entryOf_mod]
      by_cases hs : (ring.receive (entryOf q.taken)).state = .ready
      · obtain ⟨hlt, hcov⟩ := h.claim hs
        rw [if_pos hs]
        refine Receives.quiet ⟨?_, hdev, .claimed hc hlt⟩ rfl rfl rfl
        simp only [BifrostRing.storeReceive, entryOf_mod]
        exact hcov
      · rw [if_neg hs]
        exact Receives.quiet ⟨hent, hdev, .idle hc⟩ rfl rfl rfl
  | looking hc hf hle =>
      -- the user's own packet is in the way
      obtain ⟨fill, -, hs, -⟩ := h.held (by simp)
      simp only [entryOf_mod]
      rw [if_neg (by rw [hs]; simp)]
      exact Receives.quiet ⟨hent, hdev, .holding hc hf hle⟩ rfl rfl rfl
  | claimed hc hlt =>
      obtain ⟨fill, hf, -, hb, hl⟩ := h.held (by simp)
      have hlen := hl rfl
      simp only [entryOf_mod] at hlen ⊢
      simp only [hlen]
      by_cases hbad : maximumFrameBytes < fill.length.toNat
      · rw [if_pos hbad]
        exact Receives.quiet ⟨hent, hdev, .emptying hc hf fun _ => hbad⟩ rfl rfl rfl
      · rw [if_neg hbad]
        have hle := Nat.le_of_not_lt hbad
        refine Receives.deliver ⟨hent, hdev, .holding hc hf hle⟩ rfl hf rfl ?_
        rw [Fill.outcome_of_le hle]
        have hbuffer : (ring.receive (entryOf q.taken)).buffer = fill.buffer := hb
        simp only [BridgeReply.outcome, ReceivedPacket.bytes, entryOf_mod, hbuffer]
  | emptying hc hf hbad =>
      refine Receives.quiet ⟨?_, hdev, .releasing hc hf hbad⟩ rfl rfl rfl
      simp only [BifrostRing.storeReceive, entryOf_mod]
      exact h.empty (by simp)
  | releasing hc hf hbad =>
      have hlt := (List.getElem?_eq_some_iff.mp hf).1
      simp only [BifrostRing.storeReceive, entryOf_mod]
      have hnext : ReceiverAt (q.pop hlt) _ (.advancing (q.taken % ringEntries) _) [] .none _ :=
        .advancing rfl hc hf hbad
      exact Receives.quiet ⟨h.release hlt, hdev, hnext⟩ rfl rfl rfl
  | @advancing fill path k ht hc hf hbad =>
      have hidx : (nextIndex (k % ringEntries)).toNat = q.taken % ringEntries := by
        rw [toNat_nextIndex, ht]
      cases path with
      | drop =>
          refine Receives.quiet ⟨hent, hdev, ?_⟩ rfl rfl rfl
          show ReceiverAt q (nextIndex (k % ringEntries)) .idle [] .none (k + 1)
          rw [← ht]
          exact .idle hidx
      | discard =>
          refine Receives.deliver ⟨hent, hdev, ?_⟩ rfl hf rfl ?_
          · show ReceiverAt q (nextIndex (k % ringEntries)) .idle [] .none (k + 1)
            rw [← ht]
            exact .idle hidx
          · rw [Fill.outcome_of_lt (hbad rfl)]
            rfl

/-- **Invariant step** of the receive half. -/
theorem delivers_step (h : Receives q hold received s) (a : BridgeAction) :
    Delivers q received (s.step a).1 (s.step a).2 := by
  cases a with
  | tryReceive => exact delivers_tryReceive h
  | drop n => exact delivers_drop h n
  | receiver => exact delivers_receiver h
  | fillByte i byte =>
      simp only [BifrostSystem.step]
      exact Receives.quiet (h.fill _ fun _ => rfl) rfl rfl rfl
  | fillLength length =>
      simp only [BifrostSystem.step]
      exact Receives.quiet (h.fill _ fun _ => rfl) rfl rfl rfl
  | fillReady =>
      by_cases hs : s.filling.state = .deviceOwned
      · refine ⟨_, hold, received, h.fillReady hs, ?_, ?_⟩
        · simp only [BifrostSystem.step, BifrostSystem.fillReady, if_pos hs]
          rfl
        · simp only [BifrostSystem.step, BifrostSystem.fillReady, if_pos hs]
          show ((q.published ++ [_]).take received).map Fill.outcome = _ ++ []
          rw [List.take_append_of_le_length h.user.received_le, List.append_nil]
      · simp only [BifrostSystem.step, BifrostSystem.fillReady, if_neg hs]
        exact h.quiet rfl rfl rfl
  | transmit payload =>
      simp only [BifrostSystem.step]
      split
      · split
        · exact h.quiet rfl rfl rfl
        · apply h.elsewhere <;> rfl
      · exact h.quiet rfl rfl rfl
  | copy i =>
      refine Receives.quiet (h.frame ?_ ?_ ?_ ?_ ?_) rfl rfl rfl
      all_goals
        simp only [BifrostSystem.step, BifrostSystem.copyByte]
        split
        · split <;> rfl
        · rfl
  | transmitter =>
      simp only [BifrostSystem.step, BifrostSystem.transmitterStep]
      split
      · exact h.quiet rfl rfl rfl
      · split
        · apply h.elsewhere <;> rfl
        · apply h.elsewhere <;> rfl
      · split
        · apply h.elsewhere <;> rfl
        · exact h.quiet rfl rfl rfl
      · apply h.elsewhere <;> rfl
      · apply h.elsewhere <;> rfl
  | drainByte i =>
      simp only [BifrostSystem.step, BifrostSystem.drainByte]
      split
      · apply h.elsewhere <;> rfl
      · exact h.quiet rfl rfl rfl
  | drainFree =>
      simp only [BifrostSystem.step, BifrostSystem.drainFree]
      split
      · apply h.elsewhere <;> rfl
      · exact h.quiet rfl rfl rfl

/-- A packet shows the latest outcome, and there is at most one. -/
theorem Receives.packet (h : Receives q hold received s) :
    s.packets.length ≤ 1 ∧ ∀ p ∈ s.packets,
      ((q.published.take received).map Fill.outcome).getLast? = some (.ok (p.bytes s.ring)) := by
  have hshows : ∀ {fill : Fill}, hold = .kept → q.published[q.taken]? = some fill →
      fill.length.toNat ≤ maximumFrameBytes → received = q.taken + 1 →
      ((q.published.take received).map Fill.outcome).getLast?
        = some (.ok (ReceivedPacket.bytes ⟨q.taken % ringEntries, fill.length.toNat⟩ s.ring)) := by
    intro fill hkept hf hle hrec
    obtain ⟨fill', hf', -, hb, -⟩ := h.held (by rw [hkept]; simp)
    obtain rfl := Option.some.inj (hf.symm.trans hf')
    rw [hrec, List.take_add_one, hf, ReceivedPacket.bytes, entryOf_mod, hb]
    simp [Fill.outcome_of_le hle]
  obtain ⟨ring, receiver, packets, transmitter, device⟩ := s
  cases h.user with
  | holding hc hf hle => exact ⟨Nat.le_refl 1, by simpa using hshows rfl hf hle rfl⟩
  | looking hc hf hle => exact ⟨Nat.le_refl 1, by simpa using hshows rfl hf hle rfl⟩
  | _ => exact ⟨Nat.zero_le 1, by simp⟩

end

end Slope.Bridge
