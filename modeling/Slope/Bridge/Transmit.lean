import Slope.Bridge.Receive

/-!
# `Bridge.Transmit` — the transmit ring as a queue of payloads

The mirror image of `Bridge.Receive`: the user's store of `DEVICE_OWNED` enqueues a payload and the device's
store of `FREE` dequeues it. `transmit` returns only after its last store, that of the index, so between the
two the queue is one payload ahead of the calls that have returned.
-/

namespace Slope.Bridge

namespace BridgeReply

/-- The payload that `transmit` accepted. -/
def sent : BridgeReply → Option (List U8)
  | transmitted payload (.ok _) => some payload
  | _ => none

/-- The frame that the device drained. -/
def frame : BridgeReply → Option (List U8)
  | drained f => some f
  | _ => none

end BridgeReply

/-- The payload that is in the queue while its call has not returned. -/
def TransmitPc.inFlight : TransmitPc → List (List U8)
  | .advancing payload _ => [payload]
  | _ => []

/-- The buffer has the payload in it. -/
def Holds (buffer : FrameBuffer) (payload : List U8) : Prop :=
  payload.length ≤ maximumFrameBytes ∧
    ∀ i : Fin maximumFrameBytes, i.val < payload.length → buffer i = payload.getD i 0

theorem Holds.frame_eq {buffer : FrameBuffer} {payload : List U8} (h : Holds buffer payload) :
    frame buffer payload.length = payload := by
  obtain ⟨hle, hbytes⟩ := h
  apply List.ext_getElem
  · rw [frame, List.length_ofFn, Nat.min_eq_left hle]
  · intro i hi hi'
    simp only [frame, List.getElem_ofFn]
    rw [hbytes _ hi']
    simp [hi']

/-! ## The representation -/

abbrev PayloadQueue := Fifo (List U8) ringEntries

/-- The descriptor of position `k`. -/
inductive TransmitEntry (q : PayloadQueue) (building : Bool) (k : Nat) (d : DmaDescriptor TransmitState) :
    Prop where
  | device {payload : List U8} (hk : q.published[k]? = some payload) (hs : d.state = .deviceOwned)
      (hl : d.length.toNat = payload.length) (hb : Holds d.buffer payload)
  | building (hk : k = q.published.length) (hbuild : building = true) (hs : d.state = .building)
  | free (hk : q.published.length ≤ k) (hfirst : k = q.published.length → building = false)
      (hs : d.state = .free)

/-- Where the user stands, and what it has written of its payload into `buffer`, that of the next descriptor. -/
inductive TransmitterAt (q : PayloadQueue) (producer length : U32) (buffer : FrameBuffer) :
    TransmitPc → Bool → Prop where
  | idle (hp : producer.toNat = q.published.length % ringEntries) :
      TransmitterAt q producer length buffer .idle false
  | loaded {payload : List U8} (hp : producer.toNat = q.published.length % ringEntries)
      (hle : payload.length ≤ maximumFrameBytes) :
      TransmitterAt q producer length buffer (.loaded payload (q.published.length % ringEntries)) false
  | building {payload : List U8} {pending : Finset Nat}
      (hp : producer.toNat = q.published.length % ringEntries)
      (hroom : q.published.length < q.taken + ringEntries) (hle : payload.length ≤ maximumFrameBytes)
      (hbytes : ∀ i : Fin maximumFrameBytes, i.val < payload.length → i.val ∉ pending →
        buffer i = payload.getD i 0) :
      TransmitterAt q producer length buffer
        (.building payload (q.published.length % ringEntries) pending) true
  | handing {payload : List U8} (hp : producer.toNat = q.published.length % ringEntries)
      (hroom : q.published.length < q.taken + ringEntries) (hl : length.toNat = payload.length)
      (hb : Holds buffer payload) :
      TransmitterAt q producer length buffer (.handing payload (q.published.length % ringEntries)) true
  | advancing {payload : List U8} {k : Nat} (hn : q.published.length = k + 1)
      (hp : producer.toNat = k % ringEntries) :
      TransmitterAt q producer length buffer (.advancing payload (k % ringEntries)) false

/-- **The transmit half stands for the queue `q`.** -/
structure Transmits (q : PayloadQueue) (building : Bool) (s : BifrostSystem) : Prop where
  entries : Covers ringEntries_pos s.ring.transmit q.taken (TransmitEntry q building)
  user : TransmitterAt q s.ring.transmitProducer (s.ring.transmit (entryOf q.published.length)).length
    (s.ring.transmit (entryOf q.published.length)).buffer s.transmitter building
  device : s.device.drainNext = q.taken
  copied : ∀ i : Fin maximumFrameBytes, i.val ∈ s.device.copied →
    q.taken < q.published.length ∧ s.device.copy i = (s.ring.transmit (entryOf q.taken)).buffer i

section

variable {q : PayloadQueue} {building : Bool} {s s' : BifrostSystem}

/-- **Frame.** What touches neither the transmit ring nor its user leaves the queue alone. -/
theorem Transmits.frame (h : Transmits q building s) (hring : s'.ring.transmit = s.ring.transmit)
    (hidx : s'.ring.transmitProducer = s.ring.transmitProducer) (hpc : s'.transmitter = s.transmitter)
    (hnext : s'.device.drainNext = s.device.drainNext) (hcopied : s'.device.copied = s.device.copied)
    (hcopy : s'.device.copy = s.device.copy) : Transmits q building s' := by
  refine ⟨?_, ?_, ?_, ?_⟩
  · rw [hring]
    exact h.entries
  · rw [hring, hidx, hpc]
    exact h.user
  · rw [hnext]
    exact h.device
  · rw [hring, hcopied, hcopy]
    exact h.copied

/-- The oldest descriptor in use. -/
theorem Transmits.first (h : Transmits q building s) :
    TransmitEntry q building q.taken (s.ring.transmit (entryOf q.taken)) :=
  h.entries q.taken (Nat.le_refl _) (by have := ringEntries_pos; omega)

/-- The next descriptor is free only while the queue has room. -/
theorem Transmits.room (h : Transmits q building s)
    (hs : (s.ring.transmit (entryOf q.published.length)).state = .free) :
    q.published.length < q.taken + ringEntries := by
  have hpos := ringEntries_pos
  by_contra hfull
  have hslot : entryOf q.published.length = entryOf q.taken := Fifo.ringSlot_full hfull
  rw [hslot] at hs
  cases h.first with
  | device hk hs' => cases hs.symm.trans hs'
  | building hk => omega
  | free hk => omega

/-- A descriptor that the device finds its own has the oldest payload. -/
theorem Transmits.oldest (h : Transmits q building s) (hs : s.draining.state = .deviceOwned) :
    ∃ payload, q.published[q.taken]? = some payload ∧ s.draining.length.toNat = payload.length ∧
      Holds s.draining.buffer payload := by
  have hslot : s.draining = s.ring.transmit (entryOf q.taken) := by
    unfold BifrostSystem.draining
    rw [h.device]
  rw [hslot] at hs ⊢
  cases h.first with
  | device hk hs' hl hb => exact ⟨_, hk, hl, hb⟩
  | building hk hbuild hs' => cases hs.symm.trans hs'
  | free hk hfirst hs' => cases hs.symm.trans hs'

/-- The next descriptor is not the oldest, unless the queue is empty. -/
theorem entryOf_taken_ne (hlt : q.taken < q.published.length)
    (hroom : q.published.length < q.taken + ringEntries) : entryOf q.taken ≠ entryOf q.published.length := by
  intro heq
  have := slot_inj (Nat.le_refl _) (Nat.le_of_lt hlt) (by omega) hroom (congrArg Fin.val heq)
  omega

/-- The user stores into the next descriptor, which is not the one that the device drains. -/
theorem Transmits.copied_store (h : Transmits q building s)
    (hroom : q.published.length < q.taken + ringEntries) (d : DmaDescriptor TransmitState)
    (i : Fin maximumFrameBytes) (hi : i.val ∈ s.device.copied) :
    q.taken < q.published.length ∧ s.device.copy i =
      (Function.update s.ring.transmit (entryOf q.published.length) d (entryOf q.taken)).buffer i := by
  obtain ⟨hlt, hcopy⟩ := h.copied i hi
  refine ⟨hlt, ?_⟩
  rw [Function.update_of_ne (entryOf_taken_ne hlt hroom)]
  exact hcopy

/-! ## The user -/

/-- The compare-exchange finds a free descriptor. -/
theorem Transmits.claim (h : Transmits q false s)
    (hs : (s.ring.transmit (entryOf q.published.length)).state = .free) :
    Covers ringEntries_pos (Function.update s.ring.transmit (entryOf q.published.length)
      { s.ring.transmit (entryOf q.published.length) with state := .building }) q.taken
      (TransmitEntry q true) := by
  refine h.entries.update q.taken_le (h.room hs) (.building rfl rfl rfl) fun j d _ _ hne hd => ?_
  cases hd with
  | device hk hs hl hb => exact .device hk hs hl hb
  | building hk hbuild => cases hbuild
  | free hk hfirst hs => exact .free hk (fun hj => absurd hj hne) hs

/-- The user changes the descriptor that it builds. -/
theorem Transmits.build (h : Transmits q true s) (hroom : q.published.length < q.taken + ringEntries)
    {d : DmaDescriptor TransmitState} (hd : d.state = (s.ring.transmit (entryOf q.published.length)).state) :
    Covers ringEntries_pos (Function.update s.ring.transmit (entryOf q.published.length) d) q.taken
      (TransmitEntry q true) := by
  have hstate : (s.ring.transmit (entryOf q.published.length)).state = .building := by
    cases h.entries q.published.length q.taken_le hroom with
    | device hk => simp at hk
    | building hk hbuild hs => exact hs
    | free hk hfirst => cases hfirst rfl
  exact h.entries.update q.taken_le hroom (.building rfl rfl (hd.trans hstate)) fun j d _ _ _ hd => hd

/-- The store of `DEVICE_OWNED` enqueues the payload. -/
theorem Transmits.publish (h : Transmits q true s) (hroom : q.published.length < q.taken + ringEntries)
    {payload : List U8} (hl : (s.ring.transmit (entryOf q.published.length)).length.toNat = payload.length)
    (hb : Holds (s.ring.transmit (entryOf q.published.length)).buffer payload) :
    Covers ringEntries_pos (Function.update s.ring.transmit (entryOf q.published.length)
      { s.ring.transmit (entryOf q.published.length) with state := .deviceOwned }) q.taken
      (TransmitEntry (q.push payload hroom) false) := by
  have hlen : (q.push payload hroom).published.length = q.published.length + 1 := by
    simp [Fifo.push]
  refine h.entries.update q.taken_le hroom (.device List.getElem?_concat_length rfl hl hb) ?_
  intro j d _ _ hne hd
  cases hd with
  | device hk hs hl hb => exact .device (Fifo.getElem?_push hk) hs hl hb
  | building hk => exact absurd hk hne
  | free hk hfirst hs => exact .free (by rw [hlen]; omega) (fun _ => rfl) hs

/-! ## The device -/

/-- The store of `FREE` dequeues the payload. -/
theorem Transmits.release (h : Transmits q building s) (hlt : q.taken < q.published.length)
    (hroom : building = true → q.published.length < q.taken + ringEntries) :
    Covers ringEntries_pos (Function.update s.ring.transmit (entryOf q.taken)
      { s.ring.transmit (entryOf q.taken) with state := .free }) (q.pop hlt).taken
      (TransmitEntry (q.pop hlt) building) := by
  refine h.entries.recycle (.free q.bounded (fun hk => ?_) rfl) fun j d _ _ hd => ?_
  · -- the next descriptor is not being built: it was the device's until now
    cases building with
    | false => rfl
    | true =>
        have hk' : q.taken + ringEntries = q.published.length := hk
        have := hroom rfl
        omega
  · cases hd with
    | device hk hs hl hb => exact .device hk hs hl hb
    | building hk hbuild hs => exact .building hk hbuild hs
    | free hk hfirst hs => exact .free hk hfirst hs

section

variable {producer length : U32} {buffer : FrameBuffer} {pc : TransmitPc}

theorem TransmitterAt.room (h : TransmitterAt q producer length buffer pc building) (hb : building = true) :
    q.published.length < q.taken + ringEntries := by
  cases h with
  | idle => cases hb
  | loaded => cases hb
  | building hp hroom => exact hroom
  | handing hp hroom => exact hroom
  | advancing => cases hb

/-- The user does not see that a payload has left. -/
theorem TransmitterAt.pop {length' : U32} {buffer' : FrameBuffer}
    (h : TransmitterAt q producer length buffer pc building) (hlt : q.taken < q.published.length)
    (hsame : building = true → length' = length ∧ buffer' = buffer) :
    TransmitterAt (q.pop hlt) producer length' buffer' pc building := by
  cases h with
  | idle hp => exact .idle hp
  | loaded hp hle => exact .loaded hp hle
  | building hp hroom hle hbytes =>
      obtain ⟨rfl, rfl⟩ := hsame rfl
      exact .building hp (Nat.lt_of_lt_of_le hroom (by simp only [Fifo.pop]; omega)) hle hbytes
  | handing hp hroom hl hb =>
      obtain ⟨rfl, rfl⟩ := hsame rfl
      exact .handing hp (Nat.lt_of_lt_of_le hroom (by simp only [Fifo.pop]; omega)) hl hb
  | advancing hn hp => exact .advancing hn hp

end

/-! ## Steps -/

/-- The payloads whose `transmit` returned `Ok`, with the one in flight, are those enqueued; the frames drained
    are those dequeued. -/
def Hands (sent drained : List (List U8)) (s : BifrostSystem) : Prop :=
  ∃ q building, Transmits q building s ∧ q.published = sent ++ s.transmitter.inFlight ∧
    drained = q.published.take q.taken

variable {sent drained : List (List U8)}

/-- A step of the other half. -/
theorem Hands.elsewhere {reply : Option BridgeReply} (h : Hands sent drained s)
    (hring : s'.ring.transmit = s.ring.transmit) (hidx : s'.ring.transmitProducer = s.ring.transmitProducer)
    (hpc : s'.transmitter = s.transmitter) (hnext : s'.device.drainNext = s.device.drainNext)
    (hcopied : s'.device.copied = s.device.copied) (hcopy : s'.device.copy = s.device.copy)
    (hsent : reply.bind BridgeReply.sent = none) (hframe : reply.bind BridgeReply.frame = none) :
    Hands (sent ++ (reply.bind BridgeReply.sent).toList) (drained ++ (reply.bind BridgeReply.frame).toList) s' := by
  obtain ⟨q, building, htrans, hpub, hdrained⟩ := h
  refine ⟨q, building, htrans.frame hring hidx hpc hnext hcopied hcopy, ?_, ?_⟩
  · rw [hsent, hpc, hpub]
    simp
  · rw [hframe, hdrained]
    simp

/-- Nothing is returned and nothing drained. -/
theorem Transmits.quiet (h : Transmits q building s') (hpub : q.published = sent ++ s'.transmitter.inFlight)
    (hdrained : drained = q.published.take q.taken) : Hands (sent ++ []) (drained ++ []) s' := by
  rw [List.append_nil, List.append_nil]
  exact ⟨q, building, h, hpub, hdrained⟩

theorem hands_transmit (h : Hands sent drained s) (payload : List U8) :
    Hands (sent ++ ((s.step (.transmit payload)).1.bind BridgeReply.sent).toList)
      (drained ++ ((s.step (.transmit payload)).1.bind BridgeReply.frame).toList)
      (s.step (.transmit payload)).2 := by
  obtain ⟨ring, receiver, packets, transmitter, device⟩ := s
  cases transmitter with
  | idle =>
      simp only [BifrostSystem.step]
      by_cases hbad : payload = [] ∨ maximumFrameBytes < payload.length
      · rw [if_pos hbad]
        apply h.elsewhere <;> rfl
      · rw [if_neg hbad]
        obtain ⟨q, building, ⟨hent, huser, hdev, hcopied⟩, hpub, hdrained⟩ := h
        cases huser with
        | idle hp =>
            refine Transmits.quiet ⟨hent, ?_, hdev, hcopied⟩ hpub hdrained
            show TransmitterAt q _ _ _ (.loaded payload (ring.transmitProducer.toNat % ringEntries)) _
            rw [hp, Nat.mod_mod]
            exact .loaded hp (by omega)
  | _ => apply h.elsewhere <;> rfl

theorem hands_copy (h : Hands sent drained s) (i : Fin maximumFrameBytes) :
    Hands (sent ++ []) (drained ++ []) (s.copyByte i) := by
  obtain ⟨q, building, htrans, hpub, hdrained⟩ := h
  obtain ⟨ring, receiver, packets, transmitter, device⟩ := s
  cases transmitter with
  | building payload index pending =>
      simp only [BifrostSystem.copyByte]
      by_cases hi : i.val ∈ pending
      · rw [if_pos hi]
        cases htrans.user with
        | building hp hroom hle hbytes =>
            simp only [BifrostRing.storeTransmit, entryOf_mod]
            refine Transmits.quiet ⟨?_, .building hp hroom hle ?_, htrans.device, ?_⟩ hpub hdrained
            · exact htrans.build hroom rfl
            · intro j hj hpending
              -- the byte just copied, or one copied before
              simp only [Function.update_self]
              by_cases hji : j = i
              · subst hji
                rw [Function.update_self]
              · rw [Function.update_of_ne hji]
                apply hbytes j hj
                intro hmem
                exact hpending (Finset.mem_erase.mpr ⟨fun heq => hji (Fin.ext heq), hmem⟩)
            · exact htrans.copied_store hroom _
      · rw [if_neg hi]
        exact htrans.quiet hpub hdrained
  | _ => exact htrans.quiet hpub hdrained

theorem hands_transmitter (h : Hands sent drained s) :
    Hands (sent ++ (s.transmitterStep.1.bind BridgeReply.sent).toList)
      (drained ++ (s.transmitterStep.1.bind BridgeReply.frame).toList) s.transmitterStep.2 := by
  obtain ⟨q, building, htrans, hpub, hdrained⟩ := h
  obtain ⟨ring, receiver, packets, transmitter, device⟩ := s
  unfold BifrostSystem.transmitterStep
  cases htrans.user with
  | idle hp => exact htrans.quiet hpub hdrained
  | @loaded payload hp hle =>
      simp only [entryOf_mod]
      by_cases hs : (ring.transmit (entryOf q.published.length)).state = .free
      · rw [if_pos hs]
        have hroom := htrans.room hs
        simp only [BifrostRing.storeTransmit, entryOf_mod]
        refine Transmits.quiet ⟨?_, .building hp hroom hle ?_, htrans.device, ?_⟩ hpub hdrained
        · exact htrans.claim hs
        · intro i hi hpending
          exact absurd (Finset.mem_range.mpr hi) hpending
        · exact htrans.copied_store hroom _
      · rw [if_neg hs]
        exact Transmits.quiet ⟨htrans.entries, .idle hp, htrans.device, htrans.copied⟩ hpub hdrained
  | @building payload pending hp hroom hle hbytes =>
      simp only [entryOf_mod]
      by_cases hdone : pending = ∅
      · rw [if_pos hdone]
        simp only [BifrostRing.storeTransmit, entryOf_mod]
        refine Transmits.quiet ⟨?_, .handing hp hroom ?_ ?_, htrans.device, ?_⟩ hpub hdrained
        · exact htrans.build hroom rfl
        · simp only [Function.update_self]
          rw [BitVec.toNat_ofNat]
          exact Nat.mod_eq_of_lt (Nat.lt_of_le_of_lt hle (by decide))
        · simp only [Function.update_self]
          exact ⟨hle, fun i hi => hbytes i hi (by rw [hdone]; exact Finset.notMem_empty _)⟩
        · exact htrans.copied_store hroom _
      · rw [if_neg hdone]
        exact htrans.quiet hpub hdrained
  | @handing payload hp hroom hl hb =>
      simp only [BifrostRing.storeTransmit, entryOf_mod]
      have hlen : (q.push payload hroom).published.length = q.published.length + 1 := by
        simp [Fifo.push]
      have huser : ∀ length buffer, TransmitterAt (q.push payload hroom) ring.transmitProducer length buffer
          (.advancing payload (q.published.length % ringEntries)) false := fun _ _ => .advancing hlen hp
      refine Transmits.quiet ⟨htrans.publish hroom hl hb, huser _ _, htrans.device, ?_⟩ ?_ ?_
      · intro i hi
        obtain ⟨hlt, hcopy⟩ := htrans.copied_store hroom
          { ring.transmit (entryOf q.published.length) with state := .deviceOwned } i hi
        exact ⟨by rw [hlen]; exact Nat.lt_succ_of_lt hlt, hcopy⟩
      · show q.published ++ [payload] = sent ++ [payload]
        rw [hpub]
        simp [TransmitPc.inFlight]
      · show drained = (q.published ++ [payload]).take q.taken
        rw [List.take_append_of_le_length q.taken_le]
        exact hdrained
  | @advancing payload k hn hp =>
      refine ⟨q, false, ⟨htrans.entries, .idle ?_, htrans.device, htrans.copied⟩, ?_, ?_⟩
      · show (nextIndex (k % ringEntries)).toNat = _
        rw [toNat_nextIndex, hn]
      · rw [hpub]
        simp [TransmitPc.inFlight, BridgeReply.sent]
      · rw [hdrained]
        simp [BridgeReply.frame]

theorem hands_drainByte (h : Hands sent drained s) (i : Fin maximumFrameBytes) :
    Hands (sent ++ []) (drained ++ []) (s.drainByte i) := by
  obtain ⟨q, building, htrans, hpub, hdrained⟩ := h
  unfold BifrostSystem.drainByte
  by_cases hs : s.draining.state = .deviceOwned
  · rw [if_pos hs]
    obtain ⟨payload, hf, -, -⟩ := htrans.oldest hs
    refine Transmits.quiet ⟨htrans.entries, htrans.user, htrans.device, fun j hj => ?_⟩ hpub hdrained
    refine ⟨(List.getElem?_eq_some_iff.mp hf).1, ?_⟩
    by_cases hji : j = i
    · subst hji
      show Function.update s.device.copy j (s.draining.buffer j) j = _
      rw [Function.update_self, BifrostSystem.draining, htrans.device]
    · show Function.update s.device.copy i (s.draining.buffer i) j = _
      rw [Function.update_of_ne hji]
      have hold : j.val ∈ s.device.copied :=
        (Finset.mem_insert.mp hj).resolve_left fun heq => hji (Fin.ext heq)
      exact (htrans.copied j hold).2
  · rw [if_neg hs]
    exact htrans.quiet hpub hdrained

theorem hands_drainFree (h : Hands sent drained s) :
    Hands (sent ++ (s.drainFree.1.bind BridgeReply.sent).toList)
      (drained ++ (s.drainFree.1.bind BridgeReply.frame).toList) s.drainFree.2 := by
  obtain ⟨q, building, htrans, hpub, hdrained⟩ := h
  unfold BifrostSystem.drainFree
  by_cases hs : s.draining.state = .deviceOwned ∧ Finset.range s.draining.length.toNat ⊆ s.device.copied
  · rw [if_pos hs]
    obtain ⟨payload, hf, hl, hb⟩ := htrans.oldest hs.1
    have hlt := (List.getElem?_eq_some_iff.mp hf).1
    have hslot : s.draining = s.ring.transmit (entryOf q.taken) := by
      unfold BifrostSystem.draining
      rw [htrans.device]
    have hcopy : Holds s.device.copy payload := by
      refine ⟨hb.1, fun i hi => ?_⟩
      have hmem : i.val ∈ s.device.copied := hs.2 (by rw [hl]; exact Finset.mem_range.mpr hi)
      rw [(htrans.copied i hmem).2, ← hslot]
      exact hb.2 i hi
    refine ⟨q.pop hlt, building, ⟨?_, ?_, ?_, ?_⟩, ?_, ?_⟩
    · show Covers ringEntries_pos (Function.update s.ring.transmit (entryOf s.device.drainNext) _) _ _
      rw [htrans.device, hslot]
      exact htrans.release hlt htrans.user.room
    · refine htrans.user.pop hlt fun hbuild => ?_
      have hne := entryOf_taken_ne hlt (htrans.user.room hbuild)
      have hsame : Function.update s.ring.transmit (entryOf s.device.drainNext)
          { s.draining with state := .free } (entryOf q.published.length)
            = s.ring.transmit (entryOf q.published.length) := by
        rw [htrans.device, Function.update_of_ne (Ne.symm hne)]
      exact ⟨congrArg DmaDescriptor.length hsame, congrArg DmaDescriptor.buffer hsame⟩
    · show s.device.drainNext + 1 = q.taken + 1
      rw [htrans.device]
    · intro i hi
      exact absurd hi (Finset.notMem_empty _)
    · show q.published = sent ++ [] ++ s.transmitter.inFlight
      rw [List.append_nil]
      exact hpub
    · rw [hl, hcopy.frame_eq, hdrained]
      show _ ++ [payload] = q.published.take (q.taken + 1)
      rw [List.take_add_one, hf]
      rfl
  · rw [if_neg hs]
    exact htrans.quiet hpub hdrained

/-- **Invariant step** of the transmit half. -/
theorem hands_step (h : Hands sent drained s) (a : BridgeAction) :
    Hands (sent ++ ((s.step a).1.bind BridgeReply.sent).toList)
      (drained ++ ((s.step a).1.bind BridgeReply.frame).toList) (s.step a).2 := by
  cases a with
  | transmit payload => exact hands_transmit h payload
  | copy i => exact hands_copy h i
  | transmitter => exact hands_transmitter h
  | drainByte i => exact hands_drainByte h i
  | drainFree => exact hands_drainFree h
  | tryReceive =>
      simp only [BifrostSystem.step]
      split
      · apply h.elsewhere <;> rfl
      · apply h.elsewhere <;> rfl
  | drop n =>
      simp only [BifrostSystem.step]
      split
      · apply h.elsewhere <;> rfl
      · apply h.elsewhere <;> rfl
  | receiver =>
      simp only [BifrostSystem.step, BifrostSystem.receiverStep]
      split
      · apply h.elsewhere <;> rfl
      · split
        · apply h.elsewhere <;> rfl
        · apply h.elsewhere <;> rfl
      · split
        · apply h.elsewhere <;> rfl
        · apply h.elsewhere <;> rfl
      · apply h.elsewhere <;> rfl
      · apply h.elsewhere <;> rfl
      · next path _ =>
          cases path with
          | drop => apply h.elsewhere <;> rfl
          | discard => apply h.elsewhere <;> rfl
  | fillByte i byte =>
      simp only [BifrostSystem.step, BifrostSystem.fill]
      split
      · apply h.elsewhere <;> rfl
      · apply h.elsewhere <;> rfl
  | fillLength length =>
      simp only [BifrostSystem.step, BifrostSystem.fill]
      split
      · apply h.elsewhere <;> rfl
      · apply h.elsewhere <;> rfl
  | fillReady =>
      simp only [BifrostSystem.step, BifrostSystem.fillReady]
      split
      · apply h.elsewhere <;> rfl
      · apply h.elsewhere <;> rfl

end

end Slope.Bridge
