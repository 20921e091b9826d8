import Slope.Bridge.Account

/-!
# `Bridge.SharedTransmit` — the transmit ring between any number of threads

The mirror image of `Bridge.Shared` and `Bridge.Account`. The compare-exchange from `FREE` gives a descriptor to one
call of `transmit`; that call alone writes it until it hands it to the device, and then the device alone reads it
until it frees it (`Builds`). So the frames that the device has drained, with those it has yet to drain, are the
payloads that were accepted, with those whose call has still to return: each once, and intact.
-/

namespace Slope.Bridge.SharedBifrost

variable {τ : Type} [DecidableEq τ] {s : SharedBifrost τ} {t t' : τ} {v : BifrostSystem} {index : Nat}
  {d : DmaDescriptor TransmitState} {reply : Option BridgeReply}

/-! ## Custody of the transmit descriptors -/

/-- What a call of `transmit` has written of its payload. -/
def Written (ring : BifrostRing) : TransmitPc → Prop
  | .loaded payload _ => payload.length ≤ maximumFrameBytes
  | .building payload index pending => payload.length ≤ maximumFrameBytes ∧
      ∀ i : Fin maximumFrameBytes, i.val < payload.length → i.val ∉ pending →
        (ring.transmit (entryOf index)).buffer i = payload.getD i 0
  | .handing payload index => (ring.transmit (entryOf index)).length.toNat = payload.length ∧
      Holds (ring.transmit (entryOf index)).buffer payload
  | _ => True

theorem Written.congr {r r' : BifrostRing} {pc : TransmitPc} (h : Written r pc)
    (hsame : ∀ index ∈ pc.built, r'.transmit (entryOf index) = r.transmit (entryOf index)) : Written r' pc := by
  cases pc with
  | building payload index pending =>
      simp only [Written] at h ⊢
      rw [hsame index List.mem_cons_self]
      exact h
  | handing payload index =>
      simp only [Written] at h ⊢
      rw [hsame index List.mem_cons_self]
      exact h
  | loaded payload index => exact h
  | _ => trivial

/-- **Custody.** A descriptor that a call builds is marked so, no other call builds it, and it has what the call has
    written; and what the device has copied is what the descriptor it drains has. -/
structure Builds (s : SharedBifrost τ) : Prop where
  built : ∀ t, ∀ index ∈ (s.party t).transmitter.built, (s.ring.transmit (entryOf index)).state = .building
  apart : ∀ t t', t ≠ t' → ∀ i ∈ (s.party t).transmitter.built, ∀ i' ∈ (s.party t').transmitter.built,
    entryOf i ≠ entryOf i'
  written : ∀ t, Written s.ring (s.party t).transmitter
  copied : ∀ i : Fin maximumFrameBytes, i.val ∈ s.device.copied →
    (s.ring.transmit (entryOf s.device.drainNext)).state = .deviceOwned ∧
      s.device.copy i = (s.ring.transmit (entryOf s.device.drainNext)).buffer i

omit [DecidableEq τ] in
/-- What the call of `t` builds, and what nobody builds, is not what another call builds. -/
theorem Builds.ne_of_other (hb : Builds s)
    (h₀ : index ∈ (s.party t).transmitter.built ∨ (s.ring.transmit (entryOf index)).state ≠ .building)
    (hne : t' ≠ t) {i : Nat} (hi : i ∈ (s.party t').transmitter.built) : entryOf i ≠ entryOf index := by
  intro heq
  rcases h₀ with hmine | hnobody
  · exact hb.apart t' t hne i hi index hmine heq
  · exact hnobody (heq ▸ hb.built t' i hi)

/-- Custody after a step of `t` that leaves what the others build alone. -/
theorem Builds.change (hb : Builds s)
    (hother : ∀ t', t' ≠ t → ∀ i ∈ (s.party t').transmitter.built,
      v.ring.transmit (entryOf i) = s.ring.transmit (entryOf i))
    (hbuilt : ∀ i ∈ v.transmitter.built, (v.ring.transmit (entryOf i)).state = .building)
    (hfrom : ∀ i ∈ v.transmitter.built,
      i ∈ (s.party t).transmitter.built ∨ (s.ring.transmit (entryOf i)).state ≠ .building)
    (hwritten : Written v.ring v.transmitter)
    (hcopied : ∀ i : Fin maximumFrameBytes, i.val ∈ v.device.copied →
      (v.ring.transmit (entryOf v.device.drainNext)).state = .deviceOwned ∧
        v.device.copy i = (v.ring.transmit (entryOf v.device.drainNext)).buffer i) : Builds (s.after t v) := by
  refine ⟨?_, ?_, ?_, hcopied⟩
  · intro t' i hi
    by_cases hne : t' = t
    · subst hne
      rw [party_after_self] at hi
      exact hbuilt i hi
    · rw [party_after_ne hne] at hi
      show (v.ring.transmit (entryOf i)).state = .building
      rw [hother t' hne i hi]
      exact hb.built t' i hi
  · intro t₁ t₂ h12 i hi i' hi'
    by_cases h1 : t₁ = t
    · subst h1
      rw [party_after_self] at hi
      rw [party_after_ne (Ne.symm h12)] at hi'
      exact Ne.symm (hb.ne_of_other (hfrom i hi) (Ne.symm h12) hi')
    · rw [party_after_ne h1] at hi
      by_cases h2 : t₂ = t
      · subst h2
        rw [party_after_self] at hi'
        exact hb.ne_of_other (hfrom i' hi') h12 hi
      · rw [party_after_ne h2] at hi'
        exact hb.apart t₁ t₂ h12 i hi i' hi'
  · intro t'
    by_cases hne : t' = t
    · subst hne
      rw [party_after_self]
      exact hwritten
    · rw [party_after_ne hne]
      exact (hb.written t').congr (hother t' hne)

theorem transmit_store (r : BifrostRing) (index : Nat) (d : DmaDescriptor TransmitState) (e : Fin ringEntries) :
    (r.storeTransmit index d).transmit e = if e = entryOf index then d else r.transmit e := by
  by_cases h : e = entryOf index
  · rw [if_pos h, h]
    exact Function.update_self ..
  · rw [if_neg h]
    exact Function.update_of_ne h ..

theorem transmit_store_self (r : BifrostRing) (index : Nat) (d : DmaDescriptor TransmitState) :
    (r.storeTransmit index d).transmit (entryOf index) = d := by rw [transmit_store, if_pos rfl]

theorem transmit_store_ne {r : BifrostRing} {e : Fin ringEntries} (h : e ≠ entryOf index) :
    (r.storeTransmit index d).transmit e = r.transmit e := by rw [transmit_store, if_neg h]

/-- A call that stores nothing. -/
theorem Builds.keep (hb : Builds s) (hring : v.ring.transmit = s.ring.transmit)
    (hnext : v.device.drainNext = s.device.drainNext) (hcopied : v.device.copied = s.device.copied)
    (hcopy : v.device.copy = s.device.copy)
    (hbuilt : ∀ i ∈ v.transmitter.built, i ∈ (s.party t).transmitter.built)
    (hwritten : Written v.ring v.transmitter) : Builds (s.after t v) := by
  refine hb.change ?_ ?_ (fun i hi => .inl (hbuilt i hi)) hwritten ?_
  · intro t' _ i _
    rw [hring]
  · intro i hi
    rw [hring]
    exact hb.built t i (hbuilt i hi)
  · intro i hi
    rw [hcopied] at hi
    rw [hring, hnext, hcopy]
    exact hb.copied i hi

/-- A call stores into a descriptor that it builds, or that is not the device's and nobody builds. -/
theorem Builds.store (hb : Builds s) (index : Nat) (hring : v.ring.transmit = (s.ring.storeTransmit index d).transmit)
    (hdevice : v.device = s.device)
    (h₀ : index ∈ (s.party t).transmitter.built ∨ (s.ring.transmit (entryOf index)).state ≠ .building)
    (hstate : (s.ring.transmit (entryOf index)).state ≠ .deviceOwned)
    (hbuilt : ∀ i ∈ v.transmitter.built, i = index ∧ d.state = .building)
    (hwritten : Written v.ring v.transmitter) : Builds (s.after t v) := by
  refine hb.change ?_ ?_ ?_ hwritten ?_
  · intro t' hne i hi
    rw [hring, transmit_store_ne (hb.ne_of_other h₀ hne hi)]
  · intro i hi
    obtain ⟨rfl, hd⟩ := hbuilt i hi
    rw [hring, transmit_store_self]
    exact hd
  · intro i hi
    obtain ⟨rfl, -⟩ := hbuilt i hi
    exact h₀
  · intro i hi
    rw [hdevice] at hi ⊢
    obtain ⟨howned, hcopy⟩ := hb.copied i hi
    -- the descriptor that the device drains is the device's
    have hne : entryOf s.device.drainNext ≠ entryOf index := fun heq => hstate (heq ▸ howned)
    rw [hring, transmit_store_ne hne]
    exact ⟨howned, hcopy⟩

/-- **Custody is kept.** -/
theorem Builds.step (hb : Builds s) (hm : (s.seenBy t).TransmitMove reply v) : Builds (s.after t v) := by
  have hpcOf : ∀ {pc : TransmitPc}, (s.party t).transmitter = pc → Written s.ring pc := by
    rintro pc rfl
    exact hb.written t
  cases hm with
  | still hring hpc hnext hcopied hcopy _ _ =>
      have hsame : v.transmitter = (s.party t).transmitter := hpc
      refine hb.keep hring hnext hcopied hcopy (fun i hi => hsame ▸ hi) ?_
      rw [hsame]
      exact (hb.written t).congr fun i _ => by rw [hring]; rfl
  | begin hpc hle => exact hb.keep rfl rfl rfl rfl (fun i hi => absurd hi List.not_mem_nil) hle
  | full hpc => exact hb.keep rfl rfl rfl rfl (fun i hi => absurd hi List.not_mem_nil) trivial
  | @claim payload index hpc hs =>
      have hfree : (s.ring.transmit (entryOf index)).state = .free := hs
      refine hb.store index rfl rfl (.inr ?_) ?_ ?_ ⟨hpcOf hpc, ?_⟩
      · rw [hfree]
        simp
      · rw [hfree]
        simp
      · intro i hi
        exact ⟨List.mem_singleton.mp hi, rfl⟩
      · intro i hi hnot
        exact absurd (Finset.mem_range.mpr hi) hnot
  | @copy payload index pending i hpc =>
      have hown : index ∈ (s.party t).transmitter.built := by
        rw [show (s.party t).transmitter = .building payload index pending from hpc]
        exact List.mem_cons_self
      have hstate := hb.built t index hown
      obtain ⟨hle, hbytes⟩ := hpcOf hpc
      refine hb.store index rfl rfl (.inl hown) ?_ ?_ ⟨hle, ?_⟩
      · rw [hstate]
        simp
      · intro i' hi'
        exact ⟨List.mem_singleton.mp hi', hstate⟩
      · intro i' hlt hnot
        rw [transmit_store_self]
        by_cases heq : i' = i
        · subst heq
          exact Function.update_self ..
        · refine (Function.update_of_ne heq ..).trans (hbytes i' hlt fun hmem => hnot ?_)
          exact Finset.mem_erase.mpr ⟨fun hval => heq (Fin.ext hval), hmem⟩
  | @length payload index hpc =>
      have hown : index ∈ (s.party t).transmitter.built := by
        rw [show (s.party t).transmitter = .building payload index ∅ from hpc]
        exact List.mem_cons_self
      have hstate := hb.built t index hown
      obtain ⟨hle, hbytes⟩ := hpcOf hpc
      have hlt : payload.length < 2 ^ 32 := Nat.lt_of_le_of_lt hle (by decide)
      refine hb.store index rfl rfl (.inl hown) ?_ ?_ ⟨?_, hle, ?_⟩
      · rw [hstate]
        simp
      · intro i' hi'
        exact ⟨List.mem_singleton.mp hi', hstate⟩
      · rw [transmit_store_self]
        show (BitVec.ofNat 32 payload.length).toNat = payload.length
        rw [BitVec.toNat_ofNat, Nat.mod_eq_of_lt hlt]
      · intro i hi
        rw [transmit_store_self]
        exact hbytes i hi (Finset.notMem_empty _)
  | @hand payload index hpc =>
      have hown : index ∈ (s.party t).transmitter.built := by
        rw [show (s.party t).transmitter = .handing payload index from hpc]
        exact List.mem_cons_self
      refine hb.store index rfl rfl (.inl hown) ?_ (fun i hi => absurd hi List.not_mem_nil) trivial
      rw [hb.built t index hown]
      simp
  | advance hpc => exact hb.keep rfl rfl rfl rfl (fun i hi => absurd hi List.not_mem_nil) trivial
  | @drainByte i hs =>
      refine hb.change (fun _ _ _ _ => rfl) (fun i hi => hb.built t i hi) (fun i hi => .inl hi) (hb.written t) ?_
      intro i' hi'
      refine ⟨hs, ?_⟩
      by_cases heq : i' = i
      · subst heq
        exact Function.update_self ..
      · refine (Function.update_of_ne heq ..).trans (hb.copied i' ?_).2
        rcases Finset.mem_insert.mp hi' with hval | hmem
        · exact absurd (Fin.ext hval) heq
        · exact hmem
  | drainFree hs _ =>
      have howned : (s.ring.transmit (entryOf s.device.drainNext)).state = .deviceOwned := hs
      have hnobody : (s.ring.transmit (entryOf s.device.drainNext)).state ≠ .building := by
        rw [howned]
        simp
      have hother : ∀ t', ∀ i ∈ (s.party t').transmitter.built,
          (s.ring.storeTransmit s.device.drainNext { (s.seenBy t).draining with state := .free }).transmit (entryOf i)
            = s.ring.transmit (entryOf i) := by
        intro t' i hi
        refine transmit_store_ne fun heq => hnobody ?_
        rw [← heq]
        exact hb.built t' i hi
      refine hb.change (fun t' _ i hi => hother t' i hi) ?_ (fun i hi => .inl hi) ((hb.written t).congr (hother t)) ?_
      · intro i hi
        refine Eq.trans (congrArg DmaDescriptor.state (hother t i hi)) (hb.built t i hi)
      · intro i hi
        exact absurd hi (Finset.notMem_empty _)

/-! ## The account of the payloads -/

/-- The frame that a descriptor has for the device. -/
def carries (d : DmaDescriptor TransmitState) : Multiset (List U8) :=
  if d.state = .deviceOwned then {frame d.buffer d.length.toNat} else 0

theorem carries_of_ne {d : DmaDescriptor TransmitState} (h : d.state ≠ .deviceOwned) : carries d = 0 := if_neg h

/-- The payload that the call of party `t` has handed over and has yet to return for. -/
def inFlight (s : SharedBifrost τ) (t : τ) : Multiset (List U8) := Multiset.ofList (s.party t).transmitter.inFlight

/-- What the device has yet to drain from descriptor `e`. -/
def carried (s : SharedBifrost τ) (e : Fin ringEntries) : Multiset (List U8) := carries (s.ring.transmit e)

/-- **The account.** What was drained and what is carried is what was accepted and what is in flight. -/
def Shipped [Fintype τ] (accepted frames : List (List U8)) (s : SharedBifrost τ) : Prop :=
  Multiset.ofList frames + Custody.total s.carried = Multiset.ofList accepted + Custody.total s.inFlight

section

variable [Fintype τ] {a b : Multiset (List U8)} {accepted frames : List (List U8)}

theorem total_inFlight (h : Multiset.ofList v.transmitter.inFlight + a = s.inFlight t + b) :
    Custody.total (s.after t v).inFlight + a = Custody.total s.inFlight + b := by
  refine Custody.total_exchange (i := t) (fun t' hne => ?_) ?_
  · unfold inFlight
    rw [party_after_ne hne]
  · unfold inFlight
    rw [party_after_self]
    exact h

omit [Fintype τ] in
theorem total_carried_keep (hring : v.ring.transmit = s.ring.transmit) :
    Custody.total (s.after t v).carried = Custody.total s.carried := by
  refine Custody.total_congr fun e => ?_
  show carries (v.ring.transmit e) = _
  rw [hring]
  rfl

omit [Fintype τ] in
theorem total_carried_store (hring : v.ring.transmit = (s.ring.storeTransmit index d).transmit)
    (h : carries d + a = carries (s.ring.transmit (entryOf index)) + b) :
    Custody.total (s.after t v).carried + a = Custody.total s.carried + b := by
  refine Custody.total_exchange (i := entryOf index) (fun e hne => ?_) ?_
  · show carries (v.ring.transmit e) = carries (s.ring.transmit e)
    rw [hring, transmit_store_ne hne]
  · show carries (v.ring.transmit (entryOf index)) + a = _
    rw [hring, transmit_store_self]
    exact h

/-- Nothing is handed over or drained. -/
theorem Shipped.same (hs : Shipped accepted frames s)
    (hflight : Multiset.ofList v.transmitter.inFlight = s.inFlight t)
    (hcarried : Custody.total (s.after t v).carried + 0 = Custody.total s.carried + 0) :
    Shipped (accepted ++ []) (frames ++ []) (s.after t v) := by
  have htotal := total_inFlight (v := v) (a := 0) (b := 0) (by rw [hflight])
  rw [add_zero, add_zero] at htotal hcarried
  unfold Shipped at hs ⊢
  rw [List.append_nil, List.append_nil, htotal, hcarried]
  exact hs

/-- A call moves on and stores nothing. -/
theorem Shipped.go (hs : Shipped accepted frames s) (hring : v.ring.transmit = s.ring.transmit)
    (hflight : Multiset.ofList v.transmitter.inFlight = s.inFlight t) :
    Shipped (accepted ++ []) (frames ++ []) (s.after t v) :=
  hs.same hflight (by rw [total_carried_keep hring])

/-- A store into a descriptor that neither was nor is the device's. -/
theorem Shipped.store (hs : Shipped accepted frames s) (index : Nat)
    (hring : v.ring.transmit = (s.ring.storeTransmit index d).transmit)
    (hflight : Multiset.ofList v.transmitter.inFlight = s.inFlight t)
    (hold : (s.ring.transmit (entryOf index)).state ≠ .deviceOwned) (hnew : d.state ≠ .deviceOwned) :
    Shipped (accepted ++ []) (frames ++ []) (s.after t v) := by
  refine hs.same hflight (total_carried_store hring ?_)
  rw [carries_of_ne hold, carries_of_ne hnew]

omit [DecidableEq τ] [Fintype τ] in
theorem inFlight_of {pc : TransmitPc} (hpc : (s.party t).transmitter = pc) :
    s.inFlight t = Multiset.ofList pc.inFlight := by
  unfold inFlight
  rw [hpc]

/-- What is copied byte for byte is the same frame. -/
theorem frame_congr {buffer copy : FrameBuffer} {n : Nat}
    (h : ∀ i : Fin maximumFrameBytes, i.val < n → copy i = buffer i) : frame copy n = frame buffer n := by
  unfold frame
  congr 1
  funext i
  exact h _ (Nat.lt_of_lt_of_le i.isLt (Nat.min_le_left _ _))

omit [DecidableEq τ] [Fintype τ] in
theorem Builds.own (hb : Builds s) {pc : TransmitPc} (hpc : (s.party t).transmitter = pc) (hmem : index ∈ pc.built) :
    (s.ring.transmit (entryOf index)).state = .building := hb.built t index (hpc ▸ hmem)

/-- The store of `DEVICE_OWNED` hands the payload over: it is in flight, and the descriptor carries it. -/
theorem Shipped.hand (hb : Builds s) (hs : Shipped accepted frames s) {payload : List U8}
    (hpc : (s.party t).transmitter = .handing payload index) (hpc' : v.transmitter = .advancing payload index)
    (hring : v.ring.transmit
      = (s.ring.storeTransmit index { s.ring.transmit (entryOf index) with state := .deviceOwned }).transmit) :
    Shipped (accepted ++ []) (frames ++ []) (s.after t v) := by
  have hstate := hb.own hpc (List.mem_cons_self (a := index))
  have hwritten := hb.written t
  rw [hpc] at hwritten
  obtain ⟨hlength, hholds⟩ := hwritten
  have hnew : carries { s.ring.transmit (entryOf index) with state := .deviceOwned } = {payload} := by
    refine (if_pos rfl).trans ?_
    show {frame (s.ring.transmit (entryOf index)).buffer (s.ring.transmit (entryOf index)).length.toNat} = _
    rw [hlength, hholds.frame_eq]
  have hold : carries (s.ring.transmit (entryOf index)) = 0 := carries_of_ne (by rw [hstate]; simp)
  have hcarried := total_carried_store (t := t) (a := 0) (b := {payload}) hring (by
    rw [hnew, hold, add_zero, zero_add])
  have hflight := total_inFlight (s := s) (t := t) (v := v) (a := 0) (b := {payload}) (by
    rw [hpc', inFlight_of hpc, add_zero]
    exact (zero_add _).symm)
  rw [add_zero] at hcarried hflight
  unfold Shipped at hs ⊢
  rw [List.append_nil, List.append_nil, hcarried, hflight, ← add_assoc, ← add_assoc, hs]

/-- The call returns. -/
theorem Shipped.advance (hs : Shipped accepted frames s) {payload : List U8}
    (hpc : (s.party t).transmitter = .advancing payload index) (hpc' : v.transmitter = .idle)
    (hring : v.ring.transmit = s.ring.transmit) : Shipped (accepted ++ [payload]) (frames ++ []) (s.after t v) := by
  have hflight := total_inFlight (s := s) (t := t) (v := v) (a := {payload}) (b := 0) (by
    rw [hpc', inFlight_of hpc, add_zero]
    exact zero_add _)
  rw [add_zero] at hflight
  unfold Shipped at hs ⊢
  rw [List.append_nil, total_carried_keep hring, hs, ← hflight, ← Multiset.coe_add, Multiset.coe_singleton]
  ac_rfl

/-- The store of `FREE` drains the frame, which the device has copied in whole. -/
theorem Shipped.drain (hb : Builds s) (hs : Shipped accepted frames s)
    (howned : (s.seenBy t).draining.state = .deviceOwned)
    (hall : Finset.range (s.seenBy t).draining.length.toNat ⊆ s.device.copied)
    (hpc' : v.transmitter = (s.party t).transmitter)
    (hring : v.ring.transmit
      = (s.ring.storeTransmit s.device.drainNext { (s.seenBy t).draining with state := .free }).transmit) :
    Shipped (accepted ++ []) (frames ++ [frame s.device.copy (s.seenBy t).draining.length.toNat]) (s.after t v) := by
  have hcopy : frame s.device.copy (s.seenBy t).draining.length.toNat
      = frame (s.seenBy t).draining.buffer (s.seenBy t).draining.length.toNat :=
    frame_congr fun i hi => (hb.copied i (hall (Finset.mem_range.mpr hi))).2
  have hold : carries (s.ring.transmit (entryOf s.device.drainNext))
      = {frame s.device.copy (s.seenBy t).draining.length.toNat} := by
    rw [hcopy]
    exact if_pos howned
  have hcarried := total_carried_store (t := t) (b := 0)
    (a := {frame s.device.copy (s.seenBy t).draining.length.toNat}) hring (by
      rw [hold, carries_of_ne (by simp), zero_add, add_zero])
  have hflight := total_inFlight (s := s) (t := t) (v := v) (a := 0) (b := 0) (by rw [hpc']; rfl)
  rw [add_zero] at hcarried
  rw [add_zero, add_zero] at hflight
  unfold Shipped at hs ⊢
  rw [List.append_nil, hflight, ← hs, ← hcarried, ← Multiset.coe_add, Multiset.coe_singleton]
  ac_rfl

/-- **The account is kept.** -/
theorem Shipped.step (hb : Builds s) (hs : Shipped accepted frames s) (hm : (s.seenBy t).TransmitMove reply v) :
    Shipped (accepted ++ (reply.bind BridgeReply.sent).toList) (frames ++ (reply.bind BridgeReply.frame).toList)
      (s.after t v) := by
  cases hm with
  | still hring hpc _ _ _ hsent hframe =>
      rw [hsent, hframe]
      refine hs.go hring ?_
      rw [hpc]
      rfl
  | begin hpc _ => exact hs.go rfl (inFlight_of hpc).symm
  | full hpc => exact hs.go rfl (inFlight_of hpc).symm
  | @claim payload index hpc hfree =>
      have hfree' : (s.ring.transmit (entryOf index)).state = .free := hfree
      refine hs.store index rfl (inFlight_of hpc).symm ?_ (by simp)
      rw [hfree']
      simp
  | @copy payload index pending i hpc =>
      have hstate := hb.own hpc (List.mem_cons_self (a := index))
      refine hs.store index rfl (inFlight_of hpc).symm ?_ ?_
      · rw [hstate]
        simp
      · show (s.ring.transmit (entryOf index)).state ≠ _
        rw [hstate]
        simp
  | @length payload index hpc =>
      have hstate := hb.own hpc (List.mem_cons_self (a := index))
      refine hs.store index rfl (inFlight_of hpc).symm ?_ ?_
      · rw [hstate]
        simp
      · show (s.ring.transmit (entryOf index)).state ≠ _
        rw [hstate]
        simp
  | hand hpc => exact hs.hand hb hpc rfl rfl
  | advance hpc => exact hs.advance hpc rfl rfl
  | drainByte => exact hs.go rfl rfl
  | drainFree howned hall => exact hs.drain hb howned hall rfl rfl

end

end Slope.Bridge.SharedBifrost
