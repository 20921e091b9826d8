import Slope.Bridge.Moves

/-!
# `Bridge.Shared` — the ring between any number of threads

`try_receive` and `transmit` take `&self` and the ring is `Sync`, so threads may share it. Each thread is a `Party`
with a place in the calls and the packets it keeps, and sees the ring and the device as the single user of
`Bridge.Ring` does; a step of the system is a step of that user, by one of the parties.

The index of the ring is then only a hint: a party may work with an index that others have moved on from. What remains
is custody. The state of a descriptor says who has it, the compare-exchange hands it to one party, and only that party
touches it until it gives it back (`Claims`).
-/

namespace Slope.Bridge

/-! ## Parties -/

structure Party where
  receiver : ReceivePc
  packets : List ReceivedPacket
  transmitter : TransmitPc

/-- The receive descriptors that a party has: that of its call, and those of its packets. -/
def Party.holdings (p : Party) : List (Fin ringEntries) :=
  (p.receiver.held ++ p.packets.map (·.index)).map entryOf

structure SharedBifrost (τ : Type) where
  ring : BifrostRing
  device : Device
  party : τ → Party

namespace SharedBifrost

variable {τ : Type} [DecidableEq τ]

def new : SharedBifrost τ where
  ring := .new
  device := ⟨0, 0, ∅, fun _ => 0⟩
  party _ := ⟨.idle, [], .idle⟩

/-- The system as party `t` sees it. -/
def seenBy (s : SharedBifrost τ) (t : τ) : BifrostSystem where
  ring := s.ring
  receiver := (s.party t).receiver
  packets := (s.party t).packets
  transmitter := (s.party t).transmitter
  device := s.device

/-- The system once party `t` has made it `v`. -/
def after (s : SharedBifrost τ) (t : τ) (v : BifrostSystem) : SharedBifrost τ where
  ring := v.ring
  device := v.device
  party := Function.update s.party t ⟨v.receiver, v.packets, v.transmitter⟩

/-- **One atomic step** of a party, or of the device, which is the same for all parties. -/
def step (s : SharedBifrost τ) (i : τ × BridgeAction) : Option BridgeReply × SharedBifrost τ :=
  (((s.seenBy i.1).step i.2).1, s.after i.1 ((s.seenBy i.1).step i.2).2)

section

variable {s : SharedBifrost τ} {t t' : τ} {v : BifrostSystem}

@[simp] theorem party_after_self : (s.after t v).party t = ⟨v.receiver, v.packets, v.transmitter⟩ :=
  Function.update_self ..

theorem party_after_ne (h : t' ≠ t) : (s.after t v).party t' = s.party t' := Function.update_of_ne h ..

end

/-! ## Custody of the receive descriptors -/

/-- **Custody.** A descriptor that a party has is marked so, and no other party has it. -/
structure Claims (s : SharedBifrost τ) : Prop where
  held : ∀ t, ∀ e ∈ (s.party t).holdings, (s.ring.receive e).state = .userHeld
  once : ∀ t, (s.party t).holdings.Nodup
  apart : ∀ t t', t ≠ t' → ∀ e ∈ (s.party t).holdings, e ∉ (s.party t').holdings

section

variable {s : SharedBifrost τ} {t t' : τ} {v : BifrostSystem} {e e₀ : Fin ringEntries}
  {reply : Option BridgeReply}

omit [DecidableEq τ] in
/-- What `t` has, and what nobody has, is not what another party has. -/
theorem Claims.ne_of_other (hc : Claims s) (h₀ : e₀ ∈ (s.party t).holdings ∨ (s.ring.receive e₀).state ≠ .userHeld)
    (hne : t' ≠ t) (he : e ∈ (s.party t').holdings) : e ≠ e₀ := by
  rintro rfl
  rcases h₀ with hmine | hnobody
  · exact hc.apart t' t hne e he hmine
  · exact hnobody (hc.held t' e he)

/-- Custody after a step of `t`: what it has now it had before, or nobody had. -/
theorem Claims.change (hc : Claims s)
    (hother : ∀ t', t' ≠ t → ∀ e ∈ (s.party t').holdings, (v.ring.receive e).state = .userHeld)
    (hheld : ∀ e ∈ Party.holdings ⟨v.receiver, v.packets, v.transmitter⟩, (v.ring.receive e).state = .userHeld)
    (honce : (Party.holdings ⟨v.receiver, v.packets, v.transmitter⟩).Nodup)
    (hfrom : ∀ e ∈ Party.holdings ⟨v.receiver, v.packets, v.transmitter⟩,
      e ∈ (s.party t).holdings ∨ (s.ring.receive e).state ≠ .userHeld) : Claims (s.after t v) := by
  refine ⟨?_, ?_, ?_⟩
  · intro t' e he
    by_cases hne : t' = t
    · subst hne
      rw [party_after_self] at he
      exact hheld e he
    · rw [party_after_ne hne] at he
      exact hother t' hne e he
  · intro t'
    by_cases hne : t' = t
    · subst hne
      rw [party_after_self]
      exact honce
    · rw [party_after_ne hne]
      exact hc.once t'
  · intro t₁ t₂ h12 e he₁ he₂
    by_cases h1 : t₁ = t
    · subst h1
      rw [party_after_self] at he₁
      rw [party_after_ne (Ne.symm h12)] at he₂
      exact hc.ne_of_other (hfrom e he₁) (Ne.symm h12) he₂ rfl
    · rw [party_after_ne h1] at he₁
      by_cases h2 : t₂ = t
      · subst h2
        rw [party_after_self] at he₂
        exact hc.ne_of_other (hfrom e he₂) h12 he₁ rfl
      · rw [party_after_ne h2] at he₂
        exact hc.apart t₁ t₂ h12 e he₁ he₂

/-- A party that stores nothing has what it had. -/
theorem Claims.keep (hc : Claims s) (hring : v.ring.receive = s.ring.receive)
    (hperm : (Party.holdings ⟨v.receiver, v.packets, v.transmitter⟩).Perm (s.party t).holdings) :
    Claims (s.after t v) := by
  refine hc.change ?_ ?_ (hperm.nodup_iff.mpr (hc.once t)) fun e he => .inl (hperm.subset he)
  · intro t' _ e he
    rw [hring]
    exact hc.held t' e he
  · intro e he
    rw [hring]
    exact hc.held t e (hperm.subset he)

theorem receive_store (r : BifrostRing) (index : Nat) (d : DmaDescriptor ReceiveState) (e : Fin ringEntries) :
    (r.storeReceive index d).receive e = if e = entryOf index then d else r.receive e := by
  by_cases h : e = entryOf index
  · rw [if_pos h, h]
    exact Function.update_self ..
  · rw [if_neg h]
    exact Function.update_of_ne h ..

theorem receive_store_ne {r : BifrostRing} {index : Nat} {d : DmaDescriptor ReceiveState} (h : e ≠ entryOf index) :
    (r.storeReceive index d).receive e = r.receive e := by rw [receive_store, if_neg h]

/-- A store into a descriptor that is the party's own, or nobody's. -/
theorem Claims.store (hc : Claims s) (index : Nat) {d : DmaDescriptor ReceiveState}
    (hring : v.ring.receive = (s.ring.storeReceive index d).receive)
    (h₀ : entryOf index ∈ (s.party t).holdings ∨ (s.ring.receive (entryOf index)).state ≠ .userHeld)
    (hnew : ∀ e ∈ Party.holdings ⟨v.receiver, v.packets, v.transmitter⟩,
      if e = entryOf index then d.state = .userHeld else e ∈ (s.party t).holdings)
    (honce : (Party.holdings ⟨v.receiver, v.packets, v.transmitter⟩).Nodup) : Claims (s.after t v) := by
  refine hc.change ?_ ?_ honce ?_
  · intro t' hne e he
    rw [hring, receive_store_ne (hc.ne_of_other h₀ hne he)]
    exact hc.held t' e he
  · intro e he
    have hwhere := hnew e he
    rw [hring, receive_store]
    by_cases heq : e = entryOf index
    · rw [if_pos heq] at hwhere ⊢
      exact hwhere
    · rw [if_neg heq] at hwhere ⊢
      exact hc.held t e hwhere
  · intro e he
    have hwhere := hnew e he
    by_cases heq : e = entryOf index
    · rw [heq]
      exact h₀
    · rw [if_neg heq] at hwhere
      exact .inl hwhere

omit [DecidableEq τ] in
theorem holdings_of {pc : ReceivePc} (hpc : (s.party t).receiver = pc) :
    (s.party t).holdings = (pc.held ++ (s.party t).packets.map (·.index)).map entryOf := by
  unfold Party.holdings
  rw [hpc]

omit [DecidableEq τ] in
/-- The descriptor that the device fills is nobody's. -/
theorem filling_not_held (hs : (s.seenBy t).filling.state = .deviceOwned) :
    (s.ring.receive (entryOf s.device.fillNext)).state ≠ .userHeld := by
  intro h
  cases Eq.trans (Eq.symm hs) h

/-- A store of the device into the descriptor it fills. -/
theorem Claims.fill (hc : Claims s) {d : DmaDescriptor ReceiveState}
    (hring : v.ring.receive = (s.ring.storeReceive s.device.fillNext d).receive)
    (hs : (s.seenBy t).filling.state = .deviceOwned)
    (hsame : Party.holdings ⟨v.receiver, v.packets, v.transmitter⟩ = (s.party t).holdings) :
    Claims (s.after t v) := by
  have hnobody := filling_not_held hs
  refine hc.store _ hring (.inr hnobody) ?_ (hsame ▸ hc.once t)
  intro e he
  rw [hsame] at he
  have hne : e ≠ entryOf s.device.fillNext := by
    rintro rfl
    exact hnobody (hc.held t _ he)
  rw [if_neg hne]
  exact he

/-- **Custody is kept.** -/
theorem Claims.step (hc : Claims s) (hm : (s.seenBy t).ReceiveMove reply v) : Claims (s.after t v) := by
  cases hm with
  | still hring hpackets hheld _ _ _ =>
      refine hc.keep hring (.of_eq ?_)
      unfold Party.holdings
      rw [hheld, hpackets]
      rfl
  | @claim index hpc hs =>
      have hh := holdings_of hpc
      have hnobody : (s.ring.receive (entryOf index)).state ≠ .userHeld := fun h => by cases hs.symm.trans h
      have hfresh : entryOf index ∉ (s.party t).holdings := fun hmem => hnobody (hc.held t _ hmem)
      refine hc.store index rfl (.inr hnobody) ?_ ?_
      · intro e he
        by_cases heq : e = entryOf index
        · rw [if_pos heq]
        · rw [if_neg heq, hh]
          exact List.mem_of_ne_of_mem heq he
      · rw [hh] at hfresh
        have honce := hc.once t
        rw [hh] at honce
        exact List.nodup_cons.mpr ⟨hfresh, honce⟩
  | @returned index packet hpc hpacket _ =>
      refine hc.keep rfl ?_
      rw [holdings_of hpc, hpacket]
      unfold Party.holdings
      simp only [ReceivePc.held, List.nil_append, List.map_append, List.map_cons, List.map_nil, List.singleton_append]
      exact List.perm_append_singleton _ _
  | condemn hpc _ =>
      refine hc.keep rfl ?_
      rw [holdings_of hpc]
      exact .refl _
  | @drop n packet hpc hpacket =>
      refine hc.keep rfl ?_
      rw [holdings_of hpc]
      have hpacket' : (s.party t).packets[n]? = some packet := hpacket
      obtain ⟨hlt, hget⟩ := List.getElem?_eq_some_iff.mp hpacket'
      have hcons := List.getElem_cons_eraseIdx_perm hlt
      rw [hget] at hcons
      exact (hcons.map (·.index)).map entryOf
  | @empty index path hpc =>
      have hh := holdings_of hpc
      have hown : entryOf index ∈ (s.party t).holdings := by
        rw [hh]
        exact List.mem_cons_self
      refine hc.store index rfl (.inl hown) ?_ ?_
      · intro e he
        by_cases heq : e = entryOf index
        · rw [if_pos heq]
          exact hc.held t _ hown
        · rw [if_neg heq, hh]
          exact he
      · have honce := hc.once t
        rw [hh] at honce
        exact honce
  | @release index path hpc =>
      have hh := holdings_of hpc
      have hown : entryOf index ∈ (s.party t).holdings := by
        rw [hh]
        exact List.mem_cons_self
      have honce := hc.once t
      rw [hh] at honce
      obtain ⟨hgone, hrest⟩ := List.nodup_cons.mp honce
      refine hc.store index rfl (.inl hown) ?_ hrest
      intro e he
      have hne : e ≠ entryOf index := by
        rintro rfl
        exact hgone he
      rw [if_neg hne, hh]
      exact List.mem_cons_of_mem _ he
  | dropped hpc =>
      refine hc.keep rfl ?_
      rw [holdings_of hpc]
      exact .refl _
  | discarded hpc =>
      refine hc.keep rfl ?_
      rw [holdings_of hpc]
      exact .refl _
  | fill hs _ => exact hc.fill rfl hs rfl
  | ready hs => exact hc.fill rfl hs rfl

end

end SharedBifrost

end Slope.Bridge
