import Slope.Bridge.Shared
import Slope.Lib.Custody

/-!
# `Bridge.Account` — every fill is given out once, whoever takes it

The outcomes that all parties have been given, with those still owed by a call and those still waiting in the ring,
are the device's fills: none is lost, made up or given out twice, though with several parties they are no longer in
order. The account is a sum over parties and descriptors (`Lib.Custody`) that each step keeps balanced, because the
descriptor it stores into is nobody else's (`Bridge.Shared`). For the same reason a packet shows, as long as it is
kept, the bytes that it was returned with.
-/

namespace Slope.Bridge.SharedBifrost

variable {τ : Type} [DecidableEq τ] {s : SharedBifrost τ} {t t' : τ} {v : BifrostSystem} {e : Fin ringEntries}
  {reply : Option BridgeReply}

/-! ## The account of the fills -/

/-- The outcome that a descriptor has for whoever takes it. -/
def waits (d : DmaDescriptor ReceiveState) : Multiset Outcome :=
  if d.state = .ready then {d.shows.outcome} else 0

theorem waits_of_ne {d : DmaDescriptor ReceiveState} (h : d.state ≠ .ready) : waits d = 0 := if_neg h

/-- What the call of party `t` has taken and has yet to answer with. -/
def owed (s : SharedBifrost τ) (t : τ) : Multiset Outcome := (s.party t).receiver.owes s.ring

/-- What waits in descriptor `e`. -/
def waiting (s : SharedBifrost τ) (e : Fin ringEntries) : Multiset Outcome := waits (s.ring.receive e)

/-- **The account.** What was given out, what is owed and what waits is what the device has filled. -/
def Accounted [Fintype τ] (filled : List Fill) (out : List Outcome) (s : SharedBifrost τ) : Prop :=
  Multiset.ofList out + Custody.total s.owed + Custody.total s.waiting = Multiset.ofList (filled.map Fill.outcome)

/-- A call owes the same while the descriptor it holds is not touched. -/
theorem owes_congr {r r' : BifrostRing} {pc : ReceivePc}
    (hsame : ∀ index ∈ pc.held, r'.receive (entryOf index) = r.receive (entryOf index)) : pc.owes r' = pc.owes r := by
  cases pc with
  | claimed index =>
      show ({(r'.receive (entryOf index)).shows.outcome} : Multiset Outcome) = _
      rw [hsame index List.mem_cons_self]
      rfl
  | _ => rfl

omit [DecidableEq τ] in
theorem owed_of {pc : ReceivePc} (hpc : (s.party t).receiver = pc) : s.owed t = pc.owes s.ring := by
  unfold owed
  rw [hpc]

omit [DecidableEq τ] in
theorem mem_holdings {p : Party} {index : Nat} (h : index ∈ p.receiver.held) : entryOf index ∈ p.holdings :=
  List.mem_map_of_mem (List.mem_append_left _ h)

/-- A party whose descriptors are not touched owes what it owed. -/
theorem owed_other (hne : t' ≠ t)
    (hsame : ∀ e ∈ (s.party t').holdings, v.ring.receive e = s.ring.receive e) :
    (s.after t v).owed t' = s.owed t' := by
  unfold owed
  rw [party_after_ne hne]
  exact owes_congr fun index hindex => hsame _ (mem_holdings hindex)

omit [DecidableEq τ] in
/-- A descriptor that the call of `t` holds. -/
theorem Claims.own (hc : Claims s) {pc : ReceivePc} {index : Nat} (hpc : (s.party t).receiver = pc)
    (hmem : index ∈ pc.held) :
    entryOf index ∈ (s.party t).holdings ∧ (s.ring.receive (entryOf index)).state = .userHeld := by
  have hown : entryOf index ∈ (s.party t).holdings := mem_holdings (hpc ▸ hmem)
  exact ⟨hown, hc.held t _ hown⟩

omit [DecidableEq τ] in
/-- What the device fills is no part of what a call owes. -/
theorem owes_fill (hc : Claims s) {r : BifrostRing} {d : DmaDescriptor ReceiveState}
    (hs : (s.seenBy t).filling.state = .deviceOwned)
    (hring : r.receive = (s.ring.storeReceive s.device.fillNext d).receive) :
    (s.party t).receiver.owes r = s.owed t := by
  refine owes_congr fun index hindex => ?_
  have hne : entryOf index ≠ entryOf s.device.fillNext := by
    intro heq
    exact filling_not_held hs (heq ▸ (hc.own rfl hindex).2)
  rw [hring, receive_store_ne hne]

section

variable [Fintype τ] {a b : Multiset Outcome} {filled : List Fill} {out : List Outcome} {index : Nat}
  {d : DmaDescriptor ReceiveState}

/-- What all calls owe, when only that of `t` exchanges something and stores nothing. -/
theorem total_owed_keep (hring : v.ring.receive = s.ring.receive) (h : v.receiver.owes s.ring + a = s.owed t + b) :
    Custody.total (s.after t v).owed + a = Custody.total s.owed + b := by
  refine Custody.total_exchange (i := t) (fun t' hne => owed_other hne fun e _ => by rw [hring]) ?_
  unfold owed
  rw [party_after_self]
  show v.receiver.owes v.ring + a = _
  rw [owes_congr (r := s.ring) fun index _ => by rw [hring]]
  exact h

/-- The same, when it stores into a descriptor that is its own or nobody's. -/
theorem total_owed_store (hc : Claims s) (hring : v.ring.receive = (s.ring.storeReceive index d).receive)
    (h₀ : entryOf index ∈ (s.party t).holdings ∨ (s.ring.receive (entryOf index)).state ≠ .userHeld)
    (h : v.receiver.owes v.ring + a = s.owed t + b) :
    Custody.total (s.after t v).owed + a = Custody.total s.owed + b := by
  refine Custody.total_exchange (i := t) (fun t' hne => owed_other hne fun e he => ?_) ?_
  · rw [hring, receive_store_ne (hc.ne_of_other h₀ hne he)]
  · unfold owed
    rw [party_after_self]
    exact h

omit [Fintype τ] in
theorem total_waiting_keep (hring : v.ring.receive = s.ring.receive) :
    Custody.total (s.after t v).waiting = Custody.total s.waiting := by
  refine Custody.total_congr fun e => ?_
  show waits (v.ring.receive e) = _
  rw [hring]
  rfl

omit [Fintype τ] in
theorem total_waiting_store (hring : v.ring.receive = (s.ring.storeReceive index d).receive)
    (h : waits d + a = waits (s.ring.receive (entryOf index)) + b) :
    Custody.total (s.after t v).waiting + a = Custody.total s.waiting + b := by
  refine Custody.total_exchange (i := entryOf index) (fun e hne => ?_) ?_
  · show waits (v.ring.receive e) = waits (s.ring.receive e)
    rw [hring, receive_store_ne hne]
  · show waits (v.ring.receive (entryOf index)) + a = _
    rw [hring, receive_store, if_pos rfl]
    exact h

/-- Nothing is handed out or taken in. -/
theorem Accounted.same (ha : Accounted filled out s)
    (howed : Custody.total (s.after t v).owed + 0 = Custody.total s.owed + 0)
    (hwaiting : Custody.total (s.after t v).waiting + 0 = Custody.total s.waiting + 0) :
    Accounted (filled ++ []) (out ++ []) (s.after t v) := by
  rw [add_zero, add_zero] at howed hwaiting
  unfold Accounted at ha ⊢
  rw [List.append_nil, List.append_nil, howed, hwaiting]
  exact ha

/-- A call moves on and stores nothing: it owes what it owed. -/
theorem Accounted.go (ha : Accounted filled out s) (hring : v.ring.receive = s.ring.receive)
    (h : v.receiver.owes s.ring = s.owed t) : Accounted (filled ++ []) (out ++ []) (s.after t v) := by
  refine ha.same (total_owed_keep hring (by rw [h])) ?_
  rw [total_waiting_keep hring]

/-- A store into a descriptor that neither waited nor waits now. -/
theorem Accounted.store (hc : Claims s) (ha : Accounted filled out s)
    (hring : v.ring.receive = (s.ring.storeReceive index d).receive)
    (h₀ : entryOf index ∈ (s.party t).holdings ∨ (s.ring.receive (entryOf index)).state ≠ .userHeld)
    (h : v.receiver.owes v.ring = s.owed t) (hold : (s.ring.receive (entryOf index)).state ≠ .ready)
    (hnew : d.state ≠ .ready) : Accounted (filled ++ []) (out ++ []) (s.after t v) := by
  refine ha.same (total_owed_store hc hring h₀ (by rw [h])) (total_waiting_store hring ?_)
  rw [waits_of_ne hold, waits_of_ne hnew]

/-- A call gives out what it owes. -/
theorem Accounted.answer (ha : Accounted filled out s) {o : Outcome} (hring : v.ring.receive = s.ring.receive)
    (hafter : v.receiver.owes s.ring = 0) (hbefore : s.owed t = {o}) :
    Accounted (filled ++ []) (out ++ [o]) (s.after t v) := by
  have howed := total_owed_keep (t := t) (a := {o}) (b := 0) hring (by rw [hafter, hbefore, zero_add, add_zero])
  rw [add_zero] at howed
  unfold Accounted at ha ⊢
  rw [List.append_nil, total_waiting_keep hring, ← ha, ← howed, ← Multiset.coe_add, Multiset.coe_singleton]
  ac_rfl

/-- A compare-exchange succeeds: the outcome that waited is owed now. -/
theorem Accounted.claim (hc : Claims s) (ha : Accounted filled out s) (hpc : (s.party t).receiver = .loaded index)
    (hs : (s.ring.receive (entryOf index)).state = .ready) (hpc' : v.receiver = .claimed index)
    (hring : v.ring.receive
      = (s.ring.storeReceive index { s.ring.receive (entryOf index) with state := .userHeld }).receive) :
    Accounted (filled ++ []) (out ++ []) (s.after t v) := by
  have hnobody : (s.ring.receive (entryOf index)).state ≠ .userHeld := fun h => by cases hs.symm.trans h
  have hshows : v.receiver.owes v.ring = {(s.ring.receive (entryOf index)).shows.outcome} := by
    rw [hpc']
    show ({(v.ring.receive (entryOf index)).shows.outcome} : Multiset Outcome) = _
    rw [hring, receive_store, if_pos rfl]
    rfl
  have hready : waits (s.ring.receive (entryOf index)) = {(s.ring.receive (entryOf index)).shows.outcome} := if_pos hs
  have howed := total_owed_store (t := t) (a := 0) hc hring (.inr hnobody) (by
    rw [hshows, owed_of hpc, add_zero]
    exact (zero_add _).symm)
  have hwaiting := total_waiting_store (t := t) (a := {(s.ring.receive (entryOf index)).shows.outcome}) (b := 0) hring
    (by rw [hready, add_zero, waits_of_ne (by simp), zero_add])
  rw [add_zero] at howed hwaiting
  unfold Accounted at ha ⊢
  rw [List.append_nil, List.append_nil, howed, ← ha, ← hwaiting]
  ac_rfl

/-- The device completes a fill: its outcome waits. -/
theorem Accounted.ready (hc : Claims s) (ha : Accounted filled out s)
    (hs : (s.seenBy t).filling.state = .deviceOwned) (hpc' : v.receiver = (s.party t).receiver)
    (hring : v.ring.receive
      = (s.ring.storeReceive s.device.fillNext { (s.seenBy t).filling with state := .ready }).receive) :
    Accounted (filled ++ [(s.seenBy t).filling.shows]) (out ++ []) (s.after t v) := by
  have hnobody := filling_not_held hs
  have howed := total_owed_store (t := t) (a := 0) (b := 0) hc hring (.inr hnobody) (by
    rw [hpc', owes_fill hc hs hring])
  have hold : waits (s.ring.receive (entryOf s.device.fillNext)) = 0 := by
    refine waits_of_ne fun hready => ?_
    cases Eq.trans (Eq.symm hs) hready
  have hnew : waits { (s.seenBy t).filling with state := .ready } = {(s.seenBy t).filling.shows.outcome} := if_pos rfl
  have hwaiting := total_waiting_store (t := t) (a := 0) hring (by rw [hnew, hold, add_zero, zero_add])
  rw [add_zero, add_zero] at howed
  rw [add_zero] at hwaiting
  unfold Accounted at ha ⊢
  rw [List.append_nil, List.map_append, ← Multiset.coe_add, ← ha, howed, hwaiting, List.map_singleton,
    Multiset.coe_singleton]
  ac_rfl

/-- **The account is kept.** -/
theorem Accounted.step (hc : Claims s) (ha : Accounted filled out s) (hm : (s.seenBy t).ReceiveMove reply v) :
    Accounted (filled ++ (reply.bind BridgeReply.fill).toList) (out ++ (reply.bind BridgeReply.outcome).toList)
      (s.after t v) := by
  cases hm with
  | still hring _ _ howes hfill hout =>
      rw [hfill, hout]
      exact ha.go hring (howes _)
  | claim hpc hs => exact ha.claim hc hpc hs rfl rfl
  | returned hpc hpacket hle =>
      refine ha.answer rfl rfl ?_
      subst hpacket
      rw [owed_of hpc]
      show ({_} : Multiset _) = _
      rw [Fill.outcome_of_le hle]
      rfl
  | condemn hpc hlt =>
      refine ha.go rfl ?_
      rw [owed_of hpc]
      show _ = ({_} : Multiset _)
      rw [Fill.outcome_of_lt hlt]
      rfl
  | drop hpc _ =>
      refine ha.go rfl ?_
      rw [owed_of hpc]
      rfl
  | @empty index path hpc =>
      have hown := hc.own hpc (List.mem_cons_self (a := index))
      refine ha.store hc rfl (.inl hown.1) ?_ ?_ ?_
      · rw [owed_of hpc]
        rfl
      · intro hready
        cases hown.2.symm.trans hready
      · intro hready
        cases hown.2.symm.trans hready
  | @release index path hpc =>
      have hown := hc.own hpc (List.mem_cons_self (a := index))
      refine ha.store hc rfl (.inl hown.1) ?_ ?_ (by simp)
      · rw [owed_of hpc]
        rfl
      · intro hready
        cases hown.2.symm.trans hready
  | dropped hpc =>
      refine ha.go rfl ?_
      rw [owed_of hpc]
      rfl
  | discarded hpc =>
      refine ha.answer rfl rfl ?_
      rw [owed_of hpc]
      rfl
  | fill hs hd =>
      refine ha.store hc rfl (.inr (filling_not_held hs)) (owes_fill hc hs rfl) ?_ (by rw [hd]; simp)
      intro hready
      cases Eq.trans (Eq.symm hs) hready
  | ready hs => exact ha.ready hc hs rfl rfl

end

/-! ## Packets -/

omit [DecidableEq τ] in
/-- Only the device writes into a receive buffer, and only while it has the descriptor. -/
theorem buffer_kept (hm : (s.seenBy t).ReceiveMove reply v) (hheld : (s.ring.receive e).state = .userHeld) :
    (v.ring.receive e).buffer = (s.ring.receive e).buffer := by
  have hstored : ∀ {index : Nat} {d : DmaDescriptor ReceiveState},
      (e = entryOf index → d.buffer = (s.ring.receive (entryOf index)).buffer) →
      ((s.ring.storeReceive index d).receive e).buffer = (s.ring.receive e).buffer := by
    intro index d hd
    rw [receive_store]
    split
    · next heq => rw [hd heq, heq]
    · rfl
  cases hm with
  | still hring => rw [hring]; rfl
  | claim => exact hstored fun _ => rfl
  | returned => rfl
  | condemn => rfl
  | drop => rfl
  | empty => exact hstored fun _ => rfl
  | release => exact hstored fun _ => rfl
  | dropped => rfl
  | discarded => rfl
  | fill hs => exact hstored fun heq => absurd (heq ▸ hheld) (filling_not_held hs)
  | ready => exact hstored fun _ => rfl

/-- What the packets of party `t` show. -/
def shown (s : SharedBifrost τ) (t : τ) : List (List U8) := (s.party t).packets.map (·.bytes s.ring)

omit [DecidableEq τ] in
/-- Packets that stay show what they showed. -/
theorem bytes_kept (hc : Claims s) (hm : (s.seenBy t).ReceiveMove reply v) {ps : List ReceivedPacket}
    (hps : ps ⊆ (s.party t').packets) : ps.map (·.bytes v.ring) = ps.map (·.bytes s.ring) := by
  refine List.map_congr_left fun p hp => ?_
  have hmem : entryOf p.index ∈ (s.party t').holdings :=
    List.mem_map_of_mem (List.mem_append_right _ (List.mem_map_of_mem (hps hp)))
  unfold ReceivedPacket.bytes
  rw [buffer_kept hm (hc.held t' _ hmem)]

variable {frames : List (List U8)}

/-- The packets of the party that moves show frames that it was given, in their order. -/
theorem shown_self (hc : Claims s) (hm : (s.seenBy t).ReceiveMove reply v) (hsub : (s.shown t).Sublist frames) :
    ((s.after t v).shown t).Sublist (frames ++ (reply.bind BridgeReply.packet).toList) := by
  have hstay : ∀ {ps : List ReceivedPacket}, ps.Sublist (s.party t).packets →
      (ps.map (·.bytes v.ring)).Sublist (frames ++ (reply.bind BridgeReply.packet).toList) := by
    intro ps hps
    rw [bytes_kept hc hm hps.subset]
    exact ((hps.map _).trans hsub).trans (List.sublist_append_left _ _)
  unfold shown
  rw [party_after_self]
  show (v.packets.map (·.bytes v.ring)).Sublist _
  cases hm with
  | still _ hpackets => exact hstay (hpackets ▸ .refl _)
  | claim => exact hstay (.refl _)
  | returned =>
      show (((s.party t).packets ++ [_]).map fun p : ReceivedPacket => p.bytes s.ring).Sublist _
      rw [List.map_append]
      exact hsub.append (.refl _)
  | condemn => exact hstay (.refl _)
  | drop => exact hstay (List.eraseIdx_sublist _ _)
  | empty => exact hstay (.refl _)
  | release => exact hstay (.refl _)
  | dropped => exact hstay (.refl _)
  | discarded => exact hstay (.refl _)
  | fill => exact hstay (.refl _)
  | ready => exact hstay (.refl _)

theorem shown_other (hc : Claims s) (hm : (s.seenBy t).ReceiveMove reply v) (hne : t' ≠ t) :
    (s.after t v).shown t' = s.shown t' := by
  unfold shown
  rw [party_after_ne hne]
  exact bytes_kept hc hm (List.Subset.refl _)

end Slope.Bridge.SharedBifrost
