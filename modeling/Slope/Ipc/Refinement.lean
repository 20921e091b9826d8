import Slope.Ipc.Ring
import Slope.Lib.Fifo

/-!
# `Ipc.Refinement` — the ring refines a bounded FIFO queue

`Represents` relates a state of the two threads to the abstract queue. Position `k` of the queue's history
lives in slot `k % 128`, and the state of each slot of the current window follows from where `k` stands
relative to the two ends of the queue and from which thread owns a slot. Every atomic step is then a step of
the queue (`represents_step`): the store of `READY` enqueues, the store of `EMPTY` dequeues, a failed
compare-exchange answers full or empty, and everything else is silent.
-/

namespace Slope.Ipc

/-! ## Slots and memory accesses -/

theorem channelDepth_pos : 0 < channelDepth := by decide

theorem slotOf_mod (k : Nat) : slotOf (k % channelDepth) = slotOf k :=
  Fin.ext (Nat.mod_mod k channelDepth)

theorem slotOf_add (k : Nat) : slotOf (k + channelDepth) = slotOf k :=
  Fin.ext (Nat.add_mod_right k channelDepth)

/-- The positions of one window live in different slots. -/
theorem slotOf_ne {base k k' : Nat} (hk : base ≤ k) (hlt : k < base + channelDepth) (hk' : base ≤ k')
    (hlt' : k' < base + channelDepth) (h : k ≠ k') : slotOf k ≠ slotOf k' := fun heq =>
  h (slot_inj hk hk' hlt hlt' (congrArg Fin.val heq))

/-- The next index, as it is stored in 32 bits. -/
theorem toNat_nextIndex (k : Nat) :
    (BitVec.ofNat 32 ((k + 1) % channelDepth)).toNat = (k + 1) % channelDepth := by
  have : (k + 1) % channelDepth < channelDepth := Nat.mod_lt _ (by decide)
  rw [BitVec.toNat_ofNat]
  apply Nat.mod_eq_of_lt
  have : channelDepth < 2 ^ 32 := by decide
  omega

theorem nextIndex_mod (k : Nat) : (k % channelDepth + 1) % channelDepth = (k + 1) % channelDepth :=
  Nat.mod_add_mod k channelDepth 1

namespace SpscRing

variable {Part : Type} {Cell : Part → Type} (r : SpscRing Cell)

@[simp] theorem storeState_state_self (i : Fin channelDepth) (st : SlotState) :
    ((r.storeState i st).slots i).state = st := by
  simp [storeState]

theorem storeState_state_ne {i j : Fin channelDepth} (st : SlotState) (h : j ≠ i) :
    ((r.storeState i st).slots j).state = (r.slots j).state := by
  simp [storeState, Function.update_of_ne h]

@[simp] theorem storeState_message (i j : Fin channelDepth) (st : SlotState) :
    ((r.storeState i st).slots j).message = (r.slots j).message := by
  by_cases h : j = i
  · subst h; simp [storeState]
  · simp [storeState, Function.update_of_ne h]

variable [DecidableEq Part]

@[simp] theorem storePart_state (i j : Fin channelDepth) (p : Part) (c : Cell p) :
    ((r.storePart i p c).slots j).state = (r.slots j).state := by
  by_cases h : j = i
  · subst h; simp [storePart]
  · simp [storePart, Function.update_of_ne h]

@[simp] theorem storePart_message_self (i : Fin channelDepth) (p : Part) (c : Cell p) :
    ((r.storePart i p c).slots i).message = Function.update (r.slots i).message p c := by
  simp [storePart]

theorem storePart_message_ne {i j : Fin channelDepth} (p : Part) (c : Cell p) (h : j ≠ i) :
    ((r.storePart i p c).slots j).message = (r.slots j).message := by
  simp [storePart, Function.update_of_ne h]

end SpscRing

/-! ## The representation -/

def SendPc.isWriting {Part : Type} : SendPc Part → Bool
  | .writing _ _ _ => true
  | _ => false

def RecvPc.isReading {Part : Type} {Cell : Part → Type} : RecvPc Cell → Bool
  | .reading _ _ _ => true
  | _ => false

namespace RingSystem

abbrev Queue := Fifo ChannelMessage channelDepth

/-- The state of the slot of position `k` in the window that starts at the oldest message. -/
def expectedState (q : Queue) (reading writing : Bool) (k : Nat) : SlotState :=
  if k < q.published.length then
    if k = q.taken ∧ reading = true then .reading else .ready
  else if k = q.published.length ∧ writing = true then .writing else .empty

section

variable {Part : Type} {Cell : Part → Type} (split : ChannelMessage ≃ ((p : Part) → Cell p))

/-- The producer's index and locals. Between the store of `READY` and the store of the index the queue is
    one message ahead of the index. -/
def ProducerAt (q : Queue) (r : SpscRing Cell) : SendPc Part → Prop
  | .idle => r.producer.toNat = q.published.length % channelDepth
  | .loaded _ head => r.producer.toNat = q.published.length % channelDepth ∧
      head = q.published.length % channelDepth
  | .writing m head pending => r.producer.toNat = q.published.length % channelDepth ∧
      head = q.published.length % channelDepth ∧ q.published.length < q.taken + channelDepth ∧
      ∀ p, p ∉ pending → (r.slots (slotOf q.published.length)).message p = split m p
  | .published _ head => ∃ k, q.published.length = k + 1 ∧ r.producer.toNat = k % channelDepth ∧
      head = k % channelDepth

/-- The consumer's index and locals. Between the store of `EMPTY` and the store of the index the queue is
    one message ahead of the index. -/
def ConsumerAt (q : Queue) (r : SpscRing Cell) : RecvPc Cell → Prop
  | .idle => r.consumer.toNat = q.taken % channelDepth
  | .loaded tail => r.consumer.toNat = q.taken % channelDepth ∧ tail = q.taken % channelDepth
  | .checking tail => r.consumer.toNat = q.taken % channelDepth ∧ tail = q.taken % channelDepth
  | .reading tail pending buffer => r.consumer.toNat = q.taken % channelDepth ∧
      tail = q.taken % channelDepth ∧
      ∃ m, q.published[q.taken]? = some m ∧ ∀ p, p ∉ pending → buffer p = split m p
  | .vacated _ tail => ∃ k, q.taken = k + 1 ∧ r.consumer.toNat = k % channelDepth ∧
      tail = k % channelDepth

/-- **The representation.** The ring and the two threads stand for the queue `q`. -/
structure Represents (q : Queue) (s : RingSystem Cell) : Prop where
  states : ∀ k, q.taken ≤ k → k < q.taken + channelDepth →
    (s.ring.slots (slotOf k)).state = expectedState q s.consumer.isReading s.producer.isWriting k
  contents : ∀ k m, q.taken ≤ k → q.published[k]? = some m →
    (s.ring.slots (slotOf k)).message = split m
  producer : ProducerAt split q s.ring s.producer
  consumer : ConsumerAt split q s.ring s.consumer

variable {split}

/-- The producer's view survives what the consumer does. -/
theorem ProducerAt.frame {q q' : Queue} {r r' : SpscRing Cell} {pc : SendPc Part}
    (h : ProducerAt split q r pc) (hpub : q'.published = q.published) (htaken : q.taken ≤ q'.taken)
    (hidx : r'.producer = r.producer) (hmsg : ∀ i, (r'.slots i).message = (r.slots i).message) :
    ProducerAt split q' r' pc := by
  cases pc with
  | idle => simpa only [ProducerAt, hpub, hidx] using h
  | loaded m head => simpa only [ProducerAt, hpub, hidx] using h
  | writing m head pending =>
      obtain ⟨h1, h2, h3, h4⟩ := h
      simp only [ProducerAt, hpub, hidx, hmsg]
      exact ⟨h1, h2, by omega, h4⟩
  | published m head => simpa only [ProducerAt, hpub, hidx] using h

/-- The consumer's view survives what the producer does. -/
theorem ConsumerAt.frame {q q' : Queue} {r r' : SpscRing Cell} {pc : RecvPc Cell}
    (h : ConsumerAt split q r pc)
    (hpub : ∀ m, q.published[q.taken]? = some m → q'.published[q.taken]? = some m)
    (htaken : q'.taken = q.taken) (hidx : r'.consumer = r.consumer) :
    ConsumerAt split q' r' pc := by
  cases pc with
  | idle => simpa only [ConsumerAt, htaken, hidx] using h
  | loaded tail => simpa only [ConsumerAt, htaken, hidx] using h
  | checking tail => simpa only [ConsumerAt, htaken, hidx] using h
  | reading tail pending buffer =>
      obtain ⟨h1, h2, m, hm, h4⟩ := h
      simp only [ConsumerAt, htaken, hidx]
      exact ⟨h1, h2, m, hpub m hm, h4⟩
  | vacated m tail => simpa only [ConsumerAt, htaken, hidx] using h

/-! ## The two ends of the queue -/

variable {q : Queue} {s : RingSystem Cell}

/-- A producer that owns no slot finds the slot at its index empty exactly when the queue has room. -/
theorem Represents.head_empty_iff (h : Represents split q s) (hw : s.producer.isWriting = false) :
    (s.ring.slots (slotOf q.published.length)).state = .empty ↔
      q.published.length < q.taken + channelDepth := by
  have hle := q.taken_le
  constructor
  · intro hempty
    by_contra hfull
    -- the queue is full: the head slot is the slot of the oldest message
    have hn : q.published.length = q.taken + channelDepth := by have := q.bounded; omega
    have hd := channelDepth_pos
    rw [hn, slotOf_add, h.states q.taken (Nat.le_refl _) (by omega), expectedState,
      if_pos (by omega)] at hempty
    split at hempty <;> cases hempty
  · intro hlt
    rw [h.states _ hle hlt, expectedState, if_neg (Nat.lt_irrefl _), hw]
    simp

/-- A consumer that owns no slot finds the slot at its index ready exactly when the queue is not empty. -/
theorem Represents.tail_ready_iff (h : Represents split q s) (hr : s.consumer.isReading = false) :
    (s.ring.slots (slotOf q.taken)).state = .ready ↔ q.taken < q.published.length := by
  have hd := channelDepth_pos
  rw [h.states q.taken (Nat.le_refl _) (by omega), expectedState, hr]
  constructor
  · intro hready
    by_contra hge
    rw [if_neg hge] at hready
    split at hready <;> cases hready
  · intro hlt
    rw [if_pos hlt]
    simp

/-- A consumer that reads a slot reads one of the queue's messages. -/
theorem ConsumerAt.lt_of_reading {r : SpscRing Cell} {cp : RecvPc Cell} (h : ConsumerAt split q r cp)
    (hr : cp.isReading = true) : q.taken < q.published.length := by
  cases cp with
  | reading tail pending buffer =>
      obtain ⟨-, -, m, hm, -⟩ := h
      exact (List.getElem?_eq_some_iff.mp hm).1
  | idle => cases hr
  | loaded tail => cases hr
  | vacated m tail => cases hr
  | checking tail => cases hr

/-- A producer that writes a slot has room for its message. -/
theorem ProducerAt.lt_of_writing {r : SpscRing Cell} {pp : SendPc Part} (h : ProducerAt split q r pp)
    (hw : pp.isWriting = true) : q.published.length < q.taken + channelDepth := by
  cases pp with
  | writing m head pending => exact h.2.2.1
  | idle => cases hw
  | loaded m head => cases hw
  | published m head => cases hw

/-! ## The producer's steps -/

section

variable {r : SpscRing Cell} {pp : SendPc Part} {cp : RecvPc Cell} {m : ChannelMessage}
  {head tail : Nat} {pending : Finset Part} {buffer : (p : Part) → Cell p}

/-- `WRITING` is stored into the slot behind the newest message. -/
theorem Represents.claimWrite [Fintype Part] (h : Represents split q ⟨r, .loaded m head, cp⟩)
    (hlt : q.published.length < q.taken + channelDepth) :
    Represents split q ⟨r.storeState (slotOf head) .writing, .writing m head .univ, cp⟩ := by
  obtain ⟨hidx, hhead⟩ := h.producer
  have hslot : slotOf head = slotOf q.published.length := by rw [hhead, slotOf_mod]
  refine ⟨?_, ?_, ?_, ?_⟩
  · intro k hk hklt
    show ((r.storeState (slotOf head) .writing).slots (slotOf k)).state
      = expectedState q cp.isReading true k
    rw [hslot]
    by_cases hkn : k = q.published.length
    · subst hkn
      simp [expectedState]
    · rw [SpscRing.storeState_state_ne _ _ (slotOf_ne hk hklt q.taken_le hlt hkn),
        h.states k hk hklt]
      simp [expectedState, hkn, SendPc.isWriting]
  · intro k m' hk hm'
    rw [SpscRing.storeState_message]
    exact h.contents k m' hk hm'
  · exact ⟨hidx, hhead, hlt, fun p hp => absurd (Finset.mem_univ p) hp⟩
  · exact h.consumer.frame (fun _ h => h) rfl rfl

/-- One part of the message is written; the messages of the queue live in other slots. -/
theorem Represents.writePart [DecidableEq Part] (h : Represents split q ⟨r, .writing m head pending, cp⟩)
    (p : Part) :
    Represents split q ⟨r.storePart (slotOf head) p (split m p), .writing m head (pending.erase p), cp⟩ := by
  obtain ⟨hidx, hhead, hlt, hparts⟩ := h.producer
  have hslot : slotOf head = slotOf q.published.length := by rw [hhead, slotOf_mod]
  refine ⟨?_, ?_, ?_, ?_⟩
  · intro k hk hklt
    rw [SpscRing.storePart_state]
    exact h.states k hk hklt
  · -- a message of the queue lies before the head, in another slot
    intro k m' hk hm'
    have hkn := (List.getElem?_eq_some_iff.mp hm').1
    rw [hslot, SpscRing.storePart_message_ne _ _ _
      (slotOf_ne hk (by omega) q.taken_le hlt (Nat.ne_of_lt hkn))]
    exact h.contents k m' hk hm'
  · refine ⟨hidx, hhead, hlt, ?_⟩
    intro p' hp'
    rw [hslot, SpscRing.storePart_message_self]
    by_cases hpp : p' = p
    · subst hpp; rw [Function.update_self]
    · rw [Function.update_of_ne hpp]
      exact hparts p' fun hmem => hp' (Finset.mem_erase.mpr ⟨hpp, hmem⟩)
  · exact h.consumer.frame (fun _ h => h) rfl rfl

/-- `READY` is stored once all parts are written: the message joins the queue. -/
theorem Represents.publish (h : Represents split q ⟨r, .writing m head ∅, cp⟩)
    (hlt : q.published.length < q.taken + channelDepth) :
    Represents split (q.push m hlt) ⟨r.storeState (slotOf head) .ready, .published m head, cp⟩ := by
  obtain ⟨hidx, hhead, -, hparts⟩ := h.producer
  have hslot : slotOf head = slotOf q.published.length := by rw [hhead, slotOf_mod]
  have hlen : (q.push m hlt).published.length = q.published.length + 1 := by simp [Fifo.push]
  refine ⟨?_, ?_, ?_, ?_⟩
  · intro k hk hklt
    show ((r.storeState (slotOf head) .ready).slots (slotOf k)).state
      = expectedState (q.push m hlt) cp.isReading false k
    rw [hslot, expectedState, hlen]
    by_cases hkn : k = q.published.length
    · -- the slot just published; it is not the one being read
      subst hkn
      rw [SpscRing.storeState_state_self, if_pos (Nat.lt_succ_self _), if_neg]
      rintro ⟨heq, hread⟩
      have hlt' := h.consumer.lt_of_reading hread
      exact absurd hlt' (by rw [heq]; exact Nat.lt_irrefl _)
    · rw [SpscRing.storeState_state_ne _ _ (slotOf_ne hk hklt q.taken_le hlt hkn), h.states k hk hklt]
      rcases Nat.lt_or_gt_of_ne hkn with hlt' | hgt
      · rw [expectedState, if_pos hlt', if_pos (Nat.lt_succ_of_lt hlt')]
        rfl
      · rw [expectedState, if_neg (Nat.lt_asymm hgt), if_neg (fun hc => hkn hc.1),
          if_neg (by omega), if_neg (by simp)]
  · intro k m' hk hm'
    rw [SpscRing.storeState_message]
    rcases Nat.lt_or_ge k q.published.length with hkn | hkn
    · exact h.contents k m' hk (by rwa [Fifo.push, List.getElem?_append_left hkn] at hm')
    · -- the new message: all its parts are in the slot
      obtain ⟨hlt', heq⟩ := List.getElem?_eq_some_iff.mp hm'
      obtain rfl : k = q.published.length := by omega
      obtain rfl : m = m' := by simpa [Fifo.push] using heq
      funext p
      exact hparts p (Finset.notMem_empty p)
  · exact ⟨q.published.length, hlen, hidx, hhead⟩
  · refine h.consumer.frame ?_ rfl rfl
    exact fun m' hm' => Fifo.getElem?_push hm'

/-- The producer's index catches up with the queue. -/
theorem Represents.storeProducer (h : Represents split q ⟨r, .published m head, cp⟩) :
    Represents split q
      ⟨{ r with producer := BitVec.ofNat 32 ((head + 1) % channelDepth) }, .idle, cp⟩ := by
  obtain ⟨k, hlen, -, hhead⟩ := h.producer
  refine ⟨h.states, h.contents, ?_, h.consumer.frame (fun _ h => h) rfl rfl⟩
  show (BitVec.ofNat 32 ((head + 1) % channelDepth)).toNat = q.published.length % channelDepth
  rw [toNat_nextIndex, hhead, nextIndex_mod, hlen]

/-! ## The consumer's steps -/

/-- `READING` is stored into the slot of the oldest message. -/
theorem Represents.claimRead [Fintype Part] (h : Represents split q ⟨r, pp, .loaded tail⟩)
    (hlt : q.taken < q.published.length) :
    Represents split q ⟨r.storeState (slotOf tail) .reading, pp, .reading tail .univ buffer⟩ := by
  obtain ⟨hidx, htail⟩ := h.consumer
  have hslot : slotOf tail = slotOf q.taken := by rw [htail, slotOf_mod]
  have hd := channelDepth_pos
  refine ⟨?_, ?_, ?_, ?_⟩
  · intro k hk hklt
    show ((r.storeState (slotOf tail) .reading).slots (slotOf k)).state
      = expectedState q true pp.isWriting k
    rw [hslot]
    by_cases hkt : k = q.taken
    · subst hkt
      simp [expectedState, hlt]
    · rw [SpscRing.storeState_state_ne _ _ (slotOf_ne hk hklt (Nat.le_refl _) (by omega) hkt),
        h.states k hk hklt]
      simp [expectedState, hkt]
  · intro k m' hk hm'
    rw [SpscRing.storeState_message]
    exact h.contents k m' hk hm'
  · exact h.producer.frame rfl (Nat.le_refl _) rfl (fun i => SpscRing.storeState_message ..)
  · refine ⟨hidx, htail, q.published[q.taken], List.getElem?_eq_getElem hlt, ?_⟩
    exact fun p hp => absurd (Finset.mem_univ p) hp

/-- One part of the oldest message is read. -/
theorem Represents.readPart [DecidableEq Part] (h : Represents split q ⟨r, pp, .reading tail pending buffer⟩)
    (p : Part) :
    Represents split q ⟨r, pp, .reading tail (pending.erase p)
      (Function.update buffer p ((r.slots (slotOf tail)).message p))⟩ := by
  obtain ⟨hidx, htail, m, hm, hparts⟩ := h.consumer
  have hslot : slotOf tail = slotOf q.taken := by rw [htail, slotOf_mod]
  refine ⟨h.states, h.contents, h.producer, hidx, htail, m, hm, ?_⟩
  intro p' hp'
  by_cases hpp : p' = p
  · subst hpp
    rw [Function.update_self, hslot, h.contents q.taken m (Nat.le_refl _) hm]
  · rw [Function.update_of_ne hpp]
    exact hparts p' fun hmem => hp' (Finset.mem_erase.mpr ⟨hpp, hmem⟩)

/-- A full buffer holds the oldest message. -/
theorem Represents.buffer_eq (h : Represents split q ⟨r, pp, .reading tail ∅ buffer⟩) :
    q.published[q.taken]? = some (split.symm buffer) := by
  obtain ⟨-, -, m, hm, hparts⟩ := h.consumer
  have hbuf : buffer = split m := funext fun p => hparts p (Finset.notMem_empty p)
  rw [hm, hbuf, Equiv.symm_apply_apply]

/-- `EMPTY` is stored once all parts are read: the oldest message leaves the queue, and its slot becomes the
    last of the next window. -/
theorem Represents.vacate (h : Represents split q ⟨r, pp, .reading tail ∅ buffer⟩)
    (hlt : q.taken < q.published.length) :
    Represents split (q.pop hlt)
      ⟨r.storeState (slotOf tail) .empty, pp, .vacated (split.symm buffer) tail⟩ := by
  obtain ⟨hidx, htail, -⟩ := h.consumer
  have hslot : slotOf tail = slotOf q.taken := by rw [htail, slotOf_mod]
  have hd := channelDepth_pos
  have hbound := q.bounded
  refine ⟨?_, ?_, ?_, ⟨q.taken, rfl, hidx, htail⟩⟩
  · intro k hk hklt
    simp only [Fifo.pop] at hk hklt
    show ((r.storeState (slotOf tail) .empty).slots (slotOf k)).state
      = expectedState (q.pop hlt) false pp.isWriting k
    rw [hslot]
    by_cases hkl : k = q.taken + channelDepth
    · -- the vacated slot, as the last of the next window: no writer has claimed it
      subst hkl
      rw [slotOf_add, SpscRing.storeState_state_self, expectedState, if_neg (by simp [Fifo.pop]; omega),
        if_neg]
      rintro ⟨heq, hwrite⟩
      have hroom := h.producer.lt_of_writing hwrite
      exact absurd hroom (by rw [← show _ = q.published.length from heq]; exact Nat.lt_irrefl _)
    · rw [SpscRing.storeState_state_ne _ _
        (slotOf_ne (by omega) (by omega) (Nat.le_refl _) (by omega) (by omega)),
        h.states k (by omega) (by omega)]
      have hkt : k ≠ q.taken := by omega
      by_cases hkn : k < q.published.length
      · rw [expectedState, if_pos hkn, if_neg (fun hc => hkt hc.1), expectedState,
          if_pos (show k < (q.pop hlt).published.length from hkn), if_neg (by simp)]
      · rw [expectedState, if_neg hkn, expectedState,
          if_neg (show ¬ k < (q.pop hlt).published.length from hkn)]
        rfl
  · intro k m' hk hm'
    rw [SpscRing.storeState_message]
    exact h.contents k m' (Nat.le_of_succ_le hk) hm'
  · exact h.producer.frame rfl (Nat.le_succ _) rfl (fun i => SpscRing.storeState_message ..)

/-- The consumer's index catches up with the queue. -/
theorem Represents.storeConsumer (h : Represents split q ⟨r, pp, .vacated m tail⟩) :
    Represents split q
      ⟨{ r with consumer := BitVec.ofNat 32 ((tail + 1) % channelDepth) }, pp, .idle⟩ := by
  obtain ⟨k, htaken, -, htail⟩ := h.consumer
  refine ⟨h.states, h.contents, h.producer.frame rfl (Nat.le_refl _) rfl (fun _ => rfl), ?_⟩
  show (BitVec.ofNat 32 ((tail + 1) % channelDepth)).toNat = q.taken % channelDepth
  rw [toNat_nextIndex, htail, nextIndex_mod, htaken]

end

/-! ## Every step is a step of the queue -/

/-- A fresh ring stands for the empty queue. -/
theorem represents_new : Represents split .empty (RingSystem.new split) := by
  refine ⟨?_, ?_, rfl, rfl⟩
  · intro k _ _
    simp [expectedState, Fifo.empty, RingSystem.new, SpscRing.new, SendPc.isWriting]
  · intro k m _ hm
    simp [Fifo.empty] at hm

section

variable [DecidableEq Part] [Fintype Part]

/-- What a step means for the queue. -/
def label (split : ChannelMessage ≃ ((p : Part) → Cell p)) (s : RingSystem Cell) :
    Action Part → Fifo.Label ChannelMessage
  | .producer =>
    match s.producer with
    | .loaded _ head => if (s.ring.slots (slotOf head)).state = .empty then .silent else .full
    | .writing m _ pending => if pending = ∅ then .enqueue m else .silent
    | _ => .silent
  | .consumer =>
    match s.consumer with
    | .loaded tail => if (s.ring.slots (slotOf tail)).state = .ready then .silent else .empty
    | .reading _ pending buffer => if pending = ∅ then .dequeue (split.symm buffer) else .silent
    | .checking tail => if (s.ring.slots (slotOf tail)).state = .ready then .silent else .empty
    | _ => .silent
  | _ => .silent

section

variable {r : SpscRing Cell} {pp : SendPc Part} {cp : RecvPc Cell} {m : ChannelMessage} {head tail : Nat}

theorem producerStep_claim (hstate : (r.slots (slotOf head)).state = .empty) :
    producerStep ⟨r, .loaded m head, cp⟩
      = (none, ⟨r.storeState (slotOf head) .writing, .writing m head .univ, cp⟩) := by
  simp only [producerStep, SpscRing.compareExchange, if_pos hstate]

theorem producerStep_full (hstate : (r.slots (slotOf head)).state ≠ .empty) :
    producerStep ⟨r, .loaded m head, cp⟩ = (some (.sent m (.error .full)), ⟨r, .idle, cp⟩) := by
  simp only [producerStep, SpscRing.compareExchange, if_neg hstate]

theorem consumerStep_claim (hstate : (r.slots (slotOf tail)).state = .ready) :
    consumerStep split ⟨r, pp, .loaded tail⟩
      = (none, ⟨r.storeState (slotOf tail) .reading, pp, .reading tail .univ (split .empty)⟩) := by
  simp only [consumerStep, SpscRing.compareExchange, if_pos hstate]

theorem consumerStep_none (hstate : (r.slots (slotOf tail)).state ≠ .ready) :
    consumerStep split ⟨r, pp, .loaded tail⟩ = (some (.received none), ⟨r, pp, .idle⟩) := by
  simp only [consumerStep, SpscRing.compareExchange, if_neg hstate]

end

theorem represents_producerStep (h : Represents split q s) :
    ∃ q', Fifo.Step q (label split s .producer) q' ∧ Represents split q' s.producerStep.2 := by
  obtain ⟨r, pp, cp⟩ := s
  cases pp with
  | idle => exact ⟨q, .silent, h⟩
  | loaded m head =>
      have hhead := h.head_empty_iff rfl
      have hslot : slotOf head = slotOf q.published.length := by rw [h.producer.2, slotOf_mod]
      rw [← hslot] at hhead
      simp only [label]
      by_cases hstate : (r.slots (slotOf head)).state = .empty
      · rw [producerStep_claim hstate, if_pos hstate]
        exact ⟨q, .silent, h.claimWrite (hhead.mp hstate)⟩
      · rw [producerStep_full hstate, if_neg hstate]
        have hfull : ¬ q.published.length < q.taken + channelDepth := fun hlt => hstate (hhead.mpr hlt)
        have := q.bounded
        exact ⟨q, .full (by omega), h.states, h.contents, h.producer.1, h.consumer⟩
  | writing m head pending =>
      simp only [label, producerStep]
      by_cases hp : pending = ∅
      · subst hp
        rw [if_pos rfl, if_pos rfl]
        exact ⟨_, .enqueue h.producer.2.2.1, h.publish h.producer.2.2.1⟩
      · rw [if_neg hp, if_neg hp]
        exact ⟨q, .silent, h⟩
  | published m head => exact ⟨q, .silent, h.storeProducer⟩

theorem represents_consumerStep (h : Represents split q s) :
    ∃ q', Fifo.Step q (label split s .consumer) q' ∧ Represents split q' (s.consumerStep split).2 := by
  obtain ⟨r, pp, cp⟩ := s
  -- the answer of a failed compare-exchange, and of `is_empty`
  have hnone : ∀ tail, tail = q.taken % channelDepth → cp.isReading = false →
      (r.slots (slotOf tail)).state ≠ .ready → q.published.length = q.taken := by
    intro tail htail hread hstate
    rw [htail, slotOf_mod] at hstate
    have hge : ¬ q.taken < q.published.length := fun hlt => hstate ((h.tail_ready_iff hread).mpr hlt)
    have := q.taken_le
    omega
  cases cp with
  | idle => exact ⟨q, .silent, h⟩
  | loaded tail =>
      have hslot : slotOf tail = slotOf q.taken := by rw [h.consumer.2, slotOf_mod]
      simp only [label]
      by_cases hstate : (r.slots (slotOf tail)).state = .ready
      · rw [consumerStep_claim hstate, if_pos hstate]
        rw [hslot] at hstate
        exact ⟨q, .silent, h.claimRead ((h.tail_ready_iff rfl).mp hstate)⟩
      · rw [consumerStep_none hstate, if_neg hstate]
        exact ⟨q, .empty (hnone tail h.consumer.2 rfl hstate), h.states, h.contents, h.producer, h.consumer.1⟩
  | reading tail pending buffer =>
      simp only [label, consumerStep]
      by_cases hp : pending = ∅
      · subst hp
        rw [if_pos rfl, if_pos rfl]
        have hlt := h.consumer.lt_of_reading rfl
        exact ⟨_, .dequeue hlt h.buffer_eq, h.vacate hlt⟩
      · rw [if_neg hp, if_neg hp]
        exact ⟨q, .silent, h⟩
  | vacated m tail => exact ⟨q, .silent, h.storeConsumer⟩
  | checking tail =>
      simp only [label, consumerStep]
      by_cases hstate : (r.slots (slotOf tail)).state = .ready
      · rw [if_pos hstate]
        exact ⟨q, .silent, h.states, h.contents, h.producer, h.consumer.1⟩
      · rw [if_neg hstate]
        exact ⟨q, .empty (hnone tail h.consumer.2 rfl hstate), h.states, h.contents, h.producer, h.consumer.1⟩

/-- **The ring refines the queue.** Each atomic step of either thread is a step of the queue. -/
theorem represents_step (h : Represents split q s) (a : Action Part) :
    ∃ q', Fifo.Step q (label split s a) q' ∧ Represents split q' (step split s a).2 := by
  cases a with
  | send m =>
      obtain ⟨r, pp, cp⟩ := s
      cases pp with
      | idle => exact ⟨q, .silent, h.states, h.contents, ⟨h.producer, h.producer⟩, h.consumer⟩
      | loaded m' head => exact ⟨q, .silent, h⟩
      | writing m' head pending => exact ⟨q, .silent, h⟩
      | published m' head => exact ⟨q, .silent, h⟩
  | write p =>
      obtain ⟨r, pp, cp⟩ := s
      cases pp with
      | writing m head pending =>
          simp only [label, step, RingSystem.writePart]
          split
          · exact ⟨q, .silent, h.writePart p⟩
          · exact ⟨q, .silent, h⟩
      | idle => exact ⟨q, .silent, h⟩
      | loaded m head => exact ⟨q, .silent, h⟩
      | published m head => exact ⟨q, .silent, h⟩
  | producer => exact represents_producerStep h
  | recv =>
      obtain ⟨r, pp, cp⟩ := s
      cases cp with
      | idle => exact ⟨q, .silent, h.states, h.contents, h.producer, ⟨h.consumer, h.consumer⟩⟩
      | loaded tail => exact ⟨q, .silent, h⟩
      | reading tail pending buffer => exact ⟨q, .silent, h⟩
      | vacated m tail => exact ⟨q, .silent, h⟩
      | checking tail => exact ⟨q, .silent, h⟩
  | read p =>
      obtain ⟨r, pp, cp⟩ := s
      cases cp with
      | reading tail pending buffer =>
          simp only [label, step, RingSystem.readPart]
          split
          · exact ⟨q, .silent, h.readPart p⟩
          · exact ⟨q, .silent, h⟩
      | idle => exact ⟨q, .silent, h⟩
      | loaded tail => exact ⟨q, .silent, h⟩
      | vacated m tail => exact ⟨q, .silent, h⟩
      | checking tail => exact ⟨q, .silent, h⟩
  | consumer => exact represents_consumerStep h
  | isEmpty =>
      obtain ⟨r, pp, cp⟩ := s
      cases cp with
      | idle => exact ⟨q, .silent, h.states, h.contents, h.producer, ⟨h.consumer, h.consumer⟩⟩
      | loaded tail => exact ⟨q, .silent, h⟩
      | reading tail pending buffer => exact ⟨q, .silent, h⟩
      | vacated m tail => exact ⟨q, .silent, h⟩
      | checking tail => exact ⟨q, .silent, h⟩

end

end

end RingSystem

end Slope.Ipc
