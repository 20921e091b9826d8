import Slope.Ipc.Refinement

/-!
# `Ipc.Interleaving` — what producer and consumer observe, for every interleaving

The refinement of `Ipc.Refinement`, read off along whole runs. A message is *published* by the store of
`READY` and *vacated* by the store of `EMPTY`; `send` returns `Ok` after the former and `recv` returns its
message after the latter, each with one more store in between. So the messages returned by `recv` are a prefix
of the messages published, which can be one ahead of the messages that `send` has returned `Ok` for.
-/

namespace Slope.Ipc

def SendPc.unreturned {Part : Type} : SendPc Part → List ChannelMessage
  | .published m _ => [m]
  | _ => []

def RecvPc.unreturned {Part : Type} {Cell : Part → Type} : RecvPc Cell → List ChannelMessage
  | .vacated m _ => [m]
  | _ => []

/-- Which thread a step belongs to. -/
def Action.byProducer {Part : Type} : Action Part → Bool
  | .send _ => true
  | .write _ => true
  | .producer => true
  | _ => false

namespace RingSystem

variable {Part : Type} {Cell : Part → Type}

/-! ## Histories -/

abbrev RingEvent (Cell : Part → Type) := Event (RingSystem Cell) (Action Part) (Option Reply)

def sentBy : Option Reply → Option ChannelMessage
  | some (.sent m (.ok _)) => some m
  | _ => none

def receivedBy : Option Reply → Option ChannelMessage
  | some (.received (some m)) => some m
  | _ => none

/-- The messages for which `send` returned `Ok`, oldest first. -/
def sent (h : List (RingEvent Cell)) : List ChannelMessage := h.filterMap fun e => sentBy e.result

/-- The messages that `recv` returned, oldest first. -/
def received (h : List (RingEvent Cell)) : List ChannelMessage := h.filterMap fun e => receivedBy e.result

/-- What the calls returned. -/
def replies (h : List (RingEvent Cell)) : List Reply := h.filterMap fun e => e.result

theorem replies_append (h h' : List (RingEvent Cell)) : replies (h ++ h') = replies h ++ replies h' :=
  List.filterMap_append ..

section

variable [DecidableEq Part] (split : ChannelMessage ≃ ((p : Part) → Cell p))

/-- The messages whose slot was marked `READY`, oldest first. -/
def published (h : List (RingEvent Cell)) : List ChannelMessage :=
  h.filterMap fun e => (label split e.pre e.call).enqueued

/-- The messages whose slot was marked `EMPTY` again, oldest first. -/
def vacated (h : List (RingEvent Cell)) : List ChannelMessage :=
  h.filterMap fun e => (label split e.pre e.call).dequeued

/-- How many messages are in the ring. -/
def outstanding (h : List (RingEvent Cell)) : Nat := (published split h).length - (vacated split h).length

/-! ## Accounts of the two threads -/

section

variable [Fintype Part]

/-- **A step of the producer** leaves the consumer alone and returns a message as sent after publishing it. -/
theorem producer_side (s : RingSystem Cell) {a : Action Part} (ha : a.byProducer = true) :
    ((step split s a).2.consumer = s.consumer ∧ receivedBy (step split s a).1 = none ∧
      (label split s a).dequeued = none) ∧
    (sentBy (step split s a).1).toList ++ (step split s a).2.producer.unreturned
      = s.producer.unreturned ++ (label split s a).enqueued.toList := by
  obtain ⟨r, pp, cp⟩ := s
  cases a with
  | send m => cases pp <;> exact ⟨⟨rfl, rfl, rfl⟩, rfl⟩
  | write p =>
      cases pp with
      | writing m head pending =>
          simp only [step, RingSystem.writePart]
          split <;> exact ⟨⟨rfl, rfl, rfl⟩, rfl⟩
      | idle => exact ⟨⟨rfl, rfl, rfl⟩, rfl⟩
      | loaded m head => exact ⟨⟨rfl, rfl, rfl⟩, rfl⟩
      | published m head => exact ⟨⟨rfl, rfl, rfl⟩, rfl⟩
  | producer =>
      cases pp with
      | loaded m head =>
          simp only [step, label]
          by_cases hstate : (r.slots (slotOf head)).state = .empty
          · rw [producerStep_claim hstate, if_pos hstate]
            exact ⟨⟨rfl, rfl, rfl⟩, rfl⟩
          · rw [producerStep_full hstate, if_neg hstate]
            exact ⟨⟨rfl, rfl, rfl⟩, rfl⟩
      | writing m head pending =>
          simp only [step, producerStep, label]
          split <;> exact ⟨⟨rfl, rfl, rfl⟩, rfl⟩
      | idle => exact ⟨⟨rfl, rfl, rfl⟩, rfl⟩
      | published m head => exact ⟨⟨rfl, rfl, rfl⟩, rfl⟩
  | recv => cases ha
  | read p => cases ha
  | consumer => cases ha
  | isEmpty => cases ha

/-- **A step of the consumer** leaves the producer alone and returns a message as received after vacating its
    slot. -/
theorem consumer_side (s : RingSystem Cell) {a : Action Part} (ha : a.byProducer = false) :
    ((step split s a).2.producer = s.producer ∧ sentBy (step split s a).1 = none ∧
      (label split s a).enqueued = none) ∧
    (receivedBy (step split s a).1).toList ++ (step split s a).2.consumer.unreturned
      = s.consumer.unreturned ++ (label split s a).dequeued.toList := by
  obtain ⟨r, pp, cp⟩ := s
  cases a with
  | recv => cases cp <;> exact ⟨⟨rfl, rfl, rfl⟩, rfl⟩
  | isEmpty => cases cp <;> exact ⟨⟨rfl, rfl, rfl⟩, rfl⟩
  | read p =>
      cases cp with
      | reading tail pending buffer =>
          simp only [step, RingSystem.readPart]
          split <;> exact ⟨⟨rfl, rfl, rfl⟩, rfl⟩
      | idle => exact ⟨⟨rfl, rfl, rfl⟩, rfl⟩
      | loaded tail => exact ⟨⟨rfl, rfl, rfl⟩, rfl⟩
      | vacated m tail => exact ⟨⟨rfl, rfl, rfl⟩, rfl⟩
      | checking tail => exact ⟨⟨rfl, rfl, rfl⟩, rfl⟩
  | consumer =>
      cases cp with
      | loaded tail =>
          simp only [step, label]
          by_cases hstate : (r.slots (slotOf tail)).state = .ready
          · rw [consumerStep_claim hstate, if_pos hstate]
            exact ⟨⟨rfl, rfl, rfl⟩, rfl⟩
          · rw [consumerStep_none hstate, if_neg hstate]
            exact ⟨⟨rfl, rfl, rfl⟩, rfl⟩
      | reading tail pending buffer =>
          simp only [step, consumerStep, label]
          split <;> exact ⟨⟨rfl, rfl, rfl⟩, rfl⟩
      | checking tail =>
          simp only [label]
          split <;> exact ⟨⟨rfl, rfl, rfl⟩, rfl⟩
      | idle => exact ⟨⟨rfl, rfl, rfl⟩, rfl⟩
      | vacated m tail => exact ⟨⟨rfl, rfl, rfl⟩, rfl⟩
  | send m => cases ha
  | write p => cases ha
  | producer => cases ha

/-- A message is returned as sent after it was published. -/
theorem sent_account (s : RingSystem Cell) (a : Action Part) :
    (sentBy (step split s a).1).toList ++ (step split s a).2.producer.unreturned
      = s.producer.unreturned ++ (label split s a).enqueued.toList := by
  cases ha : a.byProducer with
  | true => exact (producer_side split s ha).2
  | false =>
      obtain ⟨hpc, hsent, henq⟩ := (consumer_side split s ha).1
      rw [hpc, hsent, henq]
      simp

/-- A message is returned as received after its slot was vacated. -/
theorem received_account (s : RingSystem Cell) (a : Action Part) :
    (receivedBy (step split s a).1).toList ++ (step split s a).2.consumer.unreturned
      = s.consumer.unreturned ++ (label split s a).dequeued.toList := by
  cases ha : a.byProducer with
  | true =>
      obtain ⟨hpc, hrecv, hdeq⟩ := (producer_side split s ha).1
      rw [hpc, hrecv, hdeq]
      simp
  | false => exact (consumer_side split s ha).2

end

/-! ## The queue along a run -/

/-- The queue that a run has built, and the accounts of the two threads against it. -/
structure Accounted (q : Queue) (h : List (RingEvent Cell)) (s : RingSystem Cell) : Prop where
  represents : Represents split q s
  published : published split h = q.published
  vacated : vacated split h = q.published.take q.taken
  sent : sent h ++ s.producer.unreturned = q.published
  received : received h ++ s.consumer.unreturned = q.published.take q.taken

variable {split} {h : List (RingEvent Cell)} {s : RingSystem Cell}

section

variable {q : Queue} (hq : Accounted split q h s)
include hq

theorem Accounted.length_taken : (RingSystem.vacated split h).length = q.taken := by
  rw [hq.vacated, List.length_take]
  exact Nat.min_eq_left q.taken_le

theorem Accounted.outstanding_eq : outstanding split h = q.outstanding.length := by
  rw [outstanding, hq.published, hq.length_taken, Fifo.length_outstanding]

/-- With both threads between calls, or a call that has not claimed its slot, the queue holds what was sent
    and not received. -/
theorem Accounted.settled (hp : s.producer.unreturned = []) (hc : s.consumer.unreturned = []) :
    RingSystem.sent h = q.published ∧ (RingSystem.received h).length = q.taken := by
  have hs := hq.sent
  have hr := hq.received
  rw [hp, List.append_nil] at hs
  rw [hc, List.append_nil] at hr
  refine ⟨hs, ?_⟩
  rw [hr, List.length_take]
  exact Nat.min_eq_left q.taken_le

end

/-- The parts of `pending` that `order` leaves out. -/
def remaining (pending : Finset Part) (order : List Part) : Finset Part := pending.filter (· ∉ order)

theorem remaining_erase (pending : Finset Part) (p : Part) (order : List Part) :
    remaining (pending.erase p) order = remaining pending (p :: order) := by
  ext x
  simp only [remaining, Finset.mem_filter, Finset.mem_erase, List.mem_cons]
  tauto

theorem remaining_of_notMem {pending : Finset Part} {p : Part} (hp : p ∉ pending) (order : List Part) :
    remaining pending order = remaining pending (p :: order) := by
  rw [← remaining_erase, Finset.erase_eq_of_notMem hp]

theorem remaining_eq_empty {order : List Part} (hall : ∀ p, p ∈ order) (pending : Finset Part) :
    remaining pending order = ∅ := by
  simp [remaining, hall]

variable [Fintype Part]

theorem accounted_run (hr : Run (step split) (fun _ _ => True) (RingSystem.new split) h s) :
    ∃ q, Accounted split q h s := by
  refine hr.invariant (fun h s => ∃ q, Accounted split q h s) ⟨.empty, represents_new, rfl, rfl, rfl, rfl⟩ ?_
  rintro h s a - - ⟨q, ih⟩
  obtain ⟨q', hstep, hrep⟩ := represents_step ih.represents a
  refine ⟨q', hrep, ?_, ?_, ?_, ?_⟩
  · rw [RingSystem.published, filterMap_snoc, ← RingSystem.published, ih.published, hstep.published_eq]
    rfl
  · rw [RingSystem.vacated, filterMap_snoc, ← RingSystem.vacated, ih.vacated, hstep.taken_eq]
    rfl
  · rw [RingSystem.sent, filterMap_snoc, ← RingSystem.sent, List.append_assoc, hstep.published_eq, ← ih.sent,
      List.append_assoc]
    exact congrArg _ (sent_account split s a)
  · rw [RingSystem.received, filterMap_snoc, ← RingSystem.received, List.append_assoc, hstep.taken_eq,
      ← ih.received, List.append_assoc]
    exact congrArg _ (received_account split s a)

/-! ## Calls made while the other side is idle -/

/-- A whole `send`, with the parts written in the given order. -/
def sendCalls (order : List Part) (m : ChannelMessage) : List (Action Part) :=
  .send m :: .producer :: (order.map .write ++ [.producer, .producer])

/-- A whole `recv`, with the parts read in the given order. -/
def recvCalls (order : List Part) : List (Action Part) :=
  .recv :: .consumer :: (order.map .read ++ [.consumer, .consumer])

def isEmptyCalls : List (Action Part) := [.isEmpty, .consumer]

theorem replies_trace_cons (s : RingSystem Cell) (a : Action Part) (as : List (Action Part)) :
    replies (trace (step split) s (a :: as))
      = (step split s a).1.toList ++ replies (trace (step split) (step split s a).2 as) := by
  simp only [replies, trace, Event.of]
  cases (step split s a).1 <;> simp

/-- Steps that a thread is not ready for return nothing. -/
theorem replies_stutter {s : RingSystem Cell} {as : List (Action Part)}
    (h : ∀ a ∈ as, step split s a = (none, s)) : replies (trace (step split) s as) = [] := by
  induction as with
  | nil => rfl
  | cons a as ih =>
      rw [replies_trace_cons, h a (List.mem_cons_self ..)]
      exact ih fun b hb => h b (List.mem_cons_of_mem _ hb)

section

variable {r : SpscRing Cell} {pp : SendPc Part} {cp : RecvPc Cell} {m : ChannelMessage} {head tail : Nat}
  {q : Queue}

/-- Writing parts returns nothing and leaves the parts that were not written pending. -/
theorem write_all (split : ChannelMessage ≃ ((p : Part) → Cell p)) (m : ChannelMessage) (head : Nat)
    (cp : RecvPc Cell) (order : List Part) (r : SpscRing Cell) (pending : Finset Part) :
    ∃ r', finalState (step split) ⟨r, .writing m head pending, cp⟩ (order.map .write)
        = ⟨r', .writing m head (remaining pending order), cp⟩ ∧
      replies (trace (step split) ⟨r, .writing m head pending, cp⟩ (order.map .write)) = [] := by
  induction order generalizing r pending with
  | nil => exact ⟨r, by simp [finalState, remaining], rfl⟩
  | cons p order ih =>
      rw [List.map_cons, replies_trace_cons]
      by_cases hp : p ∈ pending
      · have hs : step split ⟨r, .writing m head pending, cp⟩ (.write p)
            = (none, ⟨r.storePart (slotOf head) p (split m p), .writing m head (pending.erase p), cp⟩) := by
          simp only [step, RingSystem.writePart, if_pos hp]
        obtain ⟨r', hfin, hrep⟩ := ih (r.storePart (slotOf head) p (split m p)) (pending.erase p)
        rw [finalState, hs]
        exact ⟨r', by rw [hfin, remaining_erase], hrep⟩
      · have hs : step split ⟨r, .writing m head pending, cp⟩ (.write p)
            = (none, ⟨r, .writing m head pending, cp⟩) := by
          simp only [step, RingSystem.writePart, if_neg hp]
        obtain ⟨r', hfin, hrep⟩ := ih r pending
        rw [finalState, hs]
        exact ⟨r', by rw [hfin, remaining_of_notMem hp], hrep⟩

/-- Reading parts returns nothing and keeps the representation. -/
theorem read_all (order : List Part) {pending : Finset Part} {buffer : (p : Part) → Cell p}
    (h : Represents split q ⟨r, pp, .reading tail pending buffer⟩) :
    ∃ buffer', finalState (step split) ⟨r, pp, .reading tail pending buffer⟩ (order.map .read)
        = ⟨r, pp, .reading tail (remaining pending order) buffer'⟩ ∧
      Represents split q ⟨r, pp, .reading tail (remaining pending order) buffer'⟩ ∧
      replies (trace (step split) ⟨r, pp, .reading tail pending buffer⟩ (order.map .read)) = [] := by
  induction order generalizing pending buffer with
  | nil => exact ⟨buffer, by simp [finalState, remaining], by simpa [remaining] using h, rfl⟩
  | cons p order ih =>
      rw [List.map_cons, replies_trace_cons]
      by_cases hp : p ∈ pending
      · have hs : step split ⟨r, pp, .reading tail pending buffer⟩ (.read p)
            = (none, ⟨r, pp, .reading tail (pending.erase p)
                (Function.update buffer p ((r.slots (slotOf tail)).message p))⟩) := by
          simp only [step, RingSystem.readPart, if_pos hp]
        obtain ⟨buffer', hfin, hrep, hnone⟩ := ih (h.readPart p)
        rw [remaining_erase] at hfin hrep
        rw [finalState, hs]
        exact ⟨buffer', hfin, hrep, hnone⟩
      · have hs : step split ⟨r, pp, .reading tail pending buffer⟩ (.read p)
            = (none, ⟨r, pp, .reading tail pending buffer⟩) := by
          simp only [step, RingSystem.readPart, if_neg hp]
        obtain ⟨buffer', hfin, hrep, hnone⟩ := ih h
        rw [remaining_of_notMem hp] at hfin hrep
        rw [finalState, hs]
        exact ⟨buffer', hfin, hrep, hnone⟩

/-- **A whole `send` beside an idle or stopped consumer** returns, and is refused exactly when the queue is
    full. -/
theorem send_alone {order : List Part} (hall : ∀ p, p ∈ order) (m : ChannelMessage)
    (h : Represents split q ⟨r, .idle, cp⟩) :
    replies (trace (step split) ⟨r, .idle, cp⟩ (sendCalls order m))
      = [.sent m (if q.outstanding.length = channelDepth then .error .full else .ok ())] := by
  have hhead := h.head_empty_iff rfl
  have hidx : r.producer.toNat = q.published.length % channelDepth := h.producer
  rw [← slotOf_mod, ← hidx] at hhead
  rw [sendCalls, replies_trace_cons, replies_trace_cons, q.length_outstanding]
  show [] ++ ((producerStep ⟨r, .loaded m r.producer.toNat, cp⟩).1.toList
    ++ replies (trace (step split) (producerStep ⟨r, .loaded m r.producer.toNat, cp⟩).2 _)) = _
  have hbound := q.bounded
  have hle := q.taken_le
  by_cases hstate : (r.slots (slotOf r.producer.toNat)).state = .empty
  · -- the slot is claimed, all parts are written, and the last two stores follow
    have hlt := hhead.mp hstate
    obtain ⟨r', hfin, hnone⟩ := write_all split m r.producer.toNat cp order
      (r.storeState (slotOf r.producer.toNat) .writing) .univ
    rw [producerStep_claim hstate, trace_append, replies_append, hfin, hnone, remaining_eq_empty hall,
      if_neg (by omega)]
    simp [trace, Event.of, step, producerStep, replies]
  · -- the call has returned, and the remaining steps find the producer idle
    have hge := mt hhead.mpr hstate
    have hfull : q.published.length - q.taken = channelDepth := by omega
    rw [producerStep_full hstate, if_pos hfull, replies_stutter]
    · rfl
    · intro a ha
      simp only [List.mem_append, List.mem_map, List.mem_cons, List.not_mem_nil, or_false] at ha
      rcases ha with ⟨p, -, rfl⟩ | rfl | rfl <;> rfl

/-- **A whole `recv` beside an idle or stopped producer** returns the oldest message, if there is one. -/
theorem recv_alone {order : List Part} (hall : ∀ p, p ∈ order) (h : Represents split q ⟨r, pp, .idle⟩) :
    replies (trace (step split) ⟨r, pp, .idle⟩ (recvCalls order))
      = [.received q.published[q.taken]?] := by
  have htail := h.tail_ready_iff rfl
  have hidx : r.consumer.toNat = q.taken % channelDepth := h.consumer
  rw [← slotOf_mod, ← hidx] at htail
  have hload : Represents split q ⟨r, pp, .loaded r.consumer.toNat⟩ :=
    ⟨h.states, h.contents, h.producer, h.consumer, h.consumer⟩
  rw [recvCalls, replies_trace_cons, replies_trace_cons]
  show [] ++ ((consumerStep split ⟨r, pp, .loaded r.consumer.toNat⟩).1.toList
    ++ replies (trace (step split) (consumerStep split ⟨r, pp, .loaded r.consumer.toNat⟩).2 _)) = _
  by_cases hstate : (r.slots (slotOf r.consumer.toNat)).state = .ready
  · -- the slot is claimed and all parts are read, so the buffer is the oldest message
    have hlt := htail.mp hstate
    have hclaim : Represents split q ⟨r.storeState (slotOf r.consumer.toNat) .reading, pp,
        .reading r.consumer.toNat .univ (split .empty)⟩ := hload.claimRead hlt
    obtain ⟨buffer, hfin, hrep, hnone⟩ := read_all order hclaim
    rw [remaining_eq_empty hall] at hfin hrep
    rw [consumerStep_claim hstate, trace_append, replies_append, hfin, hnone, hrep.buffer_eq]
    simp [trace, Event.of, step, consumerStep, replies]
  · have hge := mt htail.mpr hstate
    rw [consumerStep_none hstate, List.getElem?_eq_none (by omega), replies_stutter]
    · rfl
    · intro a ha
      simp only [List.mem_append, List.mem_map, List.mem_cons, List.not_mem_nil, or_false] at ha
      rcases ha with ⟨p, -, rfl⟩ | rfl | rfl <;> rfl

end

/-! ## The ring, for every interleaving -/

/-- What calls return while the other side has no call in progress: `send` is refused exactly when
    `CHANNEL_DEPTH` messages are outstanding, `recv` returns nothing exactly when none is, and `is_empty` agrees
    with `recv`. The first three fields are about the deciding step of a call, whatever happened before it;
    the others about whole calls, which always return. -/
structure AnswersExactly (split : ChannelMessage ≃ ((p : Part) → Cell p)) (h : List (RingEvent Cell))
    (s : RingSystem Cell) : Prop where
  full_iff : ∀ m head, s.producer = .loaded m head → s.consumer = .idle →
    ((step split s .producer).1 = some (.sent m (.error .full)) ↔ outstanding split h = channelDepth)
  none_iff : ∀ tail, s.consumer = .loaded tail → s.producer = .idle →
    ((step split s .consumer).1 = some (.received none) ↔ outstanding split h = 0)
  isEmpty_eq : ∀ tail, s.consumer = .checking tail → s.producer = .idle →
    (step split s .consumer).1 = some (.isEmpty (decide (outstanding split h = 0)))
  idle : s.producer = .idle → s.consumer = .idle →
    outstanding split h = (sent h).length - (received h).length ∧
    ∀ order : List Part, (∀ p, p ∈ order) →
      (∀ m, replies (trace (step split) s (sendCalls order m))
        = [.sent m (if outstanding split h = channelDepth then .error .full else .ok ())]) ∧
      replies (trace (step split) s (recvCalls order)) = [.received (sent h)[(received h).length]?] ∧
      replies (trace (step split) s isEmptyCalls) = [.isEmpty (decide (outstanding split h = 0))]

theorem Accounted.answersExactly {q : Queue} (hq : Accounted split q h s) : AnswersExactly split h s := by
  have hout := hq.outstanding_eq
  have hrep := hq.represents
  have hle := q.taken_le
  have hbound := q.bounded
  obtain ⟨r, pp, cp⟩ := s
  -- `recv` and `is_empty` look at the same slot
  have hempty : ∀ tail, tail = q.taken % channelDepth → cp.isReading = false →
      ((r.slots (slotOf tail)).state ≠ .ready ↔ outstanding split h = 0) := by
    intro tail htail hread
    have hready := hrep.tail_ready_iff hread
    rw [← slotOf_mod, ← htail] at hready
    rw [hout, q.length_outstanding, Ne, hready]
    omega
  refine ⟨?_, ?_, ?_, ?_⟩
  · rintro m head hp -
    obtain rfl : pp = .loaded m head := hp
    have hhead := hrep.head_empty_iff rfl
    rw [← slotOf_mod, ← hrep.producer.2] at hhead
    rw [hout, q.length_outstanding]
    show (producerStep _).1 = _ ↔ _
    by_cases hstate : (r.slots (slotOf head)).state = .empty
    · have hlt := hhead.mp hstate
      rw [producerStep_claim hstate]
      constructor
      · intro he; cases he
      · intro he; omega
    · have hge := mt hhead.mpr hstate
      rw [producerStep_full hstate]
      exact ⟨fun _ => by omega, fun _ => rfl⟩
  · rintro tail hc -
    obtain rfl : cp = .loaded tail := hc
    rw [← hempty tail hrep.consumer.2 rfl]
    show (consumerStep split _).1 = _ ↔ _
    by_cases hstate : (r.slots (slotOf tail)).state = .ready
    · rw [consumerStep_claim hstate]
      constructor
      · intro he; cases he
      · intro he; exact absurd hstate he
    · rw [consumerStep_none hstate]
      exact ⟨fun _ => hstate, fun _ => rfl⟩
  · rintro tail hc -
    obtain rfl : cp = .checking tail := hc
    show some (Reply.isEmpty _) = _
    rw [decide_eq_decide.mpr (hempty tail hrep.consumer.2 rfl)]
  · intro hp hc
    obtain rfl : pp = .idle := hp
    obtain rfl : cp = .idle := hc
    obtain ⟨hsent, hrecv⟩ := hq.settled rfl rfl
    refine ⟨by rw [hout, q.length_outstanding, hsent, hrecv], ?_⟩
    intro order hall
    refine ⟨?_, ?_, ?_⟩
    · intro m
      rw [send_alone hall m hrep, hout]
    · rw [recv_alone hall hrep, hsent, hrecv]
    · rw [isEmptyCalls, replies_trace_cons, replies_trace_cons]
      show [Reply.isEmpty (decide ((r.slots (slotOf r.consumer.toNat)).state ≠ .ready))] = _
      rw [decide_eq_decide.mpr (hempty _ hrep.consumer rfl)]

/-- **The ring is a bounded FIFO queue, for every interleaving.** However the atomic steps of one producer
    and one consumer interleave, and however the copies of the messages are split: the messages that `recv`
    returned are a prefix of the messages published, which are those `send` returned `Ok` for and at most the
    one of a `send` past its store of `READY`; at most `CHANNEL_DEPTH` messages are published and not vacated;
    and the answers are exact. -/
theorem ring_refines_queue (hr : Run (step split) (fun _ _ => True) (RingSystem.new split) h s) :
    received h <+: sent h ++ s.producer.unreturned ∧
    (s.producer = .idle → received h <+: sent h) ∧
    (vacated split h <+: published split h ∧ outstanding split h ≤ channelDepth) ∧
    AnswersExactly split h s := by
  obtain ⟨q, hq⟩ := accounted_run hr
  have hpre : received h <+: sent h ++ s.producer.unreturned := by
    rw [hq.sent]
    have htake := List.take_prefix q.taken q.published
    rw [← hq.received] at htake
    exact (List.prefix_append _ _).trans htake
  refine ⟨hpre, ?_, ⟨?_, ?_⟩, hq.answersExactly⟩
  · intro hidle
    rw [hidle] at hpre
    simpa [SendPc.unreturned] using hpre
  · rw [hq.vacated, hq.published]
    exact List.take_prefix ..
  · rw [hq.outstanding_eq]
    exact q.length_outstanding_le

end

/-! ### A message is received before its `send` returns -/

/-- The message copied in one piece. -/
def wholeMessage : ChannelMessage ≃ (Unit → ChannelMessage) := (Equiv.funUnique Unit ChannelMessage).symm

/-- `send` up to its store of `READY`, then a whole `recv`. -/
def overtakingCalls : List (Action Unit) :=
  [.send (.withTag 42), .producer, .write (), .producer, .recv, .consumer, .read (), .consumer, .consumer]

theorem ring_refines_queue_overtaken :
    received (trace (step wholeMessage) (.new wholeMessage) overtakingCalls) = [.withTag 42] ∧
    received (trace (step wholeMessage) (.new wholeMessage) overtakingCalls)
      <+: sent (trace (step wholeMessage) (.new wholeMessage) overtakingCalls) ++ [.withTag 42] :=
  ⟨by decide +kernel, (ring_refines_queue (.calls .start overtakingCalls)).1⟩

/-- **`recv` can be ahead of `send`.** The message is received while the `send` that published it has still to
    store its index and return. -/
theorem received_before_sent :
    ∃ h s, Run (step wholeMessage) (fun _ _ => True) (.new wholeMessage) h s ∧
      received h = [.withTag 42] ∧ sent h = [] ∧ ¬ received h <+: sent h := by
  refine ⟨_, _, .calls .start overtakingCalls, by decide +kernel, by decide +kernel, by decide +kernel⟩

end RingSystem

end Slope.Ipc
