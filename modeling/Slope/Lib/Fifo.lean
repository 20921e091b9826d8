import Mathlib.Data.List.Basic
import Mathlib.Logic.Function.Basic

/-!
# `Lib.Fifo` — a bounded FIFO queue with its history, and the slots of a ring

`Fifo μ cap` is the abstract queue: everything that was ever enqueued, and how many of these have been taken
again. The messages in between are outstanding, and there are never more than `cap` of them: both facts are
fields, so a queue that has lost its order or its bound cannot be built.

`Fifo.Step` says what a queue may do: take a message in while there is room, hand the oldest out, and answer
that it is full or empty. An implementation refines the queue when each of its steps is one of these.

A ring of `cap` slots stores position `k` of the history in slot `k % cap`; the positions of one window of
length `cap` never share a slot (`slot_inj`).
-/

namespace Slope

/-- The positions of a window of length `cap` fall into different slots. -/
theorem slot_inj {cap base k k' : Nat} (hk : base ≤ k) (hk' : base ≤ k') (hlt : k < base + cap)
    (hlt' : k' < base + cap) (h : k % cap = k' % cap) : k = k' := by
  rcases Nat.le_total k k' with hle | hle
  · have hd := Nat.dvd_of_mod_eq_zero (Nat.sub_mod_eq_zero_of_mod_eq h.symm)
    have := Nat.eq_zero_of_dvd_of_lt hd (by omega)
    omega
  · have hd := Nat.dvd_of_mod_eq_zero (Nat.sub_mod_eq_zero_of_mod_eq h)
    have := Nat.eq_zero_of_dvd_of_lt hd (by omega)
    omega

/-- The slot of position `k`. -/
def ringSlot {cap : Nat} (hcap : 0 < cap) (k : Nat) : Fin cap := ⟨k % cap, Nat.mod_lt k hcap⟩

/-! ## Windows

What holds of the slots of a ring is said position by position, over the window that starts at the oldest
position in use. -/

section Window

variable {σ : Type*} {cap : Nat} {hcap : 0 < cap} {slots : Fin cap → σ} {base k : Nat}
  {P P' : Nat → σ → Prop}

theorem ringSlot_mod : ringSlot hcap (k % cap) = ringSlot hcap k := Fin.ext (Nat.mod_mod k cap)

theorem ringSlot_add : ringSlot hcap (k + cap) = ringSlot hcap k := Fin.ext (Nat.add_mod_right k cap)

/-- Each slot of the window from `base` on is as `P` says of its position. -/
def Covers (hcap : 0 < cap) (slots : Fin cap → σ) (base : Nat) (P : Nat → σ → Prop) : Prop :=
  ∀ k, base ≤ k → k < base + cap → P k (slots (ringSlot hcap k))

/-- One slot of the window is stored into. -/
theorem Covers.update (h : Covers hcap slots base P) (hk : base ≤ k) (hlt : k < base + cap) {d : σ}
    (hd : P' k d) (himp : ∀ j d, base ≤ j → j < base + cap → j ≠ k → P j d → P' j d) :
    Covers hcap (Function.update slots (ringSlot hcap k) d) base P' := by
  intro j hj hjlt
  by_cases hjk : j = k
  · subst hjk
    rw [Function.update_self]
    exact hd
  · have hne : ringSlot hcap j ≠ ringSlot hcap k := fun heq =>
      hjk (slot_inj hj hk hjlt hlt (congrArg Fin.val heq))
    rw [Function.update_of_ne hne]
    exact himp j _ hj hjlt hjk (h j hj hjlt)

/-- The oldest slot is stored into and the window moves on: the slot now is that of its new last position. -/
theorem Covers.recycle (h : Covers hcap slots base P) {d : σ} (hd : P' (base + cap) d)
    (himp : ∀ j d, base < j → j < base + cap → P j d → P' j d) :
    Covers hcap (Function.update slots (ringSlot hcap base) d) (base + 1) P' := by
  have hstored : Covers hcap (Function.update slots (ringSlot hcap base) d) base
      (fun j x => (j = base → P' (base + cap) x) ∧ (j ≠ base → P j x)) :=
    h.update (Nat.le_refl _) (by omega) ⟨fun _ => hd, fun hne => absurd rfl hne⟩
      fun j x _ _ hne hx => ⟨fun hj => absurd hj hne, fun _ => hx⟩
  intro j hj hjlt
  by_cases hjk : j = base + cap
  · rw [hjk, ringSlot_add]
    exact (hstored base (Nat.le_refl _) (by omega)).1 rfl
  · exact himp j _ hj (by omega) ((hstored j (by omega) (by omega)).2 (by omega))

end Window

/-! ## The queue -/

structure Fifo (μ : Type*) (cap : Nat) where
  published : List μ
  taken : Nat
  taken_le : taken ≤ published.length
  bounded : published.length ≤ taken + cap

namespace Fifo

variable {μ : Type*} {cap : Nat}

def empty : Fifo μ cap := ⟨[], 0, Nat.le_refl _, Nat.zero_le _⟩

/-- The messages in the queue, oldest first. -/
def outstanding (q : Fifo μ cap) : List μ := q.published.drop q.taken

def push (q : Fifo μ cap) (m : μ) (h : q.published.length < q.taken + cap) : Fifo μ cap where
  published := q.published ++ [m]
  taken := q.taken
  taken_le := by rw [List.length_append]; exact Nat.le_trans q.taken_le (Nat.le_add_right _ _)
  bounded := by rw [List.length_append]; exact h

def pop (q : Fifo μ cap) (h : q.taken < q.published.length) : Fifo μ cap where
  published := q.published
  taken := q.taken + 1
  taken_le := h
  bounded := by have := q.bounded; omega

/-- A message keeps its place in the history. -/
theorem getElem?_push {q : Fifo μ cap} {m m' : μ} {h : q.published.length < q.taken + cap} {k : Nat}
    (hk : q.published[k]? = some m') : (q.push m h).published[k]? = some m' :=
  (List.getElem?_append_left (List.getElem?_eq_some_iff.mp hk).1).trans hk

/-- In a full queue the next message would go to the slot of the oldest. -/
theorem ringSlot_full {q : Fifo μ cap} {hcap : 0 < cap} (h : ¬ q.published.length < q.taken + cap) :
    ringSlot hcap q.published.length = ringSlot hcap q.taken := by
  have hn : q.published.length = q.taken + cap := by have := q.bounded; omega
  rw [hn, ringSlot_add]

theorem length_outstanding (q : Fifo μ cap) : q.outstanding.length = q.published.length - q.taken :=
  List.length_drop ..

theorem length_outstanding_le (q : Fifo μ cap) : q.outstanding.length ≤ cap := by
  rw [length_outstanding]
  have := q.bounded
  omega

theorem outstanding_push (q : Fifo μ cap) (m : μ) (h : q.published.length < q.taken + cap) :
    (q.push m h).outstanding = q.outstanding ++ [m] :=
  List.drop_append_of_le_length q.taken_le

/-- The oldest outstanding message is the next of the history, and taking it leaves the others. -/
theorem outstanding_cons {q : Fifo μ cap} {m : μ} {rest : List μ} (h : q.outstanding = m :: rest) :
    ∃ hlt : q.taken < q.published.length, q.published[q.taken]? = some m ∧ (q.pop hlt).outstanding = rest := by
  have hlt : q.taken < q.published.length := by
    have hlen := q.length_outstanding
    rw [h, List.length_cons] at hlen
    omega
  have hdrop : q.published.drop q.taken = q.published[q.taken] :: q.published.drop (q.taken + 1) :=
    List.drop_eq_getElem_cons hlt
  obtain ⟨hm, hrest⟩ := List.cons.inj (hdrop.symm.trans h)
  exact ⟨hlt, by rw [List.getElem?_eq_getElem hlt, hm], hrest⟩

/-- What a step of an implementation means for the queue. -/
inductive Label (μ : Type*) where
  | silent
  | enqueue (m : μ)
  | dequeue (m : μ)
  | full
  | empty

/-- **The queue's steps.** -/
inductive Step : Fifo μ cap → Label μ → Fifo μ cap → Prop where
  | silent {q : Fifo μ cap} : Step q .silent q
  | enqueue {q : Fifo μ cap} {m : μ} (h : q.published.length < q.taken + cap) :
      Step q (.enqueue m) (q.push m h)
  | dequeue {q : Fifo μ cap} {m : μ} (h : q.taken < q.published.length)
      (hm : q.published[q.taken]? = some m) : Step q (.dequeue m) (q.pop h)
  | full {q : Fifo μ cap} (h : q.published.length = q.taken + cap) : Step q .full q
  | empty {q : Fifo μ cap} (h : q.published.length = q.taken) : Step q .empty q

def Label.enqueued : Label μ → Option μ
  | .enqueue m => some m
  | _ => none

def Label.dequeued : Label μ → Option μ
  | .dequeue m => some m
  | _ => none

/-- What a step adds to the history of the queue. -/
theorem Step.published_eq {q q' : Fifo μ cap} {l : Label μ} (h : Step q l q') :
    q'.published = q.published ++ l.enqueued.toList := by
  cases h with
  | enqueue h => rfl
  | silent => simp [Label.enqueued]
  | dequeue h hm => simp [Label.enqueued, pop]
  | full h => simp [Label.enqueued]
  | empty h => simp [Label.enqueued]

/-- What a step takes is the next message of the history. -/
theorem Step.taken_eq {q q' : Fifo μ cap} {l : Label μ} (h : Step q l q') :
    q'.published.take q'.taken = q.published.take q.taken ++ l.dequeued.toList := by
  cases h with
  | enqueue h =>
      simp only [push, Label.dequeued, Option.toList_none, List.append_nil]
      exact List.take_append_of_le_length q.taken_le
  | silent => simp [Label.dequeued]
  | dequeue h hm =>
      simp only [pop, Label.dequeued, Option.toList_some]
      rw [List.take_add_one, hm]
      rfl
  | full h => simp [Label.dequeued]
  | empty h => simp [Label.dequeued]

end Fifo

end Slope
