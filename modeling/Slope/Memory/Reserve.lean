import Slope.Lib.Ticket
import Slope.Memory.Slab

/-!
# `Memory.Reserve` — pages of the arena, reserved without a lock

`FixedHeapArena::allocate_page` is the one part of the allocator that takes no lock: it reserves pages by a loop
around a weak compare-exchange of the page cursor. `Memory.Slab` has it as a single caller sees it; here any
number of threads are in it at once, one access to the cursor at a time. The cursor is a dispenser of
`Lib.Ticket` whose limit is the number of pages.
-/

namespace Slope.Memory

open Ticket

/-- The cursor `next_page`, and what each thread in `allocate_page` has in `current`. -/
abbrev ArenaThreads (τ : Type) := Dispenser τ

namespace ArenaThreads

abbrev ArenaEvent (τ : Type) := Dispenser.TicketEvent τ

variable {τ : Type} [DecidableEq τ]

/-- **One access to the cursor**: the load, or one turn of the loop. -/
def step (d : ArenaThreads τ) (m : Move τ) : Notice τ × ArenaThreads τ := Dispenser.step userHeapPages d m

omit [DecidableEq τ] in
/-- The addresses that calls returned, in order. -/
def returned (arena : FixedHeapArena) (h : List (ArenaEvent τ)) : List Nat :=
  (Dispenser.tickets h).map arena.pageBase

/-- A caller that nobody disturbs gets what `Memory.Slab` says that it gets. -/
theorem alone_agrees (arena : FixedHeapArena) {d : ArenaThreads τ} {t : τ} (hnext : d.next = arena.nextPage)
    (hidle : d.seen t = none) :
    (arena.allocatePage = none ∧ (step (step d (.call t)).2 (.attempt t false)).1 = some (t, none)) ∨
      ∃ page arena', arena.allocatePage = some (arena.pageBase page, arena') ∧
        (step (step d (.call t)).2 (.attempt t false)).1 = some (t, some page) ∧
        (step (step d (.call t)).2 (.attempt t false)).2.next = arena'.nextPage := by
  have hload : (step d (.call t)).2 = { d with seen := Function.update d.seen t (some d.next) } := by
    simp only [step, Dispenser.step, hidle]
  rw [hload]
  unfold FixedHeapArena.allocatePage step Dispenser.step
  rw [← hnext]
  simp only [Function.update_self]
  by_cases hfull : userHeapPages ≤ d.next
  · rw [if_pos hfull, if_pos hfull]
    exact .inl ⟨rfl, rfl⟩
  · rw [if_neg hfull, if_neg hfull, if_pos ⟨trivial, trivial⟩]
    exact .inr ⟨d.next, _, rfl, rfl, rfl⟩

omit [DecidableEq τ] in
theorem pageBase_apart (arena : FixedHeapArena) {i j : Nat} (h : i < j) :
    arena.pageBase i + pageSize ≤ arena.pageBase j := by
  have hmul := Nat.mul_le_mul_right pageSize (Nat.succ_le_of_lt h)
  rw [Nat.succ_mul] at hmul
  unfold FixedHeapArena.pageBase
  omega

omit [DecidableEq τ] in
theorem pageBase_within (arena : FixedHeapArena) {i : Nat} (h : i < userHeapPages) :
    pageSize ∣ arena.pageBase i ∧ arena.base ≤ arena.pageBase i ∧
      arena.pageBase i + pageSize ≤ arena.base + userHeapPages * pageSize := by
  refine ⟨Nat.dvd_add arena.base_aligned (Nat.dvd_mul_left ..), Nat.le_add_right .., ?_⟩
  exact pageBase_apart arena h

/-- **Pages are reserved once, in order, and without waiting.** For any threads and every interleaving of their
    accesses to the cursor, whatever weak exchanges fail for no reason: the addresses returned so far are those
    of the first pages of the arena, one each; they are page-aligned, inside the arena, and their pages do not
    overlap; a thread is refused only when all the pages have been handed out; and while a thread is in its
    call, at most as many of its exchanges as there are pages found the cursor moved by another thread. The
    exchanges that fail for no reason are not counted: nothing bounds them. -/
theorem pages_reserved_once (arena : FixedHeapArena) {d : ArenaThreads τ} {h : List (ArenaEvent τ)}
    (hr : Run step (fun _ _ => True) .new h d) :
    returned arena h = (List.range d.next).map arena.pageBase ∧
    (returned arena h).Pairwise (fun p q => p + pageSize ≤ q) ∧
    (∀ p ∈ returned arena h, pageSize ∣ p ∧ arena.base ≤ p ∧
      p + pageSize ≤ arena.base + userHeapPages * pageSize) ∧
    (∀ h₁ e h₂ t, h = h₁ ++ e :: h₂ → e.result = some (t, none) →
      (returned arena h₁).length = userHeapPages) ∧
    (∀ h₁ e h₂ t, h = h₁ ++ e :: h₂ → e.call = .call t → e.pre.seen t = none →
      (∀ e' ∈ h₂, ∀ result, e'.result ≠ some (t, result)) → Dispenser.lost t h₂ ≤ userHeapPages) := by
  have hfair := Dispenser.tickets_run hr
  have hall : returned arena h = (List.range d.next).map arena.pageBase := by
    rw [returned, hfair.tickets_eq]
  refine ⟨hall, ?_, ?_, ?_, ?_⟩
  · rw [hall, List.pairwise_map]
    exact List.pairwise_lt_range.imp fun hij => pageBase_apart arena hij
  · intro p hp
    rw [hall, List.mem_map] at hp
    obtain ⟨i, hi, rfl⟩ := hp
    have hbound := hfair.bounded
    exact pageBase_within arena (by rw [List.mem_range] at hi; omega)
  · intro h₁ e h₂ t hsplit hret
    have hpre := (hr.cut hsplit).1
    have hof := hr.event_of (e := e) (by rw [hsplit]; simp)
    have hrefused : (Dispenser.step userHeapPages e.pre e.call).1 = some (t, none) := by
      rw [← hret]
      exact (congrArg Event.result hof).symm
    rw [returned, List.length_map, (Dispenser.tickets_run hpre).tickets_eq, List.length_range]
    exact Dispenser.refused_full hpre hrefused
  · intro h₁ e h₂ t hsplit hcall hidle hnot
    obtain ⟨hpre, -, hpost⟩ := hr.cut hsplit
    have hof := hr.event_of (e := e) (by rw [hsplit]; simp)
    have hpost_eq : e.post = (step e.pre (.call t)).2 := by
      rw [← hcall]
      exact congrArg Event.post hof
    have hstart := hpre.call (.call t) trivial
    rw [← hpost_eq] at hstart
    have hseen : e.post.seen t = some e.pre.next := by
      rw [hpost_eq]
      simp [step, Dispenser.step, hidle]
    obtain ⟨c, -, hle, hlimit⟩ := Dispenser.lost_le hstart hpost hseen hnot
    omega

/-- Two threads load the same cursor; the second one loses an exchange to the first, and gets the next page. -/
def racingMoves : List (Move Bool) :=
  [.call false, .call true, .attempt false false, .attempt true false, .attempt true false]

theorem pages_reserved_once_racing :
    returned (.new 4096 (by decide) (by decide)) (trace step .new racingMoves) = [4096, 8192] ∧
      (returned (.new 4096 (by decide) (by decide)) (trace step .new racingMoves)).Pairwise
        (fun p q => p + pageSize ≤ q) ∧
      Dispenser.lost true (trace step .new racingMoves) = 1 := by
  have hr := Run.replay (step (τ := Bool)) .new racingMoves
  exact ⟨rfl, (pages_reserved_once (.new 4096 (by decide) (by decide)) hr).2.1, rfl⟩

end ArenaThreads

end Slope.Memory
